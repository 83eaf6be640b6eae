import Mathlib
import SphereLab.Proofs.Double.Units
import SphereLab.Proofs.Formula.Rounded

/-!
# Doubles with any elementary functions

The exponential, the logarithm and the power function of doubles are those of the mathematical
library at hand, and it need not round them correctly.  `Scalar.doublesWith` has the arithmetic of
doubles and the elementary functions that it is given.  With the functions of the library it is the
scalars that everything runs on.

* `ElementaryFunctions`: three functions, of which the exponential of zero is one.
* `standsFor_realOf`: doubles stand for their real numbers.
-/

namespace SphereLab

/-- The elementary functions of a mathematical library. -/
structure ElementaryFunctions where
  exp : Float → Float
  log : Float → Float
  pow : Float → Float → Float
  /-- Every library has the exponential of zero without an error. -/
  exp_zero : exp 0.0 = 1.0

/-- Doubles with given elementary functions. -/
@[reducible]
def Scalar.doublesWith (e : ElementaryFunctions) : Scalar Float where
  __ := (inferInstance : Scalar Float)
  exp := e.exp
  log := e.log
  pow := e.pow

/-- What equals a finite double is finite. -/
theorem isFinite_of_beq {x y : Float} (h : (x == y) = true) (hy : y.isFinite = true) :
    x.isFinite = true := by
  have heq : (x == y) = (x.toModel.unpack.compare y.toModel.unpack == some .eq) := rfl
  obtain ⟨negative', d', hread'⟩ := Reading.isFinite_iff.mp hy
  rw [heq, Reading.unpack_eq, Reading.unpack_eq, hread', beq_iff_eq] at h
  cases hread : Reading.ofFloat x with
  | finite negative d => exact Reading.isFinite_iff.mpr ⟨negative, d, hread⟩
  | nan =>
    rw [hread] at h
    exact absurd h (by simp [Reading.unpacked, Float.Model.UnpackedFloat.compare])
  | infinite negative =>
    rw [hread, Reading.unpacked, Reading.unpacked] at h
    split at h
    · cases negative <;> cases h
    · cases negative <;> cases h

/-- Small integers are doubles that pass the test for integers. -/
theorem isInteger_doubleOfInt {n : ℤ} (hn : n.natAbs < 10 ^ 15) :
    Scalar.isInteger (doubleOfInt n) = true ∧ truncateDouble (doubleOfInt n) = n := by
  obtain ⟨hreal, hfinite⟩ := realOf_doubleOfInt (n := n) (by omega)
  have hint := isInteger_of_realOf_eq hfinite hn hreal
  refine ⟨hint, ?_⟩
  have htoInt := (realOf_eq_toInt hint).1
  rw [hreal] at htoInt
  exact (Int.cast_inj.mp htoInt).symm

/-- The laws of the units do not depend on the elementary functions. -/
theorem unitLaws_doublesWith (e : ElementaryFunctions) :
    @Formula.UnitLaws Float (Scalar.doublesWith e) :=
  @Formula.UnitLaws.mk Float (Scalar.doublesWith e) unitLaws_double.zero_beq_zero
    unitLaws_double.one_beq_one unitLaws_double.one_beq_zero unitLaws_double.zero_add
    unitLaws_double.one_mul

/-- Doubles stand for their real numbers, whatever their elementary functions are. -/
theorem standsFor_realOf (e : ElementaryFunctions) :
    @Formula.StandsFor Float ℝ (Scalar.doublesWith e) _ realOf := by
  have hzero : (0.0 : Float).isFinite = true := Reading.isFinite_iff.mpr ⟨_, _, ofFloat_zero⟩
  have hone : doubleOfInt 1 = 1.0 := @Reading.eq_of_ofFloat_eq _ _ false
    ⟨2 ^ 52, -52⟩ (by decide +kernel) (by decide +kernel)
  have hneg : doubleOfInt (-1) = -1.0 := @Reading.eq_of_ofFloat_eq _ _ true
    ⟨2 ^ 52, -52⟩ (by decide +kernel) (by decide +kernel)
  have hadd : (0.0 : Float) + 0.0 = 0.0 := @Reading.eq_of_ofFloat_eq _ _ false
    ⟨0, -1074⟩ (by decide +kernel) (by decide +kernel)
  have hadd' : -(1.0 : Float) + 0.0 = -1.0 := @Reading.eq_of_ofFloat_eq _ _ true
    ⟨2 ^ 52, -52⟩ (by decide +kernel) (by decide +kernel)
  have hnegZero : (-(0.0 : Float) == 0.0) = true := by decide +kernel
  refine @Formula.StandsFor.mk Float ℝ (Scalar.doublesWith e) _ realOf (unitLaws_doublesWith e)
    ?_ ?_ ?_ ?_ hone hneg hadd hadd' hnegZero e.exp_zero
  · exact fun c hc => (Formula.beq_zero_iff (isFinite_of_beq hc hzero)).mp hc
  · exact fun c hc => (Formula.beq_one_iff (isFinite_of_beq hc realOf_one.2)).mp hc
  · exact fun c hc => (realOf_eq_toInt hc).1
  · exact fun n hn => isInteger_doubleOfInt hn

/-! ## Normal forms -/

/-- What is normal in doubles with some elementary functions is normal in all of them. -/
theorem Formula.isNormal_of_doublesWith {e : ElementaryFunctions} {f : Formula Float}
    (h : @Formula.IsNormal Float (Scalar.doublesWith e) f) : f.IsNormal := by
  induction f with
  | const c => exact isNormal_const c
  | symbol s => exact isNormal_symbol s
  | sum ts ih =>
    obtain ⟨⟨hlength, hsum, hconst, hlast⟩, hts⟩ :=
      (@isNormal_sum_iff Float (Scalar.doublesWith e) ts).mp h
    exact isNormal_sum_iff.mpr ⟨⟨hlength, hsum, hconst, hlast⟩, fun t ht => ih t ht (hts t ht)⟩
  | product fs ih =>
    obtain ⟨⟨hlength, hproduct, hconst, hfirst⟩, hfs⟩ :=
      (@isNormal_product_iff Float (Scalar.doublesWith e) fs).mp h
    exact isNormal_product_iff.mpr
      ⟨⟨hlength, hproduct, hconst, hfirst⟩, fun f hf => ih f hf (hfs f hf)⟩
  | power b n ihb ihn =>
    obtain ⟨⟨hboth, hexponent, hone, hproduct, hpower⟩, hb, hn⟩ :=
      (@isNormal_power_iff Float (Scalar.doublesWith e) b n).mp h
    exact isNormal_power_iff.mpr ⟨⟨hboth, hexponent, hone, hproduct, hpower⟩, ihb hb, ihn hn⟩
  | exponential x ih =>
    obtain ⟨hconst, hx⟩ := (@isNormal_exponential_iff Float (Scalar.doublesWith e) x).mp h
    exact isNormal_exponential_iff.mpr ⟨hconst, ih hx⟩

end SphereLab
