import Mathlib
import SphereLab.Proofs.Formula.Algebra

/-!
# Integer powers of simplified formulas

An integer power goes through the factors of a product, and two integer powers on top of each other
merge into one.  Two things can go wrong.  A zero has no negative powers; and the merged exponent
may be so large that it is not taken for an integer any more, and then later powers are kept apart
from it that would otherwise merge.

* `ZeroSafe`, `Composes`: the power of a formula at an exponent is free of the one and of the other.
* `powConst_productOf`: an integer power goes through simplified products.
* `powConst_powConst`: an integer power of an integer power is one integer power.
-/

namespace SphereLab

namespace Formula

variable {α : Type}

/-! ## What can go wrong -/

section Conditions

variable [Scalar α]

/-- The exponent is not negative if the base is zero. -/
def ZeroSafe (f : Formula α) (c : α) : Prop := f = const 0 → 0 ≤ c

/-- The exponents into which an integer exponent is merged are small integers again. -/
def Composes (f : Formula α) (c : α) : Prop :=
  Scalar.isInteger c = true → ∀ b i, power b (const i) ∈ f.factors →
    Scalar.isInteger i = true → Scalar.isInteger (i * c) = true

theorem powConst_of_beq_zero (f : Formula α) {e : α} (h : (e == 0) = true) :
    powConst f e = const 1 := by
  induction f, e using powConst_induction with
  | zero f e => rfl
  | one f e hzero | const f e hzero | product f e hzero | power b i e hzero | other f e hzero =>
    exact absurd h hzero

theorem powConst_of_beq_one (f : Formula α) {e : α} (hzero : ¬(e == 0) = true)
    (hone : (e == 1) = true) : powConst f e = f := by
  induction f, e using powConst_induction with
  | zero f e h => exact absurd h hzero
  | one f e => rfl
  | const f e _ h | product f e _ h | power b i e _ h | other f e _ h => exact absurd hone h

end Conditions

section Exact

variable [ExactScalar α] {f b : Formula α} {c i : α}

@[simp] theorem powConst_zero (f : Formula α) : powConst f (0 : α) = const 1 :=
  powConst_of_beq_zero f ((ExactScalar.beq_iff_eq _ _).mpr rfl)

@[simp] theorem powConst_one (f : Formula α) : powConst f (1 : α) = f :=
  powConst_of_beq_one f (by simp [ExactScalar.beq_iff_eq]) ((ExactScalar.beq_iff_eq _ _).mpr rfl)

/-! ## Small integers -/

/-- A part of a small integer exponent is small. -/
theorem isInteger_of_mul {j : α} (hj : Scalar.isInteger j = true) (hi : Scalar.isInteger i = true)
    (hc : Scalar.isInteger c = true) (hne : c ≠ 0) (h : Scalar.isInteger (j * (i * c)) = true) :
    Scalar.isInteger (j * i) = true := by
  obtain ⟨m, -, rfl⟩ := Scalar.isInteger_iff.mp hj
  obtain ⟨n, -, rfl⟩ := Scalar.isInteger_iff.mp hi
  obtain ⟨k, -, rfl⟩ := Scalar.isInteger_iff.mp hc
  obtain ⟨l, hl, heq⟩ := Scalar.isInteger_iff.mp h
  obtain rfl : m * (n * k) = l := by exact_mod_cast heq
  have hk : 1 ≤ |k| := Int.one_le_abs (by exact_mod_cast hne)
  refine Scalar.isInteger_iff.mpr ⟨m * n, ?_, by push_cast; rfl⟩
  calc |m * n| ≤ |m * n| * |k| := le_mul_of_one_le_right (abs_nonneg _) hk
    _ = |m * (n * k)| := by rw [← abs_mul, mul_assoc]
    _ < 10 ^ 15 := hl

theorem composes_one : Composes f (1 : α) := by
  intro _ b i _ hi
  rwa [mul_one]

/-- What composes with a product of exponents composes with the first one. -/
theorem Composes.of_mul (h : Composes f (i * c)) (hi : Scalar.isInteger i = true)
    (hc : Scalar.isInteger c = true) (hne : c ≠ 0) (hic : Scalar.isInteger (i * c) = true) :
    Composes f i :=
  fun _ b j hmem hj => isInteger_of_mul hj hi hc hne (h hic b j hmem hj)

/-! ## Powers of constants -/

/-- An integer power of a constant is its power in the field, unless zero is taken to a negative
one. -/
theorem powConst_const {v : α} {n : ℤ} (h : v ≠ 0 ∨ 0 ≤ n) :
    powConst (const v) (n : α) = const (v ^ n) := by
  by_cases hzero : n = 0
  · rw [hzero, Int.cast_zero, powConst_zero, zpow_zero]
  · by_cases hone : n = 1
    · rw [hone, Int.cast_one, powConst_one, zpow_one]
    · have hzero' : ¬((n : α) == 0) = true := by
        rw [ExactScalar.beq_iff_eq]
        exact_mod_cast hzero
      have hone' : ¬((n : α) == 1) = true := by
        rw [ExactScalar.beq_iff_eq]
        exact_mod_cast hone
      rw [powConst, if_neg hzero', if_neg hone', ExactScalar.pow_intCast v n h]

/-- Taking an integer power, other than the one at zero, as a map of the field. -/
def powerHom (n : ℤ) (hn : n ≠ 0) : α →*₀ α where
  toFun v := v ^ n
  map_zero' := zero_zpow n hn
  map_one' := one_zpow n
  map_mul' v w := mul_zpow v w n

/-! ## Powers of factors -/

/-- The kinds of factors of a normal formula: constants, what no rule for integer powers applies to,
and integer powers of that. -/
theorem factor_cases (h : f.IsNormal) (hproduct : ¬f.IsProduct) :
    (∃ v, f = const v) ∨ (f.const? = none ∧ f.Unmerged) ∨
      ∃ b i, f = power b (const i) ∧ Scalar.isInteger i = true ∧ i ≠ 0 ∧ i ≠ 1 ∧ b.IsNormal ∧
        b.const? = none ∧ b.Unmerged := by
  cases hvalue : f.const? with
  | some v => exact Or.inl ⟨v, eq_const_of_const?_eq_some hvalue⟩
  | none =>
    by_cases hpower : ∃ b i, f = power b (const i) ∧ Scalar.isInteger i = true
    · obtain ⟨b, i, rfl, hi⟩ := hpower
      obtain ⟨hshape, hb, -⟩ := isNormal_power_iff.mp h
      obtain ⟨hzero, hone⟩ := hshape.exponent_ne i rfl
      exact Or.inr (Or.inr ⟨b, i, rfl, hi, Scalar.beq_eq_false_iff_ne.mp hzero,
        Scalar.beq_eq_false_iff_ne.mp hone, hb, hshape.not_both_const.resolve_right (by simp),
        hshape.base_not_isProduct i rfl hi, hshape.base_not_integer_power i rfl hi⟩)
    · refine Or.inr (Or.inl ⟨rfl, hproduct, fun b i hf => ?_⟩)
      rw [← Bool.not_eq_true]
      exact fun hi => hpower ⟨b, i, hf, hi⟩

/-- What no rule applies to is put under its exponent. -/
theorem powConst_of_unmerged (hconst : f.const? = none) (hf : f.Unmerged) (hzero : c ≠ 0)
    (hone : c ≠ 1) : powConst f c = power f (const c) :=
  powConst_eq_power (by rwa [ExactScalar.beq_iff_eq]) (by rwa [ExactScalar.beq_iff_eq]) hconst
    fun _ => hf

/-- The power of an integer power has the product of the exponents. -/
theorem powConst_power (hconst : b.const? = none) (hb : b.Unmerged) (hzero : i ≠ 0) (hone : i ≠ 1)
    (hi : Scalar.isInteger i = true) (hc : Scalar.isInteger c = true) :
    powConst (power b (const i)) c = powConst b (i * c) := by
  by_cases hczero : c = 0
  · rw [hczero, mul_zero, powConst_zero, powConst_zero]
  · by_cases hcone : c = 1
    · rw [hcone, mul_one, powConst_one, powConst_of_unmerged hconst hb hzero hone]
    · rw [powConst, if_neg (by rwa [ExactScalar.beq_iff_eq]),
        if_neg (by rwa [ExactScalar.beq_iff_eq]), if_pos (by rw [hi, hc]; rfl)]

/-- Two integer powers of what no rule applies to. -/
theorem powConst_powConst_of_unmerged (hconst : b.const? = none) (hb : b.Unmerged)
    (hi : Scalar.isInteger i = true) (hc : Scalar.isInteger c = true) :
    powConst (powConst b i) c = powConst b (i * c) := by
  by_cases hzero : i = 0
  · obtain ⟨n, -, rfl⟩ := Scalar.isInteger_iff.mp hc
    rw [hzero, zero_mul, powConst_zero b, powConst_const (Or.inl one_ne_zero), one_zpow]
  · by_cases hone : i = 1
    · rw [hone, one_mul, powConst_one]
    · rw [powConst_of_unmerged hconst hb hzero hone, powConst_power hconst hb hzero hone hi hc]

/-! ## Powers of products -/

theorem productOf_map_powConst_zero (fs : List (Formula α)) :
    productOf (fs.map (powConst · (0 : α))) = const 1 := by
  have hones : openFactors (fs.map (powConst · (0 : α))) = [] ∧
      coefficient (fs.map (powConst · (0 : α))) = 1 := by
    induction fs with
    | nil => exact ⟨rfl, rfl⟩
    | cons f fs ih =>
      rw [List.map_cons, openFactors_cons, coefficient_cons, ih.1, ih.2, powConst_zero,
        openFactors_const, coefficient_const, one_mul]
      exact ⟨rfl, rfl⟩
  rw [productOf_eq, hones.1, hones.2, if_neg one_ne_zero, if_pos rfl, ofFactors]

/-- An integer power of a normal formula is the product of the powers of its factors. -/
theorem powConst_eq_productOf (h : f.IsNormal) (hc : Scalar.isInteger c = true) :
    powConst f c = productOf (f.factors.map (powConst · c)) := by
  cases f with
  | product fs =>
    rw [factors]
    by_cases hzero : c = 0
    · rw [hzero, powConst_zero, productOf_map_powConst_zero]
    · by_cases hone : c = 1
      · have hself : fs.map (powConst · (1 : α)) = fs := by simp
        rw [hone, powConst_one, hself]
        exact (productOf_factors h).symm
      · rw [powConst, if_neg (by rwa [ExactScalar.beq_iff_eq]),
          if_neg (by rwa [ExactScalar.beq_iff_eq]), if_pos hc, powEach_eq_map]
  | const v | symbol v | sum v | power v w | exponential v =>
    exact (productOf_singleton (isNormal_powConst c h)).symm

/-- An integer power goes through simplified products. -/
theorem powConst_productOf {fs : List (Formula α)} (hfs : ∀ f ∈ fs, f.IsNormal)
    (hc : Scalar.isInteger c = true) (hsafe : ZeroSafe (productOf fs) c) :
    powConst (productOf fs) c = productOf (fs.map (powConst · c)) := by
  by_cases hzero : c = 0
  · rw [hzero, powConst_zero, productOf_map_powConst_zero]
  · obtain ⟨n, -, rfl⟩ := Scalar.isInteger_iff.mp hc
    refine map_productOf (S := (powConst · (n : α))) (fun f hf => isNormal_powConst _ hf)
      (fun f hf => powConst_eq_productOf hf hc) (powerHom n (by exact_mod_cast hzero)) hfs
      fun v hv => ?_
    refine powConst_const ?_
    by_cases hvzero : v = 0
    · right
      exact_mod_cast hsafe (productOf_of_coefficient (hv hvzero))
    · exact Or.inl hvzero

/-! ## Powers of powers -/

/-- Two integer powers of a factor. -/
theorem powConst_powConst_factor (h : f.IsNormal) (hproduct : ¬f.IsProduct)
    (hi : Scalar.isInteger i = true) (hc : Scalar.isInteger c = true)
    (hic : Scalar.isInteger (i * c) = true)
    (hcomposes : ∀ b j, f = power b (const j) → Scalar.isInteger j = true →
      Scalar.isInteger (j * i) = true)
    (hsafe : ZeroSafe f i) (hsafe' : ZeroSafe (powConst f i) c) :
    powConst (powConst f i) c = powConst f (i * c) := by
  rcases factor_cases h hproduct with ⟨v, rfl⟩ | ⟨hconst, hunmerged⟩ |
    ⟨b, j, rfl, hj, hzero, hone, -, hbconst, hunmerged⟩
  · obtain ⟨m, -, rfl⟩ := Scalar.isInteger_iff.mp hi
    obtain ⟨n, -, rfl⟩ := Scalar.isInteger_iff.mp hc
    by_cases hv : v = 0
    · -- The powers of zero, which are zero except at the exponent zero.
      have hm : 0 ≤ m := by exact_mod_cast hsafe (congrArg const hv)
      rw [powConst_const (Or.inr hm)] at hsafe' ⊢
      by_cases hmzero : m = 0
      · rw [hmzero, zpow_zero, Int.cast_zero, zero_mul, powConst_zero,
          powConst_const (Or.inl one_ne_zero), one_zpow]
      · have hzero : v ^ m = 0 := by rw [hv, zero_zpow m hmzero]
        have hn : 0 ≤ n := by exact_mod_cast hsafe' (congrArg const hzero)
        rw [powConst_const (Or.inr hn), ← zpow_mul, ← Int.cast_mul,
          powConst_const (Or.inr (mul_nonneg hm hn))]
    · rw [powConst_const (Or.inl hv), powConst_const (Or.inl (zpow_ne_zero m hv)), ← zpow_mul,
        ← Int.cast_mul, powConst_const (Or.inl hv)]
  · exact powConst_powConst_of_unmerged hconst hunmerged hi hc
  · rw [powConst_power hbconst hunmerged hzero hone hj hi,
      powConst_powConst_of_unmerged hbconst hunmerged (hcomposes b j rfl hj) hc, mul_assoc,
      powConst_power hbconst hunmerged hzero hone hj hic]

/-- **Powers of powers.**  Two integer powers on top of each other are one, if the exponents that
are merged stay small integers and zero is not taken to a negative power. -/
theorem powConst_powConst (h : f.IsNormal) (hi : Scalar.isInteger i = true)
    (hc : Scalar.isInteger c = true) (hic : Scalar.isInteger (i * c) = true)
    (hcomposes : Composes f i) (hsafe : ZeroSafe f i) (hsafe' : ZeroSafe (powConst f i) c) :
    powConst (powConst f i) c = powConst f (i * c) := by
  have hfactors : ∀ g ∈ f.factors, g.IsNormal ∧ ¬g.IsProduct := fun g hg =>
    isNormal_of_mem_factors h hg
  have hpowers : ∀ g ∈ f.factors.map (powConst · i), g.IsNormal :=
    List.forall_mem_map.mpr fun g hg => isNormal_powConst i (hfactors g hg).1
  rw [powConst_eq_productOf h hi] at hsafe' ⊢
  rw [powConst_productOf hpowers hc hsafe', powConst_eq_productOf h hic, List.map_map]
  refine congrArg productOf (List.map_congr_left fun g hg => ?_)
  obtain ⟨hnormal, hproduct⟩ := hfactors g hg
  refine powConst_powConst_factor hnormal hproduct hi hc hic
    (fun b j hg' => hcomposes hi b j (hg' ▸ hg)) ?_ ?_
  · rintro rfl
    exact hsafe (eq_zero_of_mem_factors h hg)
  · intro hzero
    exact hsafe' (productOf_of_zero_mem (hzero ▸ List.mem_map_of_mem hg))

end Exact

end Formula

end SphereLab
