import Mathlib
import SphereLab.Proofs.Double.Reading

/-!
# Real numbers of doubles

A finite double stands for a real number, its sign times its mantissa times a power of two.
Negation and the absolute value of doubles are those of their real numbers, and so are the
comparisons.

* `realOf`: the real number of a double.
* `Dyadic.Canonical.value_lt_value`: canonical magnitudes are in the order of their exponents,
  and of their mantissas under one exponent.
* `compare_unpacked`: the comparison of finite doubles is that of their real numbers.
* `lt_iff_realOf_lt`, `beq_iff_realOf_eq`: the tests on doubles that follow from it.
-/

namespace SphereLab

open Float.Model

/-! ## Values -/

/-- What the numeral two rests on, named once for the halves and the powers of two in all
modules. -/
instance atLeastTwo_two : Nat.AtLeastTwo 2 := ⟨le_rfl⟩

/-- The real number of a magnitude. -/
noncomputable def Dyadic.value (d : Dyadic) : ℝ := d.mantissa * (2 : ℝ) ^ d.exponent

/-- The real number of a sign and a magnitude. -/
noncomputable def signedValue (negative : Bool) (d : Dyadic) : ℝ :=
  if negative then -d.value else d.value

/-- The real number of a double; zero, if it is not finite. -/
noncomputable def realOf (x : Float) : ℝ :=
  match Reading.ofFloat x with
  | .finite negative d => signedValue negative d
  | _ => 0

theorem realOf_of_ofFloat {x : Float} {negative : Bool} {d : Dyadic}
    (h : Reading.ofFloat x = .finite negative d) : realOf x = signedValue negative d := by
  rw [realOf, h]

theorem Dyadic.value_nonneg (d : Dyadic) : 0 ≤ d.value := by
  rw [Dyadic.value]
  positivity

theorem Dyadic.value_pos {d : Dyadic} (h : 0 < d.mantissa) : 0 < d.value := by
  have hcast : (0 : ℝ) < d.mantissa := by exact_mod_cast h
  rw [Dyadic.value]
  positivity

theorem Dyadic.value_of_mantissa_eq_zero {d : Dyadic} (h : d.mantissa = 0) : d.value = 0 := by
  rw [Dyadic.value, h, Nat.cast_zero, zero_mul]

/-- An integer power of a natural number as a quotient of natural numbers. -/
theorem natCast_zpow_eq_div {b : ℕ} (hb : 0 < b) (n : ℤ) :
    (b : ℝ) ^ n = (Nat.pow b n.toNat : ℕ) / (Nat.pow b (-n).toNat : ℕ) := by
  have hne : (b : ℝ) ≠ 0 := by exact_mod_cast Nat.pos_iff_ne_zero.mp hb
  have hexponent : n = (n.toNat : ℤ) - ((-n).toNat : ℤ) := by omega
  rw [Nat.pow_eq, Nat.pow_eq, Nat.cast_pow, Nat.cast_pow, ← zpow_natCast, ← zpow_natCast,
    ← zpow_sub₀ hne, ← hexponent]

/-- The value of a magnitude as a quotient of natural numbers. -/
theorem Dyadic.value_eq_div (d : Dyadic) : d.value = d.num / d.den := by
  have hpow := natCast_zpow_eq_div two_pos d.exponent
  rw [Nat.cast_ofNat] at hpow
  rw [Dyadic.value, hpow, Dyadic.num, Dyadic.den, Nat.cast_mul, mul_div_assoc]

/-- The quotient of a magnitude that is a natural number is that number. -/
theorem Dyadic.num_div_den_eq {d : Dyadic} {n : ℕ} (h : d.value = n) : d.num / d.den = n := by
  have hden : (d.den : ℝ) ≠ 0 := by exact_mod_cast d.den_pos.ne'
  rw [Dyadic.value_eq_div, div_eq_iff hden] at h
  rw [show d.num = n * d.den by exact_mod_cast h, Nat.mul_div_cancel _ d.den_pos]

theorem signedValue_not (negative : Bool) (d : Dyadic) :
    signedValue (!negative) d = -signedValue negative d := by
  cases negative with
  | true => simp [signedValue]
  | false => simp [signedValue]

theorem realOf_neg {x : Float} (h : x.isFinite = true) :
    realOf (-x) = -realOf x ∧ (-x).isFinite = true := by
  obtain ⟨negative, d, hx⟩ := Reading.isFinite_iff.mp h
  have hneg := Reading.ofFloat_neg hx
  rw [realOf_of_ofFloat hneg, realOf_of_ofFloat hx, signedValue_not]
  exact ⟨rfl, Reading.isFinite_iff.mpr ⟨_, _, hneg⟩⟩

theorem realOf_neg_one_mul {x : Float} (h : x.isFinite = true) :
    realOf (-1 * x) = -realOf x ∧ (-1 * x).isFinite = true := by
  obtain ⟨negative, d, hx⟩ := Reading.isFinite_iff.mp h
  have hneg := Reading.ofFloat_neg_one_mul hx
  rw [realOf_of_ofFloat hneg, realOf_of_ofFloat hx, signedValue_not]
  exact ⟨rfl, Reading.isFinite_iff.mpr ⟨_, _, hneg⟩⟩

theorem realOf_abs {x : Float} (h : x.isFinite = true) : realOf x.abs = |realOf x| := by
  obtain ⟨negative, d, hx⟩ := Reading.isFinite_iff.mp h
  rw [realOf_of_ofFloat (Reading.ofFloat_abs hx), realOf_of_ofFloat hx]
  have hnonneg := d.value_nonneg
  cases negative with
  | true =>
    simp only [signedValue, if_true, Bool.false_eq_true, if_false, abs_neg]
    exact (abs_of_nonneg hnonneg).symm
  | false =>
    simp only [signedValue, Bool.false_eq_true, if_false]
    exact (abs_of_nonneg hnonneg).symm

/-! ## The order of magnitudes -/

namespace Dyadic.Canonical

variable {d d' : Dyadic}

/-- A mantissa under a larger exponent has all its digits, so it counts for more. -/
theorem value_lt_value (h : d.Canonical) (h' : d'.Canonical)
    (hlt : d.exponent < d'.exponent ∨ d.exponent = d'.exponent ∧ d.mantissa < d'.mantissa) :
    d.value < d'.value := by
  rw [Dyadic.value, Dyadic.value]
  rcases hlt with hexponent | ⟨hexponent, hmantissa⟩
  · have hfull : 2 ^ 52 ≤ d'.mantissa := by
      have hle := h.le_exponent
      rcases h'.normal with hnormal | hnormal
      · exact hnormal
      · omega
    have hm : (d.mantissa : ℝ) < 2 ^ 53 := by exact_mod_cast h.mantissa_lt
    have hm' : (2 : ℝ) ^ 52 ≤ d'.mantissa := by exact_mod_cast hfull
    have hpow : (2 : ℝ) ^ (d.exponent + 1) ≤ (2 : ℝ) ^ d'.exponent :=
      zpow_le_zpow_right₀ (by norm_num) (by omega)
    have hpos : (0 : ℝ) < (2 : ℝ) ^ d.exponent := by positivity
    calc (d.mantissa : ℝ) * 2 ^ d.exponent < 2 ^ 53 * 2 ^ d.exponent :=
        mul_lt_mul_of_pos_right hm hpos
      _ = 2 ^ 52 * (2 : ℝ) ^ (d.exponent + 1) := by
        rw [zpow_add₀ (by norm_num : (2 : ℝ) ≠ 0)]
        ring
      _ ≤ 2 ^ 52 * (2 : ℝ) ^ d'.exponent := mul_le_mul_of_nonneg_left hpow (by norm_num)
      _ ≤ d'.mantissa * 2 ^ d'.exponent := mul_le_mul_of_nonneg_right hm' (by positivity)
  · have hm : (d.mantissa : ℝ) < d'.mantissa := by exact_mod_cast hmantissa
    rw [hexponent]
    exact mul_lt_mul_of_pos_right hm (by positivity)

/-- The comparison by exponents and mantissas is that of the values. -/
theorem compare_eq_cmp (h : d.Canonical) (h' : d'.Canonical) :
    (compare d.exponent d'.exponent).then (compare d.mantissa d'.mantissa) =
      cmp d.value d'.value := by
  rcases lt_trichotomy d.exponent d'.exponent with hlt | heq | hgt
  · rw [compare_lt_iff_lt.mpr hlt, (cmp_eq_lt_iff _ _).mpr (h.value_lt_value h' (Or.inl hlt))]
    rfl
  · rw [compare_eq_iff_eq.mpr heq]
    rcases lt_trichotomy d.mantissa d'.mantissa with hlt' | heq' | hgt'
    · rw [compare_lt_iff_lt.mpr hlt',
        (cmp_eq_lt_iff _ _).mpr (h.value_lt_value h' (Or.inr ⟨heq, hlt'⟩))]
      rfl
    · have hsame : d.value = d'.value := by rw [Dyadic.value, Dyadic.value, heq, heq']
      rw [compare_eq_iff_eq.mpr heq', (cmp_eq_eq_iff _ _).mpr hsame]
      rfl
    · rw [compare_gt_iff_gt.mpr hgt',
        (cmp_eq_gt_iff _ _).mpr (h'.value_lt_value h (Or.inr ⟨heq.symm, hgt'⟩))]
      rfl
  · rw [compare_gt_iff_gt.mpr hgt, (cmp_eq_gt_iff _ _).mpr (h'.value_lt_value h (Or.inl hgt))]
    rfl

end Dyadic.Canonical

/-! ## Comparisons of doubles -/

section Comparison

open UnpackedFloat (Sign)

variable {d d' : Dyadic}

theorem cmp_neg_neg (a b : ℝ) : cmp (-a) (-b) = cmp b a := by
  rcases lt_trichotomy a b with hlt | heq | hgt
  · rw [(cmp_eq_gt_iff _ _).mpr (neg_lt_neg hlt), (cmp_eq_gt_iff _ _).mpr hlt]
  · rw [heq, cmp_self_eq_eq, cmp_self_eq_eq]
  · rw [(cmp_eq_lt_iff _ _).mpr (neg_lt_neg hgt), (cmp_eq_lt_iff _ _).mpr hgt]

theorem signedValue_of_mantissa_eq_zero (h : d.mantissa = 0) (negative : Bool) :
    signedValue negative d = 0 := by
  rw [signedValue, Dyadic.value_of_mantissa_eq_zero h, neg_zero, ite_self]

/-- Two doubles that are not zero are compared like their values: first by their signs, then by
their magnitudes. -/
theorem compare_unpacked_of_pos (h : d.Canonical) (h' : d'.Canonical) (hpos : 0 < d.mantissa)
    (hpos' : 0 < d'.mantissa) (negative negative' : Bool) :
    (Reading.unpacked (.finite negative d)).compare (Reading.unpacked (.finite negative' d')) =
      some (cmp (signedValue negative d) (signedValue negative' d')) := by
  have hcompare := h.compare_eq_cmp h'
  have hvalue := Dyadic.value_pos hpos
  have hvalue' := Dyadic.value_pos hpos'
  rw [Reading.unpacked, Reading.unpacked, dif_pos hpos, dif_pos hpos']
  cases negative with
  | true =>
    cases negative' with
    | true =>
      have hswap : cmp (-d.value) (-d'.value) = (cmp d.value d'.value).swap := by
        rw [cmp_swap, cmp_neg_neg]
      rw [signedValue, signedValue, if_pos rfl, if_pos rfl, hswap, ← hcompare]
      rfl
    | false =>
      have hlt : -d.value < d'.value := by linarith
      rw [signedValue, signedValue, if_pos rfl, if_neg (by decide), (cmp_eq_lt_iff _ _).mpr hlt]
      rfl
  | false =>
    cases negative' with
    | true =>
      have hgt : -d'.value < d.value := by linarith
      rw [signedValue, signedValue, if_pos rfl, if_neg (by decide), (cmp_eq_gt_iff _ _).mpr hgt]
      rfl
    | false =>
      rw [signedValue, signedValue, if_neg (by decide), if_neg (by decide), ← hcompare]
      rfl

theorem compare_unpacked (h : d.Canonical) (h' : d'.Canonical) (negative negative' : Bool) :
    (Reading.unpacked (.finite negative d)).compare (Reading.unpacked (.finite negative' d')) =
      some (cmp (signedValue negative d) (signedValue negative' d')) := by
  rcases Nat.eq_zero_or_pos d.mantissa with hzero | hpos
  · have hnot : ¬0 < d.mantissa := by omega
    rw [signedValue_of_mantissa_eq_zero hzero, Reading.unpacked, Reading.unpacked, dif_neg hnot]
    rcases Nat.eq_zero_or_pos d'.mantissa with hzero' | hpos'
    · have hnot' : ¬0 < d'.mantissa := by omega
      rw [signedValue_of_mantissa_eq_zero hzero', dif_neg hnot', cmp_self_eq_eq]
      cases negative <;> cases negative' <;> rfl
    · have hvalue' := Dyadic.value_pos hpos'
      rw [dif_pos hpos']
      cases negative' with
      | true =>
        rw [signedValue, if_pos rfl, (cmp_eq_gt_iff _ _).mpr (by linarith)]
        cases negative <;> rfl
      | false =>
        rw [signedValue, if_neg (by decide), (cmp_eq_lt_iff _ _).mpr hvalue']
        cases negative <;> rfl
  · rcases Nat.eq_zero_or_pos d'.mantissa with hzero' | hpos'
    · have hnot' : ¬0 < d'.mantissa := by omega
      have hvalue := Dyadic.value_pos hpos
      rw [signedValue_of_mantissa_eq_zero hzero', Reading.unpacked, Reading.unpacked,
        dif_pos hpos, dif_neg hnot']
      cases negative with
      | true =>
        rw [signedValue, if_pos rfl, (cmp_eq_lt_iff _ _).mpr (by linarith)]
        cases negative' <;> rfl
      | false =>
        rw [signedValue, if_neg (by decide), (cmp_eq_gt_iff _ _).mpr hvalue]
        cases negative' <;> rfl
    · exact compare_unpacked_of_pos h h' hpos hpos' negative negative'

variable {x y : Float}

theorem compare_unpack (hx : x.isFinite = true) (hy : y.isFinite = true) :
    x.toModel.unpack.compare y.toModel.unpack = some (cmp (realOf x) (realOf y)) := by
  obtain ⟨negative, d, hread⟩ := Reading.isFinite_iff.mp hx
  obtain ⟨negative', d', hread'⟩ := Reading.isFinite_iff.mp hy
  rw [Reading.unpack_eq, Reading.unpack_eq, hread, hread', realOf_of_ofFloat hread,
    realOf_of_ofFloat hread']
  exact compare_unpacked (Reading.canonical_of_ofFloat hread)
    (Reading.canonical_of_ofFloat hread') _ _

theorem lt_iff_realOf_lt (hx : x.isFinite = true) (hy : y.isFinite = true) :
    x < y ↔ realOf x < realOf y := by
  have hlt : x < y ↔ (x.toModel.unpack.compare y.toModel.unpack == some .lt) = true :=
    decide_eq_true_iff
  rw [hlt, compare_unpack hx hy, beq_iff_eq, Option.some.injEq, cmp_eq_lt_iff]

theorem beq_iff_realOf_eq (hx : x.isFinite = true) (hy : y.isFinite = true) :
    (x == y) = true ↔ realOf x = realOf y := by
  have heq : (x == y) = (x.toModel.unpack.compare y.toModel.unpack == some .eq) := rfl
  rw [heq, compare_unpack hx hy, beq_iff_eq, Option.some.injEq, cmp_eq_eq_iff]

end Comparison

end SphereLab
