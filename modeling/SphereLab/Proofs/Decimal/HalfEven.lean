import Mathlib
import SphereLab.Decimal.Style
import SphereLab.Proofs.Decimal.Shortest

/-!
# Rounding to a decimal unit

A number is rounded half to even to a multiple of a unit.  The unit of a number of significant
digits is taken from the exponent of the number before it is rounded, and rounding may carry to the
next power of ten.  Then the unit of the rounded number is ten times as large, and the number rounds
to the same multiple of it.

* `IsNearestMultiple`: the multiple of a unit that a number is rounded to.
* `IsNearestMultiple.exponent_cases`: rounding to significant digits keeps the exponent, or carries
  to the next power of ten.
* `IsNearestMultiple.again`: the unit of the rounded number gives the same multiple.
* `Dyadic.isNearestMultiple_fixedDigits`, `Dyadic.significant_spec`: the digits of magnitudes.
-/

namespace SphereLab

/-! ## Multiples of a unit -/

/-- The multiple of a unit that is nearest to a number, an even one where two are. -/
def IsNearestMultiple (unit x w : ℝ) : Prop :=
  ∃ n : ℤ, w = n * unit ∧ ∀ m : ℤ, |x - w| ≤ |x - m * unit| ∧
    (|x - w| = |x - m * unit| → m = n ∨ Even n)

section Multiples

variable {unit unit' x w w' : ℝ}

/-- The nearest multiple is at most half a unit away, and even if it is half a unit away. -/
theorem isNearestMultiple_iff (hunit : 0 < unit) : IsNearestMultiple unit x w ↔
    ∃ n : ℤ, w = n * unit ∧ |x - w| ≤ unit / 2 ∧ (|x - w| = unit / 2 → Even n) := by
  have hshift : ∀ n m : ℤ, x - m * unit = x - n * unit + ((n - m : ℤ) : ℝ) * unit := by
    intro n m
    push_cast
    ring
  constructor
  · rintro ⟨n, rfl, hnearest⟩
    have hbelow := hnearest (n + 1)
    have habove := hnearest (n - 1)
    rw [hshift n (n + 1), show n - (n + 1) = -1 by ring] at hbelow
    rw [hshift n (n - 1), show n - (n - 1) = 1 by ring] at habove
    push_cast at hbelow habove
    generalize x - n * unit = t at hbelow habove ⊢
    refine ⟨n, rfl, abs_le.mpr ⟨?_, ?_⟩, fun htie => ?_⟩
    · have hsquares := sq_le_sq.mpr habove.1
      have hmul : -(unit / 2) * unit ≤ t * unit := by linarith
      exact le_of_mul_le_mul_right hmul hunit
    · have hsquares := sq_le_sq.mpr hbelow.1
      have hmul : t * unit ≤ unit / 2 * unit := by linarith
      exact le_of_mul_le_mul_right hmul hunit
    · -- Half a unit away, the neighbour on the other side is as near.
      have htie' := htie
      rw [abs_eq (by positivity)] at htie'
      rcases htie' with rfl | rfl
      · have hneighbour : unit / 2 + -1 * unit = -(unit / 2) := by ring
        rw [hneighbour, abs_neg] at hbelow
        exact (hbelow.2 rfl).resolve_left (by omega)
      · have hneighbour : -(unit / 2) + 1 * unit = unit / 2 := by ring
        rw [hneighbour, abs_neg] at habove
        exact (habove.2 rfl).resolve_left (by omega)
  · rintro ⟨n, rfl, hle, heven⟩
    refine ⟨n, rfl, fun m => ?_⟩
    rcases eq_or_ne m n with rfl | hne
    · exact ⟨le_rfl, fun _ => Or.inl rfl⟩
    · have hone : (1 : ℝ) ≤ |((n - m : ℤ) : ℝ)| := by
        exact_mod_cast Int.one_le_abs (sub_ne_zero.mpr hne.symm)
      have hfar : unit - |x - n * unit| ≤ |x - m * unit| := by
        have htriangle := abs_sub_abs_le_abs_add (((n - m : ℤ) : ℝ) * unit) (x - n * unit)
        rw [add_comm, ← hshift, abs_mul, abs_of_pos hunit] at htriangle
        have hmul := mul_le_mul_of_nonneg_right hone hunit.le
        linarith
      exact ⟨by linarith, fun heq => Or.inr (heven (by linarith))⟩

namespace IsNearestMultiple

/-- There is only one nearest multiple. -/
theorem unique (hunit : 0 < unit) (h : IsNearestMultiple unit x w)
    (h' : IsNearestMultiple unit x w') : w = w' := by
  obtain ⟨n, rfl, hn, hneven⟩ := (isNearestMultiple_iff hunit).mp h
  obtain ⟨m, rfl, hm, hmeven⟩ := (isNearestMultiple_iff hunit).mp h'
  by_contra hne
  have hnm : 1 ≤ |n - m| := by
    refine Int.one_le_abs (sub_ne_zero.mpr ?_)
    rintro rfl
    exact hne rfl
  have htriangle : |(n : ℝ) - m| * unit ≤ |x - n * unit| + |x - m * unit| := by
    have hsplit : ((n : ℝ) - m) * unit = (x - m * unit) - (x - n * unit) := by ring
    calc |(n : ℝ) - m| * unit = |((n : ℝ) - m) * unit| := by rw [abs_mul, abs_of_pos hunit]
      _ ≤ |x - n * unit| + |x - m * unit| := by
        rw [hsplit, add_comm]
        exact abs_sub _ _
  have hone : |n - m| ≤ 1 := by
    have hreal : |(n : ℝ) - m| ≤ 1 := le_of_mul_le_mul_right (by linarith) hunit
    exact_mod_cast hreal
  -- Two neighbours would both be half a unit away, and both even.
  have hreal : |(n : ℝ) - m| = 1 := by exact_mod_cast le_antisymm hone hnm
  rw [hreal, one_mul] at htriangle
  have heven := (hneven (by linarith)).sub (hmeven (by linarith))
  rw [← even_abs, le_antisymm hone hnm] at heven
  exact absurd heven (by decide)

theorem zero (hunit : 0 < unit) : IsNearestMultiple unit 0 0 := by
  refine (isNearestMultiple_iff hunit).mpr ⟨0, by simp, ?_, fun _ => Even.zero⟩
  rw [sub_zero, abs_zero]
  positivity

theorem neg (h : IsNearestMultiple unit x w) : IsNearestMultiple unit (-x) (-w) := by
  obtain ⟨n, rfl, hnearest⟩ := h
  refine ⟨-n, by rw [Int.cast_neg, neg_mul], fun m => ?_⟩
  have hdist : ∀ r, |-x - -r| = |x - r| := fun r => by rw [neg_sub_neg, abs_sub_comm]
  have hm := hnearest (-m)
  rw [Int.cast_neg, neg_mul, ← hdist (n * unit), ← hdist (-(m * unit)), neg_neg] at hm
  exact ⟨hm.1, fun heq => (hm.2 heq).imp (fun hmn => by rw [← hmn, neg_neg]) Even.neg⟩

/-- Rounding in another scale. -/
theorem mul_right {c : ℝ} (hc : 0 < c) (h : IsNearestMultiple unit x w) :
    IsNearestMultiple (unit * c) (x * c) (w * c) := by
  obtain ⟨n, hw, hnearest⟩ := h
  have hdist : ∀ r, |x * c - r * c| = |x - r| * c := fun r => by
    rw [← sub_mul, abs_mul, abs_of_pos hc]
  refine ⟨n, by rw [hw, mul_assoc], fun m => ?_⟩
  rw [← mul_assoc, hdist, hdist]
  exact ⟨mul_le_mul_of_nonneg_right (hnearest m).1 hc.le,
    fun heq => (hnearest m).2 (mul_right_cancel₀ hc.ne' heq)⟩

/-- A multiple that a larger unit has, too, is the nearest one of the larger unit. -/
theorem of_lt (hunit : 0 < unit) (h : IsNearestMultiple unit x w) (hlt : unit < unit') {n : ℤ}
    (hn : w = n * unit') : IsNearestMultiple unit' x w := by
  obtain ⟨-, -, hle, -⟩ := (isNearestMultiple_iff hunit).mp h
  refine (isNearestMultiple_iff (hunit.trans hlt)).mpr ⟨n, hn, by linarith, fun heq => ?_⟩
  linarith

/-- A number from a multiple on is not rounded to one below. -/
theorem le_of_le (hunit : 0 < unit) (h : IsNearestMultiple unit x w) {n : ℤ}
    (hn : n * unit ≤ x) : n * unit ≤ w := by
  obtain ⟨m, rfl, hle, -⟩ := (isNearestMultiple_iff hunit).mp h
  have hlt : (n : ℝ) * unit < (m + 1) * unit := by
    have hdist := (abs_le.mp hle).2
    linarith
  have hreal : (n : ℝ) < m + 1 := lt_of_mul_lt_mul_right hlt hunit.le
  have hint : n ≤ m := Int.lt_add_one_iff.mp (by exact_mod_cast hreal)
  exact mul_le_mul_of_nonneg_right (by exact_mod_cast hint) hunit.le

/-- A number up to a multiple is not rounded to one above. -/
theorem ge_of_ge (hunit : 0 < unit) (h : IsNearestMultiple unit x w) {n : ℤ}
    (hn : x ≤ n * unit) : w ≤ n * unit := by
  have hle := h.neg.le_of_le hunit (n := -n) (by push_cast; linarith)
  push_cast at hle
  linarith

end IsNearestMultiple

end Multiples

/-! ## Rounded quotients -/

/-- The real number of a decimal. -/
noncomputable def decimalValue (digits : ℕ) (exponent : ℤ) : ℝ := digits * 10 ^ exponent

theorem decimalValue_nonneg (digits : ℕ) (exponent : ℤ) : 0 ≤ decimalValue digits exponent := by
  rw [decimalValue]
  positivity

theorem decimalValue_zero (exponent : ℤ) : decimalValue 0 exponent = 0 := by
  rw [decimalValue, Nat.cast_zero, zero_mul]

theorem decimalValue_add (digits : ℕ) (e e' : ℤ) :
    decimalValue digits (e + e') = decimalValue digits e * 10 ^ e' := by
  rw [decimalValue, decimalValue, zpow_add₀ (by norm_num), mul_assoc]

/-- A rounded quotient is at most half a unit away, and even if it is half a unit away. -/
theorem roundHalfEven_spec (num : ℕ) {den : ℕ} (hden : 0 < den) :
    2 * (roundHalfEven num den * den) ≤ 2 * num + den ∧
      2 * num ≤ 2 * (roundHalfEven num den * den) + den ∧
      (2 * (roundHalfEven num den * den) = 2 * num + den ∨
        2 * num = 2 * (roundHalfEven num den * den) + den → roundHalfEven num den % 2 = 0) := by
  have hdiv := Nat.div_add_mod num den
  have hmod := Nat.mod_lt num hden
  rw [mul_comm den] at hdiv
  have hsucc : (num / den + 1) * den = num / den * den + den := Nat.succ_mul _ _
  rw [roundHalfEven]
  split
  · omega
  · split
    · omega
    · rcases Nat.mod_two_eq_zero_or_one (num / den) with heven | hodd
      · rw [heven, Nat.add_zero]
        omega
      · rw [hodd]
        omega

theorem isNearestMultiple_roundHalfEven (num : ℕ) {den : ℕ} (hden : 0 < den) :
    IsNearestMultiple 1 (num / den) (roundHalfEven num den) := by
  obtain ⟨hupper, hlower, heven⟩ := roundHalfEven_spec num hden
  generalize roundHalfEven num den = n at hupper hlower heven
  have hden' : (0 : ℝ) < den := by exact_mod_cast hden
  have hupper' : 2 * ((n : ℝ) * den) ≤ 2 * num + den := by exact_mod_cast hupper
  have hlower' : 2 * (num : ℝ) ≤ 2 * (n * den) + den := by exact_mod_cast hlower
  have hdist : |(num : ℝ) / den - n| = |(num : ℝ) - n * den| / den := by
    rw [← abs_of_pos hden', ← abs_div, abs_of_pos hden', sub_div,
      mul_div_cancel_right₀ _ hden'.ne']
  refine (isNearestMultiple_iff one_pos).mpr ⟨n, by simp, ?_, fun htie => ?_⟩
  · rw [hdist, div_le_iff₀ hden', abs_le]
    constructor
    · linarith
    · linarith
  · rw [hdist, div_eq_iff hden'.ne', abs_eq (by positivity)] at htie
    rw [Int.even_coe_nat, Nat.even_iff]
    refine heven ?_
    rcases htie with htie | htie
    · have hreal : 2 * (num : ℝ) = 2 * (n * den) + den := by linarith
      exact Or.inr (by exact_mod_cast hreal)
    · have hreal : 2 * ((n : ℝ) * den) = 2 * num + den := by linarith
      exact Or.inl (by exact_mod_cast hreal)

/-- A magnitude in units of a power of ten, rounded. -/
theorem Dyadic.isNearestMultiple_shiftDecimal (d : Dyadic) (shift : ℤ) :
    IsNearestMultiple (10 ^ (-shift)) d.value
      (roundHalfEven (shiftDecimal d.num d.den shift).1 (shiftDecimal d.num d.den shift).2 *
        10 ^ (-shift)) := by
  generalize hscale : shiftDecimal d.num d.den shift = scaled
  have hden : 0 < scaled.2 := by
    rw [← hscale]
    exact Nat.mul_pos d.den_pos (Nat.pow_pos (by decide))
  have hpow := natCast_zpow_eq_div (b := 10) (by decide) shift
  rw [Nat.cast_ofNat] at hpow
  have hscaled : (scaled.1 : ℝ) / scaled.2 = d.value * 10 ^ shift := by
    rw [hpow, Dyadic.value_eq_div, div_mul_div_comm, ← Nat.cast_mul, ← Nat.cast_mul, ← hscale,
      shiftDecimal]
  have hround := (isNearestMultiple_roundHalfEven scaled.1 hden).mul_right
    (c := (10 : ℝ) ^ (-shift)) (by positivity)
  rw [one_mul, hscaled, mul_assoc, ← zpow_add₀ (by norm_num), add_neg_cancel, zpow_zero,
    mul_one] at hround
  exact hround

/-- A magnitude with a set number of places, rounded. -/
theorem Dyadic.isNearestMultiple_fixedDigits (d : Dyadic) (places : ℕ) :
    IsNearestMultiple (10 ^ (-(places : ℤ))) d.value
      (decimalValue (fixedDigits places d.num d.den) (-(places : ℤ))) := by
  have hshift : shiftDecimal d.num d.den places = (d.num * Nat.pow 10 places, d.den) := by
    have hden : Nat.pow 10 (-(places : ℤ)).toNat = 1 := by
      rw [Int.toNat_of_nonpos (by omega), Nat.pow_eq, Nat.pow_zero]
    rw [shiftDecimal, Int.toNat_natCast, hden, Nat.mul_one]
  have hround := d.isNearestMultiple_shiftDecimal places
  rw [hshift] at hround
  exact hround

/-! ## Significant digits -/

theorem log_ten_eq {x : ℝ} {e : ℤ} (hlow : (10 : ℝ) ^ e ≤ x) (hhigh : x < 10 ^ (e + 1)) :
    Int.log 10 x = e := by
  have hpos : 0 < x := (zpow_pos (by norm_num) e).trans_le hlow
  refine le_antisymm (Int.lt_add_one_iff.mp ?_) ?_
  · exact (Int.lt_zpow_iff_log_lt (by norm_num) hpos).mp (by exact_mod_cast hhigh)
  · exact (Int.zpow_le_iff_le_log (by norm_num) hpos).mp (by exact_mod_cast hlow)

/-- The unit of the last of `count` significant digits. -/
noncomputable def digitUnit (count : ℕ) (x : ℝ) : ℝ := 10 ^ (Int.log 10 |x| + 1 - count)

theorem digitUnit_pos (count : ℕ) (x : ℝ) : 0 < digitUnit count x := zpow_pos (by norm_num) _

section SignificantDigits

variable {x w : ℝ} {count : ℕ}

/-- The power of ten below a number, and the next one, are multiples of its unit. -/
theorem ten_zpow_log_eq (hcount : 1 ≤ count) (x : ℝ) :
    ((10 ^ (count - 1) : ℕ) : ℤ) * digitUnit count x = 10 ^ Int.log 10 |x| ∧
      ((10 ^ count : ℕ) : ℤ) * digitUnit count x = 10 ^ (Int.log 10 |x| + 1) := by
  have hpow : ∀ k : ℕ, (((10 ^ k : ℕ) : ℤ) : ℝ) * digitUnit count x =
      10 ^ ((k : ℤ) + (Int.log 10 |x| + 1 - count)) := by
    intro k
    rw [zpow_add₀ (by norm_num), zpow_natCast, digitUnit]
    push_cast
    rfl
  constructor
  · rw [hpow]
    congr 1
    omega
  · rw [hpow]
    congr 1
    omega

namespace IsNearestMultiple

/-- Rounding to significant digits keeps the exponent, or carries to the next power of ten. -/
theorem exponent_cases (hcount : 1 ≤ count) (hx : 0 < x)
    (h : IsNearestMultiple (digitUnit count x) x w) :
    10 ^ Int.log 10 x ≤ w ∧ (w < 10 ^ (Int.log 10 x + 1) ∨ w = 10 ^ (Int.log 10 x + 1)) := by
  obtain ⟨hlow, hhigh⟩ := ten_zpow_log_eq hcount x
  rw [abs_of_pos hx] at hlow hhigh
  have hunit := digitUnit_pos count x
  have hmem : (10 : ℝ) ^ Int.log 10 x ≤ x := Int.zpow_log_le_self (b := 10) (by norm_num) hx
  have hmem' : x < (10 : ℝ) ^ (Int.log 10 x + 1) :=
    Int.lt_zpow_succ_log_self (b := 10) (by norm_num) x
  rw [← hlow] at hmem
  rw [← hhigh] at hmem'
  have hlow' := h.le_of_le hunit hmem
  have hhigh' := h.ge_of_ge hunit hmem'.le
  rw [hlow] at hlow'
  rw [hhigh] at hhigh'
  exact ⟨hlow', hhigh'.lt_or_eq⟩

/-- **Rounding again.**  A number rounded to significant digits is rounded to the same number if
the unit is taken from the exponent after rounding. -/
theorem again (hcount : 1 ≤ count) (hx : 0 ≤ x) (h : IsNearestMultiple (digitUnit count x) x w) :
    IsNearestMultiple (digitUnit count w) x w := by
  rcases hx.eq_or_lt with rfl | hx
  · obtain rfl := h.unique (digitUnit_pos count 0) (.zero (digitUnit_pos count 0))
    exact h
  obtain ⟨hlow, hhigh⟩ := h.exponent_cases hcount hx
  have hw : 0 < w := (zpow_pos (by norm_num) _).trans_le hlow
  rcases hhigh with hlt | hcarry
  · have hunit : digitUnit count w = digitUnit count x := by
      rw [digitUnit, digitUnit, abs_of_pos hw, abs_of_pos hx, log_ten_eq hlow hlt]
    rwa [hunit]
  · -- After a carry the unit is ten times as large, and the power of ten is a multiple of it.
    have hlog : Int.log 10 w = Int.log 10 x + 1 := by
      rw [hcarry]
      exact Int.log_zpow (b := 10) (by norm_num) _
    refine h.of_lt (digitUnit_pos count x) ?_ (n := ((10 ^ (count - 1) : ℕ) : ℤ)) ?_
    · rw [digitUnit, digitUnit, abs_of_pos hw, abs_of_pos hx, hlog]
      exact zpow_lt_zpow_right₀ (by norm_num) (by omega)
    · rw [(ten_zpow_log_eq hcount w).1, abs_of_pos hw, hlog, hcarry]

end IsNearestMultiple

end SignificantDigits

/-- The decimal that `count` significant digits stand for. -/
noncomputable def Significant.value (count : ℕ) (s : Significant) : ℝ :=
  decimalValue s.digits (s.exponent + 1 - count)

theorem Significant.value_nonneg (count : ℕ) (s : Significant) : 0 ≤ s.value count :=
  decimalValue_nonneg _ _

theorem Significant.value_zero (count : ℕ) : (⟨0, 0⟩ : Significant).value count = 0 :=
  decimalValue_zero _

namespace Dyadic

variable {d : Dyadic} {count : ℕ}

/-- The significant digits of a magnitude are those of the nearest multiple of their unit; the next
power of ten has an exponent of its own. -/
theorem exists_significant_eq (count : ℕ) (hpos : 0 < d.mantissa) :
    ∃ digits : ℕ, IsNearestMultiple (digitUnit count d.value) d.value
        (digits * digitUnit count d.value) ∧
      d.significant count = if digits = 10 ^ count then
        ⟨10 ^ (count - 1), Int.log 10 d.value + 1⟩ else ⟨digits, Int.log 10 d.value⟩ := by
  have hnum : 0 < d.num := Nat.mul_pos hpos (Nat.two_pow_pos _)
  obtain ⟨hlow, hhigh⟩ := decimalExponent_spec hnum d.den_pos
  rw [← d.value_eq_div] at hlow hhigh
  have hexponent := log_ten_eq hlow hhigh
  have hround := d.isNearestMultiple_shiftDecimal ((count : ℤ) - 1 - decimalExponent d.num d.den)
  have hunit : (10 : ℝ) ^ (-((count : ℤ) - 1 - decimalExponent d.num d.den)) =
      digitUnit count d.value := by
    rw [digitUnit, abs_of_pos (Dyadic.value_pos hpos), hexponent]
    congr 1
    omega
  rw [hunit] at hround
  refine ⟨_, hround, ?_⟩
  rw [Dyadic.significant, if_neg (by omega), hexponent]
  rfl

/-- The significant digits of a magnitude other than zero are as many as they are said to be. -/
theorem significant_spec_of_pos (hcount : 1 ≤ count) (hpos : 0 < d.mantissa) :
    10 ^ (count - 1) ≤ (d.significant count).digits ∧ (d.significant count).digits < 10 ^ count ∧
      IsNearestMultiple (digitUnit count d.value) d.value ((d.significant count).value count) ∧
      Int.log 10 ((d.significant count).value count) = (d.significant count).exponent := by
  have hvalue := Dyadic.value_pos hpos
  obtain ⟨digits, hround, heq⟩ := exists_significant_eq count hpos
  obtain ⟨hbelow, habove⟩ := ten_zpow_log_eq hcount d.value
  obtain ⟨hlow, hhigh⟩ := hround.exponent_cases hcount hvalue
  rw [abs_of_pos hvalue] at hbelow habove
  have hunit := digitUnit_pos count d.value
  rw [heq]
  split
  · rename_i hcarry
    have hnext : digits * digitUnit count d.value = 10 ^ (Int.log 10 d.value + 1) := by
      rw [← habove, hcarry]
      norm_cast
    have hdecimal : (⟨10 ^ (count - 1), Int.log 10 d.value + 1⟩ : Significant).value count =
        10 ^ (Int.log 10 d.value + 1) := by
      rw [Significant.value, decimalValue]
      dsimp only
      rw [Nat.cast_pow, Nat.cast_ofNat, ← zpow_natCast, ← zpow_add₀ (by norm_num)]
      congr 1
      omega
    rw [hnext] at hround
    rw [hdecimal]
    exact ⟨le_rfl, Nat.pow_lt_pow_right (by decide) (by omega), hround,
      Int.log_zpow (b := 10) (by norm_num) _⟩
  · rename_i hkeep
    have hdigits : 10 ^ (count - 1) ≤ digits := by
      rw [← hbelow] at hlow
      exact_mod_cast le_of_mul_le_mul_right hlow hunit
    have hne : digits * digitUnit count d.value ≠ 10 ^ (Int.log 10 d.value + 1) := by
      rw [← habove]
      intro h
      exact hkeep (by exact_mod_cast mul_right_cancel₀ hunit.ne' h)
    have hlt := hhigh.resolve_right hne
    have hdecimal : (⟨digits, Int.log 10 d.value⟩ : Significant).value count =
        digits * digitUnit count d.value := by
      rw [Significant.value, decimalValue, digitUnit, abs_of_pos hvalue]
    rw [hdecimal]
    refine ⟨hdigits, ?_, hround, log_ten_eq hlow hlt⟩
    rw [← habove] at hlt
    exact_mod_cast lt_of_mul_lt_mul_right hlt hunit.le

/-- The decimal of the significant digits of a magnitude is the magnitude rounded, and has the
exponent that it is written with. -/
theorem significant_spec (hcount : 1 ≤ count) (d : Dyadic) :
    IsNearestMultiple (digitUnit count d.value) d.value ((d.significant count).value count) ∧
      Int.log 10 ((d.significant count).value count) = (d.significant count).exponent := by
  rcases Nat.eq_zero_or_pos d.mantissa with hzero | hpos
  · rw [Dyadic.significant, if_pos hzero, Dyadic.value_of_mantissa_eq_zero hzero,
      Significant.value_zero]
    exact ⟨.zero (digitUnit_pos count 0), Int.log_zero_right 10⟩
  · exact (significant_spec_of_pos hcount hpos).2.2

end Dyadic

end SphereLab
