import Mathlib
import SphereLab.PairCorrelation.Fit
import SphereLab.Proofs.Double.Errors
import SphereLab.Proofs.Double.Infinite
import SphereLab.Proofs.PairCorrelation.WorstPoint
import SphereLab.Proofs.Scalar.Word

/-!
# Rounded parameters

The parameters of a fit are rounded to a number of decimals: they are multiplied by a scale, a
power of ten, rounded to a whole number and divided by the scale again.  The number of decimals is
taken as a signed number of thirty-two bits, so the largest ones are negative.

The scale is a positive double for up to 308 decimals on either side of the point.  Beyond, it is
infinite or zero, and nothing that is rounded is a number any more: a zero times an infinity and an
infinity over an infinity are none, and neither is a zero over a zero.  Within, the product with
the scale may still overflow, and if it does not, the rounded number is a whole number over the
scale, up to the rounding of that quotient.

* `isScale_of_le`, `isScale_of_ge`: the scale, by the number of decimals.
* `exists_int_rounded`: what is rounded with a scale, if the product does not overflow.
* `roundTo_isFinite_iff`, `roundTo_isNaN`: when the result is finite, and when it is no number.
* `rounded_parameters_finite_iff`: which rounded numbers and parameters of a fit are finite, and
  what they are.
-/

namespace SphereLab

/-- The double that a real is rounded to; an infinity, if the real is too large. -/
def IsRounded (x : Float) (r : ℝ) : Prop :=
  ∃ negative d, RoundsTo negative d r ∧ Reading.ofFloat x = Reading.ofRounded negative d

namespace Fit

open Ansatz LevenbergMarquardt

variable {v : Float} {digits : ℕ}

/-! ## Scales -/

/-- The number of decimals as a signed number of thirty-two bits. -/
def decimals (digits : ℕ) : ℤ := Int.bmod digits (2 ^ 32)

/-- The double that numbers are multiplied by before they are rounded. -/
def decimalScale (digits : ℕ) : Float := Scalar.powInt 10.0 (decimals digits)

theorem roundTo_of_decimals (v : Float) {e : ℤ} (h : Int.bmod digits (2 ^ 32) = e) :
    roundTo v digits = roundDouble (v * Scalar.powInt 10.0 e) / Scalar.powInt 10.0 e := by
  have hword : Int.bmod digits (Nat.pow 2 32) = e := h
  rw [roundTo, hword]
  rfl

theorem roundTo_eq (v : Float) (digits : ℕ) :
    roundTo v digits = roundDouble (v * decimalScale digits) / decimalScale digits :=
  roundTo_of_decimals v rfl

theorem decimals_of_lt (h : digits < 2 ^ 31) : decimals digits = digits :=
  (bmod_natCast_eq_iff digits).mpr h

theorem decimals_of_le (h : 2 ^ 31 ≤ digits) (hword : digits < 2 ^ 32) :
    decimals digits = -(2 ^ 32 - digits : ℕ) := bmod_natCast_of_le h hword

theorem decimalScale_of_lt (h : digits < 2 ^ 31) :
    decimalScale digits = Scalar.powLoop 1.0 10.0 digits := by
  have hscale : decimalScale digits = Scalar.powInt 10.0 (digits : ℤ) :=
    congrArg (Scalar.powInt 10.0) (decimals_of_lt h)
  rw [hscale, Scalar.powInt, if_neg (Int.natCast_nonneg _).not_gt, Int.natAbs_natCast]
  rfl

theorem decimalScale_of_le (h : 2 ^ 31 ≤ digits) (hword : digits < 2 ^ 32) :
    decimalScale digits = 1.0 / Scalar.powLoop 1.0 10.0 (2 ^ 32 - digits) := by
  have hscale : decimalScale digits = Scalar.powInt 10.0 (-(2 ^ 32 - digits : ℕ) : ℤ) :=
    congrArg (Scalar.powInt 10.0) (decimals_of_le h hword)
  rw [hscale, Scalar.powInt, if_pos (by omega), Int.natAbs_neg, Int.natAbs_natCast]
  rfl

/-! ## Powers of ten -/

theorem realOf_ten : realOf 10.0 = 10 ∧ (10.0 : Float).isFinite = true := by
  have hread : Reading.ofFloat 10.0 = .finite false ⟨5629499534213120, -49⟩ := by decide +kernel
  rw [realOf_of_ofFloat hread, signedValue, if_neg (by decide), Dyadic.value]
  exact ⟨by norm_num, by decide +kernel⟩

/-- The powers of ten up to the 308th do not overflow with their errors. -/
theorem power_lt_doubleBound {n : ℕ} (hn : n ≤ 308) :
    (10 : ℝ) ^ n * (1 + 2 ^ (-53 : ℤ)) ^ n < doubleBound := by
  have hpower : (10 : ℝ) ^ n ≤ (7 / 8 * 2 ^ 256) ^ 4 := by
    calc (10 : ℝ) ^ n ≤ 10 ^ (77 * 4) := pow_le_pow_right₀ (by norm_num) hn
      _ = (10 ^ 77) ^ 4 := pow_mul _ _ _
      _ ≤ (7 / 8 * 2 ^ 256) ^ 4 := pow_le_pow_left₀ (by positivity) (by norm_num) 4
  have herrors : (1 + 2 ^ (-53 : ℤ) : ℝ) ^ n ≤ 3 / 2 := by
    have hcast : (n : ℝ) ≤ 308 := by exact_mod_cast hn
    calc (1 + 2 ^ (-53 : ℤ) : ℝ) ^ n ≤ 1 + n * 2 ^ (-52 : ℤ) :=
          one_add_pow_le (hn.trans (by norm_num))
      _ ≤ 1 + 308 * 2 ^ (-52 : ℤ) :=
          add_le_add_right (mul_le_mul_of_nonneg_right hcast (by positivity)) 1
      _ ≤ 3 / 2 := by norm_num
  have hunit : (0 : ℝ) < (2 ^ 256) ^ 4 := by positivity
  have hscale : (2 : ℝ) ^ (53 : ℤ) * 2 ^ (971 : ℤ) = (2 ^ 256) ^ 4 := by
    rw [← zpow_add₀ two_ne_zero, ← pow_mul, ← zpow_natCast]
    rfl
  have hbound : doubleBound = (1 - 2 ^ (-54 : ℤ)) * (2 ^ 256) ^ 4 := by
    rw [← hscale, ← mul_assoc, doubleBound]
    norm_num
  calc (10 : ℝ) ^ n * (1 + 2 ^ (-53 : ℤ)) ^ n ≤ (7 / 8 * 2 ^ 256) ^ 4 * (3 / 2) :=
        mul_le_mul hpower herrors (by positivity) (by positivity)
    _ = 7203 / 8192 * (2 ^ 256) ^ 4 := by
        rw [mul_pow]
        ring
    _ < doubleBound := by
        rw [hbound]
        exact mul_lt_mul_of_pos_right (by norm_num) hunit

/-- The powers of ten that are doubles have at most one error for each factor. -/
theorem isWithin_power {n : ℕ} (hn : n ≤ 308) :
    IsWithin n (10 ^ n) (Scalar.powLoop 1.0 10.0 n) := by
  have hone : IsWithin 0 1 1.0 := .of_eq realOf_one.2 le_rfl realOf_one.1
  have hten : IsWithin 0 10 10.0 := .of_eq realOf_ten.2 (by norm_num) realOf_ten.1
  have hpower := isWithin_powLoop hone hten le_rfl (by norm_num) n
  rw [zero_add, zero_add, one_mul, one_mul] at hpower
  exact hpower (power_lt_doubleBound hn)

/-- The powers of ten beyond the largest double are infinite. -/
theorem infinite_power {n : ℕ} (hn : 308 < n) :
    Reading.ofFloat (Scalar.powLoop 1.0 10.0 n) = .infinite false := by
  have hnear : ∀ k < 33, Reading.ofFloat (Scalar.powLoop 1.0 10.0 (309 + k)) = .infinite false := by
    decide +kernel
  by_cases hlarge : n < 342
  · obtain ⟨k, rfl⟩ := Nat.exists_eq_add_of_lt hn
    rw [show 308 + k + 1 = 309 + k by omega]
    exact hnear k (by omega)
  · -- ten is at least the third power of two
    have hten : IsAtLeast 3 10.0 := Or.inr ⟨realOf_ten.2, by rw [realOf_ten.1]; norm_num⟩
    exact (isAtLeast_powLoop IsAtLeast.one hten n).eq_infinite (by omega)

/-- Up to the twenty-second, the powers of ten have all their digits. -/
theorem realOf_power {n : ℕ} (hn : n ≤ 22) :
    realOf (Scalar.powLoop 1.0 10.0 n) = 10 ^ n := by
  have hexact : ∀ k < 23, Reading.ofFloat (Scalar.powLoop 1.0 10.0 k) =
      .finite false ⟨5 ^ k * 2 ^ (52 - (5 ^ k).log2), k - (52 - (5 ^ k).log2 : ℕ)⟩ := by
    decide +kernel
  rw [realOf_of_ofFloat (hexact n (by omega)), signedValue, if_neg (by decide), Dyadic.value]
  generalize 52 - (5 ^ n).log2 = j
  show ((5 ^ n * 2 ^ j : ℕ) : ℝ) * 2 ^ ((n : ℤ) - j) = 10 ^ n
  rw [zpow_sub₀ two_ne_zero, zpow_natCast, zpow_natCast, Nat.cast_mul, Nat.cast_pow, Nat.cast_pow,
    Nat.cast_ofNat, Nat.cast_ofNat, mul_assoc, mul_div_cancel₀ _ (by positivity), ← mul_pow]
  norm_num

/-- A reciprocal of what is close to a large number is close to its reciprocal, also behind one more
rounding. -/
theorem abs_inverse_sub_le {p t s : ℝ} (ht : 1 ≤ t) (hp : |p - t| ≤ t * 2 ^ (-43 : ℤ))
    (hsmall : 2 ^ (-1075 : ℤ) ≤ t⁻¹ * 2 ^ (-51 : ℤ))
    (hs : |s - 1 / p| ≤ max (2 ^ (-53 : ℤ) * |1 / p|) (2 ^ (-1075 : ℤ))) :
    |s - t⁻¹| ≤ t⁻¹ * 2 ^ (-40 : ℤ) := by
  have htpos : 0 < t := one_pos.trans_le ht
  have hunit : (2 : ℝ) ^ (-43 : ℤ) ≤ 1 / 2 := by norm_num
  have hhalf : t / 2 ≤ p := by
    have hlow := (abs_le.mp hp).1
    have hpart : t * 2 ^ (-43 : ℤ) ≤ t * (1 / 2) := mul_le_mul_of_nonneg_left hunit htpos.le
    generalize (2 : ℝ) ^ (-43 : ℤ) = u at hlow hpart
    linarith
  have hppos : 0 < p := (half_pos htpos).trans_le hhalf
  have hinverse : 1 / p ≤ 2 * t⁻¹ := by
    rw [← div_eq_mul_inv, div_le_div_iff₀ hppos htpos]
    linarith
  have hdistance : |1 / p - t⁻¹| ≤ t⁻¹ * 2 ^ (-42 : ℤ) := by
    have hquotient : 1 / p - t⁻¹ = (t - p) * t⁻¹ * (1 / p) := by
      field_simp
    rw [hquotient, abs_mul, abs_mul, abs_of_pos (inv_pos.mpr htpos),
      abs_of_pos (one_div_pos.mpr hppos), abs_sub_comm]
    calc |p - t| * t⁻¹ * (1 / p) ≤ t * 2 ^ (-43 : ℤ) * t⁻¹ * (2 * t⁻¹) := by
          gcongr
      _ = t⁻¹ * 2 ^ (-42 : ℤ) := by
          rw [mul_right_comm t, mul_inv_cancel₀ htpos.ne', one_mul]
          norm_num
          ring
  have hrounding : max (2 ^ (-53 : ℤ) * |1 / p|) (2 ^ (-1075 : ℤ)) ≤ t⁻¹ * 2 ^ (-51 : ℤ) := by
    refine max_le ?_ hsmall
    rw [abs_of_pos (one_div_pos.mpr hppos)]
    calc 2 ^ (-53 : ℤ) * (1 / p) ≤ 2 ^ (-53 : ℤ) * (2 * t⁻¹) :=
          mul_le_mul_of_nonneg_left hinverse (by positivity)
      _ ≤ t⁻¹ * 2 ^ (-51 : ℤ) := by
          rw [mul_left_comm, ← mul_assoc, mul_comm]
          exact mul_le_mul_of_nonneg_left (by norm_num) (inv_nonneg.mpr htpos.le)
  calc |s - t⁻¹| = |(s - 1 / p) + (1 / p - t⁻¹)| := by rw [sub_add_sub_cancel]
    _ ≤ |s - 1 / p| + |1 / p - t⁻¹| := abs_add_le _ _
    _ ≤ t⁻¹ * 2 ^ (-51 : ℤ) + t⁻¹ * 2 ^ (-42 : ℤ) :=
        add_le_add (hs.trans hrounding) hdistance
    _ = t⁻¹ * (2 ^ (-51 : ℤ) + 2 ^ (-42 : ℤ)) := by rw [mul_add]
    _ ≤ t⁻¹ * 2 ^ (-40 : ℤ) :=
        mul_le_mul_of_nonneg_left (by norm_num) (inv_nonneg.mpr htpos.le)

/-- A scale that is a positive double, close to a power of ten. -/
structure IsScale (s : Float) (e : ℤ) : Prop where
  isFinite : s.isFinite = true
  pos : 0 < realOf s
  close : |realOf s - 10 ^ e| ≤ 10 ^ e * 2 ^ (-40 : ℤ)

theorem isScale_of_close {s : Float} {e : ℤ} (hs : s.isFinite = true)
    (hclose : |realOf s - 10 ^ e| ≤ 10 ^ e * 2 ^ (-40 : ℤ)) : IsScale s e := by
  refine ⟨hs, ?_, hclose⟩
  have hpower : (0 : ℝ) < 10 ^ e := by positivity
  have hpart : (10 : ℝ) ^ e * 2 ^ (-40 : ℤ) < 10 ^ e * 1 :=
    mul_lt_mul_of_pos_left (by norm_num) hpower
  linarith [(abs_le.mp hclose).1]

theorem abs_power_sub_le {n : ℕ} (hn : n ≤ 308) :
    |realOf (Scalar.powLoop 1.0 10.0 n) - 10 ^ n| ≤ 10 ^ n * 2 ^ (-43 : ℤ) := by
  refine ((isWithin_power hn).abs_sub_le (by positivity) (hn.trans (by norm_num))).trans ?_
  refine mul_le_mul_of_nonneg_left ?_ (by positivity)
  have hcast : (n : ℝ) ≤ 308 := by exact_mod_cast hn
  calc (n : ℝ) * 2 ^ (-52 : ℤ) ≤ 308 * 2 ^ (-52 : ℤ) :=
        mul_le_mul_of_nonneg_right hcast (by positivity)
    _ ≤ 2 ^ (-43 : ℤ) := by norm_num

/-- Up to 308 decimals behind the point the scale is a double that is at least one. -/
theorem isScale_of_le (h : digits ≤ 308) :
    IsScale (decimalScale digits) (decimals digits) ∧ 1 ≤ realOf (decimalScale digits) := by
  have hwithin := isWithin_power h
  rw [decimalScale_of_lt (by omega)]
  refine ⟨isScale_of_close hwithin.isFinite ?_, hwithin.one_le⟩
  rw [decimals_of_lt (by omega), zpow_natCast]
  refine (abs_power_sub_le h).trans (mul_le_mul_of_nonneg_left ?_ (by positivity))
  norm_num

/-- Up to 308 decimals before the point the scale is a double that is at most one. -/
theorem isScale_of_ge (h : 2 ^ 32 - 308 ≤ digits) (hword : digits < 2 ^ 32) :
    IsScale (decimalScale digits) (decimals digits) ∧ realOf (decimalScale digits) ≤ 1 := by
  obtain ⟨k, hk⟩ : ∃ k, k = 2 ^ 32 - digits := ⟨_, rfl⟩
  have hsmall : k ≤ 308 := by omega
  have hwithin := isWithin_power hsmall
  have hone : realOf (1.0 : Float) = 1 := realOf_one.1
  have hpos : 0 < realOf (Scalar.powLoop 1.0 10.0 k) := one_pos.trans_le hwithin.one_le
  obtain ⟨negative, d, hrounds, hread⟩ :=
    exists_roundsTo_div realOf_one.2 hwithin.isFinite hpos.ne'
  have hfinite := isFinite_div_of_one_le realOf_one.2 hwithin.isFinite hwithin.one_le
  have herror := hrounds.abs_sub_le
  rw [← realOf_of_ofRounded hread hfinite, hone] at herror
  have htiny : (2 : ℝ) ^ (-1075 : ℤ) ≤ (10 ^ k)⁻¹ * 2 ^ (-51 : ℤ) := by
    have hpower : (10 : ℝ) ^ k ≤ (2 ^ 256) ^ 4 := by
      calc (10 : ℝ) ^ k ≤ 10 ^ (77 * 4) := pow_le_pow_right₀ (by norm_num) hsmall
        _ = (10 ^ 77) ^ 4 := pow_mul _ _ _
        _ ≤ (2 ^ 256) ^ 4 := pow_le_pow_left₀ (by positivity) (by norm_num) 4
    have hscale : ((2 : ℝ) ^ 256) ^ 4 = 2 ^ (1024 : ℤ) := by
      rw [← pow_mul, ← zpow_natCast]
      rfl
    calc (2 : ℝ) ^ (-1075 : ℤ) = (2 ^ (1024 : ℤ))⁻¹ * 2 ^ (-51 : ℤ) := by
          rw [← zpow_neg, ← zpow_add₀ two_ne_zero]
          rfl
      _ ≤ (10 ^ k)⁻¹ * 2 ^ (-51 : ℤ) := by
          rw [← hscale]
          exact mul_le_mul_of_nonneg_right
            (inv_anti₀ (by positivity) hpower) (by positivity)
  have hclose := abs_inverse_sub_le (one_le_pow₀ (by norm_num)) (abs_power_sub_le hsmall) htiny
    herror
  have hexponent : (10 : ℝ) ^ decimals digits = (10 ^ k)⁻¹ := by
    rw [decimals_of_le (by omega) hword, ← hk, zpow_neg, zpow_natCast]
  rw [decimalScale_of_le (by omega) hword, ← hk]
  refine ⟨isScale_of_close hfinite (by rwa [hexponent]), ?_⟩
  have hten : (10 ^ k : ℝ)⁻¹ ≤ 10⁻¹ := by
    refine inv_anti₀ (by norm_num) (le_self_pow₀ (by norm_num) ?_)
    omega
  have hpart : (10 ^ k : ℝ)⁻¹ * 2 ^ (-40 : ℤ) ≤ 10⁻¹ * 2 ^ (-40 : ℤ) :=
    mul_le_mul_of_nonneg_right hten (by positivity)
  have hsum : (10 : ℝ)⁻¹ + 10⁻¹ * 2 ^ (-40 : ℤ) ≤ 1 := by norm_num
  linarith [(abs_le.mp hclose).2]

/-! ## Rounding with a scale -/

/-- What is rounded with a positive scale is a whole number over the scale, up to the rounding of
the quotient, if the product does not overflow. -/
theorem exists_int_rounded {s : Float} (hv : v.isFinite = true) (hs : s.isFinite = true)
    (hpos : 0 < realOf s) (hproduct : (v * s).isFinite = true) :
    ∃ n : ℤ, |n / realOf s - realOf v| ≤ 1 / (2 * realOf s) + 2 ^ (-53 : ℤ) * |realOf v| ∧
      IsRounded (roundDouble (v * s) / s) (n / realOf s) := by
  obtain ⟨negative, d, hrounds, hread⟩ := exists_roundsTo_mul hv hs
  have herror := hrounds.abs_sub_le
  rw [← realOf_of_ofRounded hread hproduct] at herror
  obtain ⟨n, hround, hfinite, hhalf⟩ := exists_int_roundDouble hproduct
  obtain ⟨negative', d', hrounds', hread'⟩ := exists_roundsTo_div hfinite hs hpos.ne'
  rw [hround] at hrounds'
  refine ⟨n, ?_, negative', d', hrounds', hread'⟩
  have hdistance : |(n : ℝ) - realOf v * realOf s| ≤
      1 / 2 + 2 ^ (-53 : ℤ) * |realOf v * realOf s| := by
    rcases le_total (2 ^ (-1075 : ℤ)) (2 ^ (-53 : ℤ) * |realOf v * realOf s|) with hlarge | hsmall
    · rw [max_eq_left hlarge] at herror
      calc |(n : ℝ) - realOf v * realOf s| = |(n : ℝ) - realOf (v * s) +
            (realOf (v * s) - realOf v * realOf s)| := by rw [sub_add_sub_cancel]
        _ ≤ 1 / 2 + 2 ^ (-53 : ℤ) * |realOf v * realOf s| :=
            (abs_add_le _ _).trans (add_le_add hhalf herror)
    · -- A product without all its digits is far below a half and is rounded to zero.
      rw [max_eq_right hsmall] at herror
      have htiny : (2 : ℝ) ^ (-1075 : ℤ) ≤ 2 ^ (-53 : ℤ) * (1 / 8) := by
        calc (2 : ℝ) ^ (-1075 : ℤ) ≤ 2 ^ (-56 : ℤ) := zpow_le_zpow_right₀ one_le_two (by norm_num)
          _ = 2 ^ (-53 : ℤ) * (1 / 8) := by norm_num
      have hless : |realOf v * realOf s| ≤ 1 / 8 :=
        le_of_mul_le_mul_left (hsmall.trans htiny) (by positivity)
      have herror' : |realOf (v * s) - realOf v * realOf s| ≤ 1 / 8 :=
        herror.trans (htiny.trans (by norm_num))
      have hsum : |(n : ℝ)| < 1 := by
        calc |(n : ℝ)| = |(n - realOf (v * s)) + (realOf (v * s) - realOf v * realOf s) +
              realOf v * realOf s| := by ring_nf
          _ ≤ |n - realOf (v * s)| + |realOf (v * s) - realOf v * realOf s| +
              |realOf v * realOf s| :=
            (abs_add_le _ _).trans (add_le_add_left (abs_add_le _ _) _)
          _ < 1 := by linarith
      obtain rfl : n = 0 := Int.abs_lt_one_iff.mp (by exact_mod_cast hsum)
      rw [Int.cast_zero, zero_sub, abs_neg]
      exact (hless.trans (by norm_num)).trans (le_add_of_nonneg_right (by positivity))
  have hquotient : (n : ℝ) / realOf s - realOf v = (n - realOf v * realOf s) / realOf s := by
    rw [sub_div, mul_div_cancel_right₀ _ hpos.ne']
  rw [hquotient, abs_div, abs_of_pos hpos, div_le_iff₀ hpos]
  refine hdistance.trans_eq ?_
  rw [abs_mul, abs_of_pos hpos, add_mul]
  field_simp

/-- What is rounded with a scale of at least one is finite exactly if the product with the scale
does not overflow. -/
theorem isFinite_rounded_iff {s : Float} (hv : v.isFinite = true) (hs : s.isFinite = true)
    (hone : 1 ≤ realOf s) :
    (roundDouble (v * s) / s).isFinite = true ↔ |realOf v * realOf s| < doubleBound := by
  obtain ⟨negative, d, hrounds, hread⟩ := exists_roundsTo_mul hv hs
  rw [← isFinite_iff_of_roundsTo hrounds hread]
  constructor
  · intro hfinite
    by_contra hproduct
    obtain ⟨c, hreads, hpos⟩ := IsAtLeast.exists_reading hs (one_pos.trans_le hone)
    rw [Reading.ofRounded] at hread
    split at hread
    · exact hproduct (Reading.isFinite_iff.mpr ⟨negative, d, hread⟩)
    · rw [roundDouble_of_not_isFinite hproduct] at hfinite
      obtain ⟨_, _, hquotient⟩ := Reading.isFinite_iff.mp hfinite
      rw [Reading.ofFloat_infinite_div hread hreads hpos] at hquotient
      exact absurd hquotient (by simp)
  · intro hproduct
    obtain ⟨n, -, hfinite, -⟩ := exists_int_roundDouble hproduct
    exact isFinite_div_of_one_le hfinite hs hone

/-- A zero or an infinity as scale leaves no number. -/
theorem roundTo_isNaN (hv : v.isFinite = true) (hlow : 308 < digits)
    (hhigh : digits < 2 ^ 32 - 308) : (roundTo v digits).isNaN = true := by
  obtain ⟨negative, d, hread⟩ := Reading.isFinite_iff.mp hv
  rw [Reading.isNaN_iff, roundTo_eq]
  rcases Nat.lt_or_ge digits (2 ^ 31) with hword | hword
  · -- an infinity or no number over an infinity
    have hscale : Reading.ofFloat (decimalScale digits) = .infinite false := by
      rw [decimalScale_of_lt hword]
      exact infinite_power hlow
    have hmul := Reading.ofFloat_mul_infinite hread hscale
    have hround : roundDouble (v * decimalScale digits) = v * decimalScale digits := by
      refine roundDouble_of_not_isFinite fun hfinite => ?_
      obtain ⟨_, _, hproduct⟩ := Reading.isFinite_iff.mp hfinite
      rw [hmul] at hproduct
      split at hproduct <;> exact absurd hproduct (by simp)
    rw [hround]
    split at hmul
    · exact Reading.ofFloat_infinite_div_infinite hmul hscale
    · exact Reading.ofFloat_nan_div hmul
  · -- a zero over a zero
    have hscale : Reading.ofFloat (decimalScale digits) = .finite false ⟨0, -1074⟩ := by
      rw [decimalScale_of_le hword (by omega)]
      exact Reading.ofFloat_div_infinite ofFloat_one (infinite_power (by omega))
    have hfinite : (decimalScale digits).isFinite = true := Reading.isFinite_iff.mpr ⟨_, _, hscale⟩
    have hzero : realOf (decimalScale digits) = 0 := by
      rw [realOf_of_ofFloat hscale, signedValue_of_mantissa_eq_zero rfl]
    obtain ⟨negative', d', hrounds, hmul⟩ := exists_roundsTo_mul hv hfinite
    rw [hzero, mul_zero] at hrounds
    have hmantissa : d'.mantissa = 0 := by
      by_contra hne
      have hlarge := hrounds.toRounds.mantissa_pos_iff.mp (Nat.pos_of_ne_zero hne)
      rw [abs_zero] at hlarge
      exact absurd hlarge (not_lt.mpr (by positivity))
    have hproduct : Reading.ofFloat (v * decimalScale digits) = .finite negative' d' := by
      have hexponent := hrounds.normal
      rw [hmul, Reading.ofRounded, if_pos (by omega)]
    exact Reading.ofFloat_zero_div_zero (ofFloat_roundDouble_zero hproduct hmantissa) rfl hscale rfl

/-- What is rounded to at most 308 decimals is finite exactly if the product with the scale does not
overflow. -/
theorem roundTo_isFinite_iff (hv : v.isFinite = true) (h : digits ≤ 308) :
    (roundTo v digits).isFinite = true ↔
      |realOf v * realOf (decimalScale digits)| < doubleBound := by
  obtain ⟨hscale, hone⟩ := isScale_of_le h
  rw [roundTo_eq]
  exact isFinite_rounded_iff hv hscale.isFinite hone

/-- A number rounded to decimals is a whole number over the scale, up to the rounding of the
quotient: one that is within a half of the number times the scale, up to the rounding of that
product. -/
def IsRoundedAt (v : Float) (digits : ℕ) : Prop :=
  ∃ n : ℤ, |n / realOf (decimalScale digits) - realOf v| ≤
      1 / (2 * realOf (decimalScale digits)) + 2 ^ (-53 : ℤ) * |realOf v| ∧
    IsRounded (roundTo v digits) (n / realOf (decimalScale digits))

/-- Decimals before the point are never too many for the product. -/
theorem isRoundedAt_of_ge (hv : v.isFinite = true) (h : 2 ^ 32 - 308 ≤ digits)
    (hword : digits < 2 ^ 32) : IsRoundedAt v digits := by
  obtain ⟨hscale, hle⟩ := isScale_of_ge h hword
  obtain ⟨negative, d, hrounds, hread⟩ := exists_roundsTo_mul hv hscale.isFinite
  refine exists_int_rounded hv hscale.isFinite hscale.pos ?_
  rw [isFinite_iff_of_roundsTo hrounds hread, abs_mul, abs_of_pos hscale.pos]
  exact (mul_le_of_le_one_right (abs_nonneg _) hle).trans_lt (abs_realOf_lt hv)

/-- What is rounded to a finite number is rounded at its decimals. -/
theorem isRoundedAt_of_isFinite (hv : v.isFinite = true) (hword : digits < 2 ^ 32)
    (hfinite : (roundTo v digits).isFinite = true) : IsRoundedAt v digits := by
  rcases Nat.lt_or_ge digits (2 ^ 32 - 308) with hlow | hhigh
  · rcases Nat.lt_or_ge 308 digits with hnan | hle
    · -- what is no number is not finite
      obtain ⟨negative, d, hread⟩ := Reading.isFinite_iff.mp hfinite
      have hno := Reading.isNaN_iff.mp (roundTo_isNaN hv hnan hlow)
      exact absurd (hread.symm.trans hno) (by simp)
    · obtain ⟨hscale, -⟩ := isScale_of_le hle
      obtain ⟨negative, d, hrounds, hread⟩ := exists_roundsTo_mul hv hscale.isFinite
      refine exists_int_rounded hv hscale.isFinite hscale.pos ?_
      rw [isFinite_iff_of_roundsTo hrounds hread]
      exact (roundTo_isFinite_iff hv hle).mp hfinite
  · exact isRoundedAt_of_ge hv hhigh hword

/-! ## Parameters of a fit -/

/-- The parameters of a fit are those of its search, rounded. -/
theorem params_of_run {solve : List (List Float) → List Float → Option (List Float)}
    {model : Program Float} {sets : List (DataSet Float)} {options : Options Float}
    {fit : Fit Float} (h : run solve model sets options = .ok fit) :
    fit.params = fit.unrounded.map (roundTo · options.digits) := by
  obtain ⟨squares, report, -, -, rfl⟩ := exists_report_of_run h
  rfl

/-- **Which rounded parameters are finite.**  A finite double rounded to at most 308 decimals is
finite exactly if the product with the scale does not overflow.  Rounded to more decimals it is no
number, up to the 308 largest numbers of thirty-two bits, which count as negative and never give
what is no number.  Whatever is finite is a whole number over the scale, nearest to the double up to
the rounding of the product, and rounded once more; and the scale is the power of ten, exactly up to
22 decimals and closely wherever it is finite and not zero.  So the parameters of a fit whose search
has found finite ones are all finite if no product overflows, and none of them is a number if the
decimals are too many. -/
theorem rounded_parameters_finite_iff {digits : ℕ} (hword : digits < 2 ^ 32) :
    (∀ v : Float, v.isFinite = true →
      (digits ≤ 308 → ((roundTo v digits).isFinite = true ↔
        |realOf v * realOf (decimalScale digits)| < doubleBound)) ∧
      (308 < digits → digits < 2 ^ 32 - 308 → (roundTo v digits).isNaN = true) ∧
      (2 ^ 32 - 308 ≤ digits → ¬(roundTo v digits).isNaN = true) ∧
      ((roundTo v digits).isFinite = true → IsRoundedAt v digits)) ∧
    (digits ≤ 308 ∨ 2 ^ 32 - 308 ≤ digits → IsScale (decimalScale digits) (decimals digits)) ∧
    (digits ≤ 22 → realOf (decimalScale digits) = 10 ^ digits) ∧
    ∀ (solve : List (List Float) → List Float → Option (List Float)) (model : Program Float)
      (sets : List (DataSet Float)) (options : Options Float) (fit : Fit Float),
      options.digits = digits → run solve model sets options = .ok fit →
        (∀ u ∈ fit.unrounded, u.isFinite = true) →
          (digits ≤ 308 → ((∀ p ∈ fit.params, p.isFinite = true) ↔
            ∀ u ∈ fit.unrounded, |realOf u * realOf (decimalScale digits)| < doubleBound)) ∧
          (308 < digits → digits < 2 ^ 32 - 308 → ∀ p ∈ fit.params, p.isNaN = true) := by
  refine ⟨fun v hv => ⟨roundTo_isFinite_iff hv, roundTo_isNaN hv, fun hhigh => ?_,
    isRoundedAt_of_isFinite hv hword⟩, ?_, fun hle => ?_,
    fun solve model sets options fit hdigits hrun hfinite => ?_⟩
  · obtain ⟨n, -, negative, d, -, hread⟩ := isRoundedAt_of_ge hv hhigh hword
    rw [Reading.isNaN_iff, hread, Reading.ofRounded]
    split
    · exact fun h => absurd h (by simp)
    · exact fun h => absurd h (by simp)
  · rintro (hle | hhigh)
    · exact (isScale_of_le hle).1
    · exact (isScale_of_ge hhigh hword).1
  · rw [decimalScale_of_lt (by omega)]
    exact realOf_power hle
  · rw [params_of_run hrun, hdigits, List.forall_mem_map, List.forall_mem_map]
    exact ⟨fun hle => forall₂_congr fun u hu => roundTo_isFinite_iff (hfinite u hu) hle,
      fun hlow hhigh u hu => roundTo_isNaN (hfinite u hu) hlow hhigh⟩

/-- One is rounded to three decimals and is no number at four hundred, and so are the parameters of
a fit. -/
theorem rounded_parameters_finite_iff_one :
    (roundTo 1.0 3).isFinite = true ∧ IsRoundedAt 1.0 3 ∧
      IsScale (decimalScale 3) (decimals 3) ∧ realOf (decimalScale 3) = 10 ^ 3 ∧
      (roundTo 1.0 400).isNaN = true ∧ ¬(roundTo 1.0 (2 ^ 32 - 1)).isNaN = true ∧
      ∃ model fit, compileModel (.symbol "g_sigma") = .ok model ∧
        run solveLinear model tied { Options.standard with digits := 400 } = .ok fit ∧
        fit.params.length = parameterCount ∧ ∀ p ∈ fit.params, p.isNaN = true := by
  have hone : (1.0 : Float).isFinite = true := realOf_one.2
  have hword : 3 < 2 ^ 32 ∧ 400 < 2 ^ 32 ∧ 2 ^ 32 - 1 < 2 ^ 32 := by norm_num
  obtain ⟨hround, hscale, hexact, -⟩ := rounded_parameters_finite_iff hword.1
  obtain ⟨hnan, -, -, hfit⟩ := rounded_parameters_finite_iff hword.2.1
  obtain ⟨hlast, -⟩ := rounded_parameters_finite_iff hword.2.2
  have hthree : (roundTo 1.0 3).isFinite = true := by
    rw [(hround 1.0 hone).1 (by norm_num), hexact (by norm_num), realOf_one.1]
    have hunit : (1 : ℝ) ≤ 2 ^ (971 : ℤ) := one_le_zpow₀ one_le_two (by norm_num)
    rw [doubleBound]
    calc |(1 : ℝ) * 10 ^ 3| < (2 ^ 53 - 1 / 2) * 1 := by norm_num
      _ ≤ (2 ^ 53 - 1 / 2) * 2 ^ (971 : ℤ) := mul_le_mul_of_nonneg_left hunit (by norm_num)
  have hmodel : compileModel (α := Float) (.symbol "g_sigma") = .ok ⟨19, .argument 17⟩ := rfl
  have hcheck : (run solveLinear ⟨19, .argument 17⟩ tied
      { Options.standard with digits := 400 }).toOption.any (fun fit =>
        fit.unrounded.length == parameterCount && fit.unrounded.all Float.isFinite) = true := by
    decide +kernel
  refine ⟨hthree, (hround 1.0 hone).2.2.2 hthree, hscale (by norm_num), hexact (by norm_num),
    (hnan 1.0 hone).2.1 (by norm_num) (by norm_num), (hlast 1.0 hone).2.2.1 (by norm_num), ?_⟩
  cases hrun : run solveLinear ⟨19, .argument 17⟩ tied { Options.standard with digits := 400 } with
  | error fault => exact absurd hcheck (by simp [hrun, Except.toOption])
  | ok fit =>
    rw [hrun] at hcheck
    simp only [Except.toOption, Option.any_some, Bool.and_eq_true, beq_iff_eq] at hcheck
    have hall := List.all_eq_true.mp hcheck.2
    refine ⟨_, fit, hmodel, hrun, ?_, ?_⟩
    · rw [params_of_run hrun, List.length_map]
      exact hcheck.1
    · exact (hfit _ _ _ _ fit rfl hrun hall).2 (by norm_num) (by norm_num)

end Fit

end SphereLab
