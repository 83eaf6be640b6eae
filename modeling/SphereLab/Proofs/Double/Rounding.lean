import Mathlib
import SphereLab.Proofs.Double.Nearest

/-!
# Rounded results

The operations on doubles compute their results exactly, up to two bits that say where the rest
lies, and then round.  So a result is the nearest double to the exact one, infinity where that is
out of range, and zero where it is too small.

* `Describes`: what the two bits behind a mantissa say.
* `Dyadic.Rounds`: a magnitude, of whatever size, to which a real is rounded.
* `exists_rounds_roundWithAccuracy`, `exists_rounds_round`: rounding finds such a magnitude.
* `ofFloat_pack_of_normalised`: packing turns magnitudes that are out of range into infinities.
* `exists_roundsTo_sub`, `exists_roundsTo_mul`, `exists_roundsTo_div`: differences, products and
  quotients of doubles are rounded.
-/

namespace SphereLab

open Float.Model UnpackedFloat

/-! ## Two bits behind a mantissa -/

/-- The round bit and the sticky bit of what is left of a real after a mantissa. -/
def Residue : Bool → Bool → ℝ → Prop
  | false, false, rest => rest = 0
  | false, true, rest => 0 < rest ∧ rest < 1 / 2
  | true, false, rest => rest = 1 / 2
  | true, true, rest => 1 / 2 < rest ∧ rest < 1

/-- A mantissa and the two bits behind it are those of a real. -/
def Describes (em : ExtendedMantissa) (x : ℝ) : Prop :=
  Residue em.roundBit em.stickyBit (x - em.mantissa)

namespace Describes

variable {em : ExtendedMantissa} {x : ℝ}

theorem mantissa_le (h : Describes em x) : (em.mantissa : ℝ) ≤ x ∧ x < em.mantissa + 1 := by
  rw [Describes] at h
  cases hround : em.roundBit <;> cases hsticky : em.stickyBit <;>
    rw [hround, hsticky] at h <;> simp only [Residue] at h <;> constructor <;> linarith

/-- Shifting a mantissa keeps the bits right. -/
theorem shiftRightOne (h : Describes em x) : Describes em.shiftRightOne (x / 2) := by
  obtain ⟨m, round, sticky⟩ := em
  obtain ⟨q, hq⟩ : ∃ q, m = 2 * q ∨ m = 2 * q + 1 := ⟨m / 2, by omega⟩
  rw [Describes] at h ⊢
  rcases hq with rfl | rfl
  · have hdiv : 2 * q / 2 = q := by omega
    have hmod : 2 * q % 2 = 0 := by omega
    simp only [ExtendedMantissa.shiftRightOne, hdiv, hmod]
    push_cast at h
    cases round <;> cases sticky <;> simp [Residue] at h ⊢ <;>
      first | linarith | constructor <;> linarith
  · have hdiv : (2 * q + 1) / 2 = q := by omega
    have hmod : (2 * q + 1) % 2 = 1 := by omega
    simp only [ExtendedMantissa.shiftRightOne, hdiv, hmod]
    push_cast at h
    cases round <;> cases sticky <;> simp [Residue] at h ⊢ <;>
      first | linarith | constructor <;> linarith

theorem shiftRight (h : Describes em x) (k : ℕ) : Describes (em >>> k) (x / 2 ^ k) := by
  induction k with
  | zero =>
    rw [pow_zero, div_one]
    exact h
  | succ k ih =>
    have hstep : em >>> (k + 1) = (em >>> k).shiftRightOne := rfl
    rw [hstep, pow_succ, ← div_div]
    exact ih.shiftRightOne

/-- The rounded mantissa is within half a unit, and even if it is half a unit away. -/
theorem abs_sub_le (h : Describes em x) :
    |x - em.roundedMantissa| < 1 / 2 ∨
      em.roundedMantissa % 2 = 0 ∧ |x - em.roundedMantissa| ≤ 1 / 2 := by
  obtain ⟨m, round, sticky⟩ := em
  rw [Describes] at h
  cases round <;> cases sticky
  · left
    have hrounded : (ExtendedMantissa.mk m false false).roundedMantissa = m := rfl
    simp only [Residue] at h
    rw [hrounded, h]
    norm_num
  · left
    have hrounded : (ExtendedMantissa.mk m false true).roundedMantissa = m := rfl
    simp only [Residue] at h
    rw [hrounded, abs_lt]
    constructor <;> linarith
  · right
    have hrounded : (ExtendedMantissa.mk m true false).roundedMantissa = m + m % 2 := rfl
    simp only [Residue] at h
    rw [hrounded]
    refine ⟨by omega, ?_⟩
    rcases Nat.mod_two_eq_zero_or_one m with heven | hodd
    · rw [heven, Nat.add_zero, h]
      norm_num
    · rw [hodd, abs_le]
      push_cast
      constructor <;> linarith
  · left
    have hrounded : (ExtendedMantissa.mk m true true).roundedMantissa = m + 1 := rfl
    simp only [Residue] at h
    rw [hrounded, abs_lt]
    push_cast
    constructor <;> linarith

end Describes

/-! ## Magnitudes of any size -/

/-- A magnitude with all its digits, or with the least exponent.  Unlike a canonical one it may be
out of the range of the doubles. -/
structure Dyadic.Normalised (d : Dyadic) : Prop where
  mantissa_lt : d.mantissa < 2 ^ 53
  le_exponent : -1074 ≤ d.exponent
  normal : 2 ^ 52 ≤ d.mantissa ∨ d.exponent = -1074

/-- A magnitude is the rounded one of a real. -/
structure Dyadic.Rounds (d : Dyadic) (x : ℝ) : Prop extends d.Normalised where
  near : d.Near x

theorem Dyadic.Canonical.normalised {d : Dyadic} (h : d.Canonical) : d.Normalised :=
  ⟨h.mantissa_lt, h.le_exponent, h.normal⟩

/-- A canonical magnitude is its own rounded one. -/
theorem Dyadic.Canonical.rounds {d : Dyadic} (h : d.Canonical) : d.Rounds d.value :=
  ⟨h.normalised, d.near_value⟩

/-! ## Rounding -/

section Shift

theorem targetExponent_eq (m : ℕ) (e : ℤ) :
    Format.binary64.targetExponent (totalExponent m e) = max ((m.log2 : ℤ) + 1 + e - 53) (-1074) :=
  rfl

/-- A mantissa that fits, at an exponent that is large enough, stays as it is. -/
theorem shiftToTargetExponent_of_lt {m : ℕ} {e : ℤ} (hm : m < 2 ^ 53) (he : -1074 ≤ e) :
    shiftToTargetExponent .binary64 m e .exact = (⟨m, false, false⟩, e) := by
  have hlog : m.log2 ≤ 52 := by
    rcases Nat.eq_zero_or_pos m with rfl | hpos
    · decide
    · have hlt : m.log2 < 53 := (Nat.log2_lt (by omega)).mpr hm
      omega
  have htarget := targetExponent_eq m e
  have hshift : (Format.binary64.targetExponent (totalExponent m e) - e).toNat = 0 := by omega
  rw [shiftToTargetExponent, shiftToExponent, hshift]
  exact Prod.ext rfl (by simp)

/-- A mantissa that rounding has carried to one more digit is shifted back. -/
theorem shiftToTargetExponent_carry {e : ℤ} (he : -1074 ≤ e) :
    shiftToTargetExponent .binary64 (2 ^ 53) e .exact = (⟨2 ^ 52, false, false⟩, e + 1) := by
  have htarget := targetExponent_eq (2 ^ 53) e
  rw [Nat.log2_two_pow] at htarget
  have hshift : (Format.binary64.targetExponent (totalExponent (2 ^ 53) e) - e).toNat = 1 := by
    omega
  rw [shiftToTargetExponent, shiftToExponent, hshift]
  exact Prod.ext rfl rfl

end Shift

/-- What is rounded at a last place, with all its digits unless that is the least, is near the
rounded magnitude. -/
theorem Dyadic.near_of_abs_sub_le {n : ℕ} {q : ℤ} {y : ℝ}
    (hdist : |y - n| < 1 / 2 ∨ n % 2 = 0 ∧ |y - n| ≤ 1 / 2)
    (hlow : -1074 < q → 2 ^ 52 ≤ y) : (⟨n, q⟩ : Dyadic).Near (y * 2 ^ q) := by
  have hunit : (0 : ℝ) < 2 ^ q := by positivity
  have hlower : (⟨n, q⟩ : Dyadic).lowerEnd =
      (if n = 2 ^ 52 ∧ -1074 < q then (n : ℝ) - 1 / 4 else n - 1 / 2) * 2 ^ q := rfl
  have hupper : (⟨n, q⟩ : Dyadic).upperEnd = ((n : ℝ) + 1 / 2) * 2 ^ q := rfl
  rw [Dyadic.Near, hlower, hupper]
  dsimp only
  by_cases hpower : n = 2 ^ 52 ∧ -1074 < q
  · have hy := hlow hpower.2
    have hn : (n : ℝ) = 2 ^ 52 := by rw [hpower.1]; norm_num
    have heven : n % 2 = 0 := by omega
    rw [if_pos hpower, if_pos heven, mul_le_mul_iff_left₀ hunit, mul_le_mul_iff_left₀ hunit]
    have habs : |y - n| ≤ 1 / 2 := by
      rcases hdist with h | ⟨_, h⟩
      · exact h.le
      · exact h
    rw [abs_le] at habs
    constructor <;> linarith
  · rw [if_neg hpower]
    split
    · rw [mul_le_mul_iff_left₀ hunit, mul_le_mul_iff_left₀ hunit]
      have habs : |y - n| ≤ 1 / 2 := by
        rcases hdist with h | ⟨_, h⟩
        · exact h.le
        · exact h
      rw [abs_le] at habs
      constructor <;> linarith
    · rename_i hodd
      rw [mul_lt_mul_iff_left₀ hunit, mul_lt_mul_iff_left₀ hunit]
      rcases hdist with h | ⟨heven, _⟩
      · rw [abs_lt] at h
        constructor <;> linarith
      · exact absurd heven hodd

/-- The bounds of a real with a mantissa and two bits behind it, after the shift to the place that
rounding aims at. -/
theorem Describes.shifted_bounds {m : ℕ} {e : ℤ} {acc : Accuracy} {x : ℝ}
    (hx : Describes (.ofMantissaAndAccuracy m acc) x) (hfull : 2 ^ 52 ≤ m ∨ e ≤ -1074) {q : ℤ}
    (hq : q = max ((m.log2 : ℤ) + 1 + e - 53) (-1074)) {k : ℕ} (hk : k = (q - e).toNat) :
    e + k = q ∧ 0 ≤ x / 2 ^ k ∧ x / 2 ^ k < 2 ^ 53 ∧ (-1074 < q → 2 ^ 52 ≤ x / 2 ^ k) := by
  have hmantissa : (ExtendedMantissa.ofMantissaAndAccuracy m acc).mantissa = m := by
    cases acc with
    | exact => rfl
    | inexact order => cases order <;> rfl
  have hbounds := hx.mantissa_le
  rw [hmantissa] at hbounds
  have hunit : (0 : ℝ) < 2 ^ k := by positivity
  have hlog : 2 ^ 52 ≤ m → 52 ≤ m.log2 := fun h => (Nat.le_log2 (by omega)).mpr h
  have hm : (0 : ℝ) ≤ m := Nat.cast_nonneg m
  refine ⟨by omega, by apply div_nonneg <;> linarith, ?_, fun hlarge => ?_⟩
  · rw [div_lt_iff₀ hunit, ← pow_add]
    have hnat : m + 1 ≤ 2 ^ (m.log2 + 1) := Nat.lt_log2_self
    have hreal : (m : ℝ) + 1 ≤ 2 ^ (m.log2 + 1) := by exact_mod_cast hnat
    have hpow : (2 : ℝ) ^ (m.log2 + 1) ≤ 2 ^ (53 + k) :=
      pow_le_pow_right₀ one_le_two (by omega)
    linarith
  · rw [le_div_iff₀ hunit, ← pow_add]
    have hdigits : m.log2 = 52 + k := by omega
    have hne : m ≠ 0 := by
      rintro rfl
      exact absurd hdigits (by rw [Nat.log2_zero]; omega)
    have hreal : (2 : ℝ) ^ m.log2 ≤ m := by exact_mod_cast Nat.log2_self_le hne
    rw [← hdigits]
    linarith

/-- Rounding finds the rounded magnitude of whatever has enough digits. -/
theorem exists_rounds_roundWithAccuracy {m : ℕ} {e : ℤ} {acc : Accuracy} {x : ℝ}
    (hx : Describes (.ofMantissaAndAccuracy m acc) x) (hfull : 2 ^ 52 ≤ m ∨ e ≤ -1074)
    (negative : Bool) :
    ∃ d : Dyadic, d.Rounds (x * 2 ^ e) ∧
      roundWithAccuracy .binary64 (Reading.sign negative) m e acc =
        Reading.unpacked (.finite negative d) := by
  obtain ⟨q, hq⟩ : ∃ q, q = max ((m.log2 : ℤ) + 1 + e - 53) (-1074) := ⟨_, rfl⟩
  obtain ⟨k, hk⟩ : ∃ k, k = (q - e).toNat := ⟨_, rfl⟩
  obtain ⟨hexponent, hnonneg, hlt, hlow⟩ := hx.shifted_bounds hfull hq hk
  have hvalue : x / 2 ^ k * 2 ^ q = x * 2 ^ e := by
    rw [← hexponent, zpow_add₀ two_ne_zero, zpow_natCast]
    field_simp
  have hdist := (hx.shiftRight k).abs_sub_le
  have hfirst : shiftToTargetExponent .binary64 m e acc =
      (ExtendedMantissa.ofMantissaAndAccuracy m acc >>> k, q) := by
    rw [shiftToTargetExponent, targetExponent_eq, ← hq, shiftToExponent, ← hk]
    exact Prod.ext rfl hexponent
  generalize (ExtendedMantissa.ofMantissaAndAccuracy m acc >>> k) = em at hdist hfirst
  generalize x / 2 ^ k = y at hnonneg hlt hlow hvalue hdist
  have hmin : -1074 ≤ q := by omega
  have habs : |y - em.roundedMantissa| ≤ 1 / 2 := by
    rcases hdist with h | ⟨_, h⟩
    · exact h.le
    · exact h
  rw [abs_le] at habs
  have hcarry : em.roundedMantissa ≤ 2 ^ 53 := by
    have hreal : (em.roundedMantissa : ℝ) < (2 ^ 53 + 1 : ℕ) := by
      push_cast
      linarith
    have hnat : em.roundedMantissa < 2 ^ 53 + 1 := by exact_mod_cast hreal
    omega
  have hfull' : -1074 < q → 2 ^ 52 ≤ em.roundedMantissa := by
    intro hlarge
    have hy := hlow hlarge
    have hreal : ((2 ^ 52 : ℕ) : ℝ) < (em.roundedMantissa + 1 : ℕ) := by
      push_cast
      linarith
    have hnat : 2 ^ 52 < em.roundedMantissa + 1 := by exact_mod_cast hreal
    omega
  rw [roundWithAccuracy, hfirst]
  dsimp only
  rcases Nat.lt_or_eq_of_le hcarry with hfits | hover
  · refine ⟨⟨em.roundedMantissa, q⟩, ⟨⟨hfits, hmin, ?_⟩, ?_⟩, ?_⟩
    · dsimp only
      omega
    · rw [← hvalue]
      exact Dyadic.near_of_abs_sub_le hdist hlow
    · rw [shiftToTargetExponent_of_lt hfits hmin, Reading.unpacked]
      dsimp only
      split
      · rename_i hzero
        rw [dif_neg (by omega)]
      · rename_i hne
        rw [dif_pos (by omega)]
  · -- The carried mantissa is a power of two, and half a unit below it rounds to it as well.
    refine ⟨⟨2 ^ 52, q + 1⟩, ⟨⟨by norm_num, by dsimp only; omega, Or.inl le_rfl⟩, ?_⟩, ?_⟩
    · have hdouble : (2 : ℝ) ^ (q + 1) = 2 * 2 ^ q := by
        rw [zpow_add₀ two_ne_zero, zpow_one, mul_comm]
      have hunit : (0 : ℝ) < 2 ^ q := by positivity
      rw [hover] at habs
      push_cast at habs
      rw [← hvalue, Dyadic.Near, Dyadic.lowerEnd, Dyadic.upperEnd, if_pos (by norm_num),
        if_pos ⟨rfl, by dsimp only; omega⟩]
      dsimp only
      rw [hdouble]
      push_cast
      constructor <;> nlinarith
    · rw [hover, shiftToTargetExponent_carry hmin, Reading.unpacked]
      dsimp only
      rw [dif_neg (by norm_num), dif_pos (by norm_num)]

/-- Rounding an exact magnitude. -/
theorem exists_rounds_round {m : ℕ} (hm : 0 < m) (e : ℤ) (negative : Bool) :
    ∃ d : Dyadic, d.Rounds (m * 2 ^ e) ∧
      UnpackedFloat.round .binary64 (Reading.sign negative) m e =
        Reading.unpacked (.finite negative d) := by
  obtain ⟨q, hq⟩ : ∃ q, q = max ((m.log2 : ℤ) + 1 + e - 53) (-1074) := ⟨_, rfl⟩
  obtain ⟨k, hk⟩ : ∃ k, k = (e - q).toNat := ⟨_, rfl⟩
  have hexact : Describes (.ofMantissaAndAccuracy (m * 2 ^ k) .exact) (m * 2 ^ k : ℕ) :=
    sub_self _
  have hfull : 2 ^ 52 ≤ m * 2 ^ k ∨ e - k ≤ -1074 := by
    by_cases hleast : e - k ≤ -1074
    · exact Or.inr hleast
    · left
      have hne : m * 2 ^ k ≠ 0 := Nat.mul_ne_zero (by omega) (by positivity)
      rw [← Nat.le_log2 hne, Reading.log2_mul_two_pow (by omega)]
      omega
  obtain ⟨d, hd, hround⟩ := exists_rounds_roundWithAccuracy hexact hfull negative
  refine ⟨d, ?_, ?_⟩
  · have hvalue : ((m * 2 ^ k : ℕ) : ℝ) * 2 ^ (e - k) = m * 2 ^ e := by
      rw [zpow_sub₀ two_ne_zero, zpow_natCast]
      push_cast
      field_simp
    rwa [hvalue] at hd
  · rw [UnpackedFloat.round, targetExponent_eq, ← hq, decreaseExponent, ← hk, Nat.shiftLeft_eq]
    exact hround

/-- A sign and a magnitude are the rounded ones of a real.  A zero may have either sign. -/
structure RoundsTo (negative : Bool) (d : Dyadic) (r : ℝ) : Prop extends d.Rounds |r| where
  pos : 0 < r → negative = false
  neg : r < 0 → negative = true

/-- A rounded magnitude with a sign. -/
theorem Dyadic.Rounds.roundsTo {d : Dyadic} {x : ℝ} (h : d.Rounds x) (hx : 0 ≤ x)
    (negative : Bool) : RoundsTo negative d (if negative = true then -x else x) := by
  split
  · rename_i hnegative
    refine ⟨?_, fun hpos => absurd hpos (by linarith), fun _ => hnegative⟩
    rwa [abs_neg, abs_of_nonneg hx]
  · rename_i hpositive
    refine ⟨?_, fun _ => Bool.not_eq_true _ ▸ hpositive, fun hneg => absurd hneg (by linarith)⟩
    rwa [abs_of_nonneg hx]

/-- What is rounded to a zero. -/
theorem roundsTo_zero (negative : Bool) : RoundsTo negative ⟨0, -1074⟩ 0 := by
  refine ⟨⟨⟨by norm_num, le_rfl, Or.inr rfl⟩, ?_⟩, fun h => absurd h (lt_irrefl 0),
    fun h => absurd h (lt_irrefl 0)⟩
  rw [abs_zero]
  have hnear := Dyadic.near_value ⟨0, -1074⟩
  rwa [Dyadic.value_of_mantissa_eq_zero rfl] at hnear

/-- A canonical number is its own rounded one. -/
theorem roundsTo_signedValue {d : Dyadic} (hd : d.Canonical) (negative : Bool) :
    RoundsTo negative d (signedValue negative d) := by
  have hnonneg := d.value_nonneg
  refine ⟨?_, ?_, ?_⟩
  · have habs : |signedValue negative d| = d.value := by
      rw [signedValue]
      split
      · rw [abs_neg, abs_of_nonneg hnonneg]
      · rw [abs_of_nonneg hnonneg]
    rw [habs]
    exact hd.rounds
  · intro hpos
    rw [signedValue] at hpos
    split at hpos
    · linarith
    · rename_i hsign
      exact Bool.not_eq_true _ ▸ hsign
  · intro hneg
    rw [signedValue] at hneg
    split at hneg
    · assumption
    · linarith

/-- Rounding an integer at a scale. -/
theorem exists_roundsTo_normalize (n e : ℤ) :
    ∃ negative d, RoundsTo negative d (n * 2 ^ e) ∧
      UnpackedFloat.normalize .binary64 n e .positive = Reading.unpacked (.finite negative d) := by
  have hunit : (0 : ℝ) < 2 ^ e := by positivity
  rcases lt_trichotomy n 0 with hneg | rfl | hpos
  · obtain ⟨m, rfl⟩ : ∃ m : ℕ, n = -m := ⟨n.natAbs, by omega⟩
    have hm : 0 < m := by omega
    have hreal : ((-(m : ℤ) : ℤ) : ℝ) * 2 ^ e < 0 :=
      mul_neg_of_neg_of_pos (by exact_mod_cast hneg) hunit
    have habs : |((-(m : ℤ) : ℤ) : ℝ) * 2 ^ e| = m * 2 ^ e := by
      rw [abs_of_neg hreal]
      push_cast
      ring
    obtain ⟨d, hd, hround⟩ := exists_rounds_round hm e true
    refine ⟨true, d, ⟨by rwa [habs], fun h => absurd h hreal.not_gt, fun _ => rfl⟩, ?_⟩
    rw [UnpackedFloat.normalize, Int.compare_eq_lt.mpr hneg]
    dsimp only
    rw [neg_neg, Int.toNat_natCast]
    exact hround
  · refine ⟨false, ⟨0, -1074⟩, ?_, rfl⟩
    rw [Int.cast_zero, zero_mul]
    exact roundsTo_zero false
  · obtain ⟨m, rfl⟩ : ∃ m : ℕ, n = m := ⟨n.natAbs, by omega⟩
    have hm : 0 < m := by omega
    have hreal : 0 < ((m : ℤ) : ℝ) * 2 ^ e := mul_pos (by exact_mod_cast hpos) hunit
    have habs : |((m : ℤ) : ℝ) * 2 ^ e| = m * 2 ^ e := by
      rw [abs_of_pos hreal, Int.cast_natCast]
    obtain ⟨d, hd, hround⟩ := exists_rounds_round hm e false
    refine ⟨false, d, ⟨by rwa [habs], fun _ => rfl, fun h => absurd h hreal.not_gt⟩, ?_⟩
    rw [UnpackedFloat.normalize, Int.compare_eq_gt.mpr hpos]
    dsimp only
    rw [Int.toNat_natCast]
    exact hround

/-! ## Packing -/

namespace Reading

/-- The reading of a rounded number: infinite, if its magnitude is out of range. -/
def ofRounded (negative : Bool) (d : Dyadic) : Reading :=
  if d.exponent ≤ 971 then .finite negative d else .infinite negative

/-- A number out of range is packed to an infinity. -/
theorem ofFloat_pack_of_normalised {d : Dyadic} (hd : d.Normalised) (negative : Bool) :
    ofFloat (.ofModel (.pack (unpacked (.finite negative d)))) = ofRounded negative d := by
  rw [ofRounded]
  split
  · rename_i hrange
    exact ofFloat_pack ⟨hd.mantissa_lt, hd.le_exponent, hrange, hd.normal⟩ negative
  · rename_i hover
    have hpos : 0 < d.mantissa := by
      rcases hd.normal with h | h <;> omega
    have hpack : UnpackedFloat.pack .binary64 (unpacked (.finite negative d)) =
        packComponents .binary64 (sign negative) (BitVec.ofNat 11 2047) 0 := by
      have hbias : (d.exponent + (Format.binary64.exponentBias : ℤ) +
          (Format.binary64.mantissaBitsWithoutImplicit : ℤ)).toNat = (d.exponent + 1075).toNat := by
        have hsum : (Format.binary64.exponentBias : ℤ) +
          (Format.binary64.mantissaBitsWithoutImplicit : ℤ) = 1075 := rfl
        rw [Int.add_assoc, hsum]
      have hlarge : 2 ^ 11 ≤ (d.exponent + 1075).toNat + 1 := by omega
      rw [unpacked, dif_pos hpos, UnpackedFloat.pack]
      dsimp only
      rw [hbias, if_pos hlarge]
      rfl
    have hbits : (Float.ofModel (.pack (unpacked (.finite negative d)))).toBits.toNat =
        negative.toNat * 2 ^ 63 + 2047 * 2 ^ 52 := by
      have h := toNat_packComponents negative (BitVec.ofNat 11 2047) 0
      rw [← hpack] at h
      exact h
    have hbool : negative.toNat ≤ 1 := Bool.toNat_le negative
    have hfield : field (Float.ofModel (.pack (unpacked (.finite negative d)))).toBits = 2047 := by
      rw [field, hbits]
      omega
    have hfraction :
        fraction (Float.ofModel (.pack (unpacked (.finite negative d)))).toBits = 0 := by
      rw [fraction, hbits]
      omega
    have hsign : (signBit (Float.ofModel (.pack (unpacked (.finite negative d)))).toBits == 1) =
        negative := by
      have hquotient : (negative.toNat * 2 ^ 63 + 2047 * 2 ^ 52) / 2 ^ 63 = negative.toNat := by
        omega
      rw [signBit, hbits, hquotient]
      cases negative <;> rfl
    rw [ofFloat, ofBits_eq, if_pos hfield, if_pos hfraction, hsign]

end Reading

/-! ## Differences -/

/-- A signed mantissa at a smaller exponent. -/
theorem signedValue_eq_apply (negative : Bool) (d : Dyadic) {e : ℤ} (he : e ≤ d.exponent) :
    signedValue negative d =
      ((Reading.sign negative).apply (d.mantissa <<< (d.exponent - e).toNat : ℕ) : ℤ) * 2 ^ e := by
  obtain ⟨k, hk⟩ : ∃ k : ℕ, d.exponent = e + k := ⟨(d.exponent - e).toNat, by omega⟩
  have hshift : (d.exponent - e).toNat = k := by omega
  have hvalue : d.value = (d.mantissa * 2 ^ k : ℕ) * 2 ^ e := by
    rw [Dyadic.value, hk, zpow_add₀ two_ne_zero, zpow_natCast]
    push_cast
    ring
  rw [signedValue, hvalue, hshift, Nat.shiftLeft_eq]
  cases negative with
  | true =>
    rw [if_pos rfl, Reading.sign, if_pos rfl, Sign.apply]
    push_cast
    ring
  | false =>
    rw [if_neg (by decide), Reading.sign, if_neg (by decide), Sign.apply]
    push_cast
    ring

/-- The difference of finite doubles is rounded. -/
theorem exists_roundsTo_sub {x y : Float} (hx : x.isFinite = true) (hy : y.isFinite = true) :
    ∃ negative d, RoundsTo negative d (realOf x - realOf y) ∧
      Reading.ofFloat (x - y) = Reading.ofRounded negative d := by
  obtain ⟨negative, d, hread⟩ := Reading.isFinite_iff.mp hx
  obtain ⟨negative', d', hread'⟩ := Reading.isFinite_iff.mp hy
  have hd := Reading.canonical_of_ofFloat hread
  have hd' := Reading.canonical_of_ofFloat hread'
  have hsub : x - y =
      .ofModel (.pack (UnpackedFloat.sub .binary64 x.toModel.unpack y.toModel.unpack)) := rfl
  suffices hresult : ∃ negative'' d'', RoundsTo negative'' d'' (realOf x - realOf y) ∧
      UnpackedFloat.sub .binary64 (Reading.unpacked (.finite negative d))
        (Reading.unpacked (.finite negative' d')) = Reading.unpacked (.finite negative'' d'') by
    obtain ⟨negative'', d'', hrounds, heq⟩ := hresult
    refine ⟨negative'', d'', hrounds, ?_⟩
    rw [hsub, Reading.unpack_eq, Reading.unpack_eq, hread, hread', heq]
    exact Reading.ofFloat_pack_of_normalised hrounds.toNormalised negative''
  rw [realOf_of_ofFloat hread, realOf_of_ofFloat hread', Reading.unpacked, Reading.unpacked]
  by_cases hpos : 0 < d.mantissa
  · by_cases hpos' : 0 < d'.mantissa
    · rw [dif_pos hpos, dif_pos hpos', UnpackedFloat.sub]
      have hleft := signedValue_eq_apply negative d (min_le_left d.exponent d'.exponent)
      have hright := signedValue_eq_apply negative' d' (min_le_right d.exponent d'.exponent)
      rw [hleft, hright, ← sub_mul, ← Int.cast_sub]
      exact exists_roundsTo_normalize _ _
    · have hzero' : d'.mantissa = 0 := by omega
      rw [dif_pos hpos, dif_neg hpos', signedValue_of_mantissa_eq_zero hzero', sub_zero]
      refine ⟨negative, d, roundsTo_signedValue hd negative, ?_⟩
      rw [Reading.unpacked, dif_pos hpos]
      rfl
  · have hzero : d.mantissa = 0 := by omega
    rw [dif_neg hpos, signedValue_of_mantissa_eq_zero hzero, zero_sub]
    by_cases hpos' : 0 < d'.mantissa
    · refine ⟨!negative', d', ?_, ?_⟩
      · rw [← signedValue_not]
        exact roundsTo_signedValue hd' _
      · rw [dif_pos hpos', Reading.unpacked, dif_pos hpos']
        cases negative' <;> rfl
    · have hzero' : d'.mantissa = 0 := by omega
      rw [dif_neg hpos', signedValue_of_mantissa_eq_zero hzero', neg_zero]
      cases negative with
      | true =>
        cases negative' with
        | true => exact ⟨false, ⟨0, -1074⟩, roundsTo_zero _, rfl⟩
        | false => exact ⟨true, ⟨0, -1074⟩, roundsTo_zero _, rfl⟩
      | false =>
        cases negative' with
        | true => exact ⟨false, ⟨0, -1074⟩, roundsTo_zero _, rfl⟩
        | false => exact ⟨false, ⟨0, -1074⟩, roundsTo_zero _, rfl⟩

/-! ## Products -/

/-- The product of finite doubles is rounded. -/
theorem exists_roundsTo_mul {x y : Float} (hx : x.isFinite = true) (hy : y.isFinite = true) :
    ∃ negative d, RoundsTo negative d (realOf x * realOf y) ∧
      Reading.ofFloat (x * y) = Reading.ofRounded negative d := by
  obtain ⟨negative, d, hread⟩ := Reading.isFinite_iff.mp hx
  obtain ⟨negative', d', hread'⟩ := Reading.isFinite_iff.mp hy
  have hd := Reading.canonical_of_ofFloat hread
  have hd' := Reading.canonical_of_ofFloat hread'
  have hmul : x * y =
      .ofModel (.pack (UnpackedFloat.mul .binary64 x.toModel.unpack y.toModel.unpack)) := rfl
  have hsign : Reading.sign negative * Reading.sign negative' =
      Reading.sign (negative != negative') := by
    cases negative <;> cases negative' <;> rfl
  have hproduct : signedValue negative d * signedValue negative' d' =
      if (negative != negative') = true then -(d.value * d'.value) else d.value * d'.value := by
    cases negative <;> cases negative' <;> simp [signedValue]
  suffices hresult : ∃ d'' : Dyadic, d''.Rounds (d.value * d'.value) ∧
      UnpackedFloat.mul .binary64 (Reading.unpacked (.finite negative d))
        (Reading.unpacked (.finite negative' d')) =
          Reading.unpacked (.finite (negative != negative') d'') by
    obtain ⟨d'', hrounds, heq⟩ := hresult
    refine ⟨negative != negative', d'', ?_, ?_⟩
    · rw [realOf_of_ofFloat hread, realOf_of_ofFloat hread', hproduct]
      exact hrounds.roundsTo (mul_nonneg d.value_nonneg d'.value_nonneg) _
    · rw [hmul, Reading.unpack_eq, Reading.unpack_eq, hread, hread', heq]
      exact Reading.ofFloat_pack_of_normalised hrounds.toNormalised _
  have hzero : ∃ d'' : Dyadic, d''.Rounds 0 ∧ Reading.unpacked (.finite (negative != negative') d'') =
      .zero (Reading.sign (negative != negative')) := by
    have h := (roundsTo_zero false).toRounds
    rw [abs_zero] at h
    exact ⟨⟨0, -1074⟩, h, rfl⟩
  rw [Reading.unpacked, Reading.unpacked]
  by_cases hpos : 0 < d.mantissa
  · by_cases hpos' : 0 < d'.mantissa
    · have hexact : Describes (.ofMantissaAndAccuracy (d.mantissa * d'.mantissa) .exact)
          (d.mantissa * d'.mantissa : ℕ) := sub_self _
      have hfull : 2 ^ 52 ≤ d.mantissa * d'.mantissa ∨ d.exponent + d'.exponent ≤ -1074 := by
        rcases hd.normal with h | h
        · exact Or.inl (h.trans (Nat.le_mul_of_pos_right _ hpos'))
        · rcases hd'.normal with h' | h'
          · exact Or.inl (h'.trans (Nat.le_mul_of_pos_left _ hpos))
          · exact Or.inr (by omega)
      obtain ⟨d'', hrounds, hround⟩ :=
        exists_rounds_roundWithAccuracy hexact hfull (negative != negative')
      have hvalue : ((d.mantissa * d'.mantissa : ℕ) : ℝ) * 2 ^ (d.exponent + d'.exponent) =
          d.value * d'.value := by
        rw [Dyadic.value, Dyadic.value, zpow_add₀ two_ne_zero]
        push_cast
        ring
      rw [dif_pos hpos, dif_pos hpos', UnpackedFloat.mul, hsign]
      exact ⟨d'', hvalue ▸ hrounds, hround⟩
    · rw [dif_pos hpos, dif_neg hpos', Dyadic.value_of_mantissa_eq_zero (d := d') (by omega),
        mul_zero, UnpackedFloat.mul, hsign]
      obtain ⟨d'', hrounds, heq⟩ := hzero
      exact ⟨d'', hrounds, heq.symm⟩
  · rw [dif_neg hpos, Dyadic.value_of_mantissa_eq_zero (d := d) (by omega), zero_mul]
    obtain ⟨d'', hrounds, heq⟩ := hzero
    refine ⟨d'', hrounds, ?_⟩
    rw [heq, ← hsign]
    by_cases hpos' : 0 < d'.mantissa
    · rw [dif_pos hpos']
      rfl
    · rw [dif_neg hpos']
      rfl

/-! ## Quotients -/

/-- The two bits behind the integer part of a quotient. -/
theorem describes_accuracyOfFraction (m : ℕ) {n : ℕ} (hn : 0 < n) :
    Describes (.ofMantissaAndAccuracy (m / n) (accuracyOfFraction (m % n) n)) (m / n) := by
  have hn' : (0 : ℝ) < n := by exact_mod_cast hn
  have hdiv : (m : ℝ) / n - (m / n : ℕ) = (m % n : ℕ) / n := by
    have hsum : ((n * (m / n) + m % n : ℕ) : ℝ) = m := by exact_mod_cast Nat.div_add_mod m n
    push_cast at hsum
    rw [eq_div_iff hn'.ne', sub_mul, div_mul_cancel₀ _ hn'.ne']
    linarith
  have hrest : m % n < n := Nat.mod_lt m hn
  have hrest' : ((m % n : ℕ) : ℝ) / n < 1 := by
    rw [div_lt_one hn']
    exact_mod_cast hrest
  rw [accuracyOfFraction]
  split
  · rename_i hzero
    rw [Describes]
    change (m : ℝ) / n - (m / n : ℕ) = 0
    rw [hdiv, hzero, Nat.cast_zero, zero_div]
  · rename_i hne
    have hpos : (0 : ℝ) < (m % n : ℕ) / n := by
      have : (0 : ℝ) < (m % n : ℕ) := by exact_mod_cast Nat.pos_of_ne_zero hne
      positivity
    rcases lt_trichotomy (2 * (m % n)) n with hlt | heq | hgt
    · rw [Nat.compare_eq_lt.mpr hlt]
      change 0 < (m : ℝ) / n - (m / n : ℕ) ∧ (m : ℝ) / n - (m / n : ℕ) < 1 / 2
      rw [hdiv, div_lt_iff₀ hn']
      have hreal : (2 * (m % n : ℕ) : ℝ) < n := by exact_mod_cast hlt
      exact ⟨hpos, by linarith⟩
    · rw [Nat.compare_eq_eq.mpr heq]
      change (m : ℝ) / n - (m / n : ℕ) = 1 / 2
      rw [hdiv, div_eq_iff hn'.ne']
      have hreal : (2 * (m % n : ℕ) : ℝ) = n := by exact_mod_cast heq
      linarith
    · rw [Nat.compare_eq_gt.mpr hgt]
      change 1 / 2 < (m : ℝ) / n - (m / n : ℕ) ∧ (m : ℝ) / n - (m / n : ℕ) < 1
      rw [hdiv, lt_div_iff₀ hn']
      have hreal : (n : ℝ) < 2 * (m % n : ℕ) := by exact_mod_cast hgt
      exact ⟨by linarith, hrest'⟩

/-- A quotient is computed to enough digits to be rounded. -/
theorem exists_roundsTo_divCore {m m' : ℕ} (hm : 0 < m) (hm' : 0 < m') (e e' : ℤ)
    (negative : Bool) :
    ∃ d : Dyadic, d.Rounds (m * 2 ^ e / (m' * 2 ^ e')) ∧
      roundWithAccuracy .binary64 (Reading.sign negative) (divCore .binary64 m e m' e').1
        (divCore .binary64 m e m' e').2.1 (divCore .binary64 m e m' e').2.2 =
          Reading.unpacked (.finite negative d) := by
  obtain ⟨q, hq⟩ : ∃ q : ℤ, q = min (e - e')
    (max (((m.log2 : ℤ) + 1 + e) - ((m'.log2 : ℤ) + 1 + e') - 53) (-1074)) := ⟨_, rfl⟩
  obtain ⟨k, hk⟩ : ∃ k : ℕ, k = (e - e' - q).toNat := ⟨_, rfl⟩
  have hcore : divCore .binary64 m e m' e' =
      (m * 2 ^ k / m', q, accuracyOfFraction (m * 2 ^ k % m') m') := by
    rw [hk, hq, ← Nat.shiftLeft_eq]
    rfl
  have hfull : 2 ^ 52 ≤ m * 2 ^ k / m' ∨ q ≤ -1074 := by
    by_cases hleast : q ≤ -1074
    · exact Or.inr hleast
    · left
      have hdigits : m'.log2 + 53 ≤ m.log2 + k := by omega
      have hmle : 2 ^ m.log2 ≤ m := Nat.log2_self_le (by omega)
      have hmlt : m' < 2 ^ (m'.log2 + 1) := Nat.lt_log2_self
      rw [Nat.le_div_iff_mul_le hm']
      calc 2 ^ 52 * m' ≤ 2 ^ 52 * 2 ^ (m'.log2 + 1) := Nat.mul_le_mul_left _ hmlt.le
        _ = 2 ^ (m'.log2 + 53) := by rw [← pow_add]; congr 1; omega
        _ ≤ 2 ^ (m.log2 + k) := Nat.pow_le_pow_right two_pos hdigits
        _ = 2 ^ m.log2 * 2 ^ k := pow_add _ _ _
        _ ≤ m * 2 ^ k := Nat.mul_le_mul_right _ hmle
  obtain ⟨d, hd, hround⟩ := exists_rounds_roundWithAccuracy
    (describes_accuracyOfFraction (m * 2 ^ k) hm') hfull negative
  have hvalue : ((m * 2 ^ k : ℕ) : ℝ) / m' * 2 ^ q = m * 2 ^ e / (m' * 2 ^ e') := by
    have hsum : (2 : ℝ) ^ e = 2 ^ k * 2 ^ q * 2 ^ e' := by
      rw [← zpow_natCast, ← zpow_add₀ two_ne_zero, ← zpow_add₀ two_ne_zero]
      congr 1
      omega
    rw [hsum]
    push_cast
    field_simp
  rw [hcore]
  exact ⟨d, hvalue ▸ hd, hround⟩

/-- The quotient of finite doubles is rounded, if it is one. -/
theorem exists_roundsTo_div {x y : Float} (hx : x.isFinite = true) (hy : y.isFinite = true)
    (hne : realOf y ≠ 0) :
    ∃ negative d, RoundsTo negative d (realOf x / realOf y) ∧
      Reading.ofFloat (x / y) = Reading.ofRounded negative d := by
  obtain ⟨negative, d, hread⟩ := Reading.isFinite_iff.mp hx
  obtain ⟨negative', d', hread'⟩ := Reading.isFinite_iff.mp hy
  have hdiv : x / y =
      .ofModel (.pack (UnpackedFloat.div .binary64 x.toModel.unpack y.toModel.unpack)) := rfl
  rw [realOf_of_ofFloat hread'] at hne
  have hpos' : 0 < d'.mantissa := by
    by_contra hzero
    exact hne (signedValue_of_mantissa_eq_zero (by omega) negative')
  have hsign : Reading.sign negative / Reading.sign negative' =
      Reading.sign (negative != negative') := by
    cases negative <;> cases negative' <;> rfl
  have hratio : signedValue negative d / signedValue negative' d' =
      if (negative != negative') = true then -(d.value / d'.value) else d.value / d'.value := by
    cases negative <;> cases negative' <;> simp [signedValue, neg_div, div_neg]
  suffices hresult : ∃ d'' : Dyadic, d''.Rounds (d.value / d'.value) ∧
      UnpackedFloat.div .binary64 (Reading.unpacked (.finite negative d))
        (Reading.unpacked (.finite negative' d')) =
          Reading.unpacked (.finite (negative != negative') d'') by
    obtain ⟨d'', hrounds, heq⟩ := hresult
    refine ⟨negative != negative', d'', ?_, ?_⟩
    · rw [realOf_of_ofFloat hread, realOf_of_ofFloat hread', hratio]
      exact hrounds.roundsTo (div_nonneg d.value_nonneg d'.value_nonneg) _
    · rw [hdiv, Reading.unpack_eq, Reading.unpack_eq, hread, hread', heq]
      exact Reading.ofFloat_pack_of_normalised hrounds.toNormalised _
  rw [Reading.unpacked, Reading.unpacked, dif_pos hpos']
  by_cases hpos : 0 < d.mantissa
  · rw [dif_pos hpos, UnpackedFloat.div, hsign]
    exact exists_roundsTo_divCore hpos hpos' d.exponent d'.exponent _
  · have hzero : d.mantissa = 0 := by omega
    rw [dif_neg hpos, Dyadic.value_of_mantissa_eq_zero hzero, zero_div]
    refine ⟨⟨0, -1074⟩, ?_, ?_⟩
    · have h := (roundsTo_zero false).toRounds
      rwa [abs_zero] at h
    · rw [UnpackedFloat.div, hsign]
      rfl

end SphereLab
