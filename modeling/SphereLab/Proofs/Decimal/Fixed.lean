import Mathlib
import SphereLab.Proofs.Decimal.General
import SphereLab.Proofs.Double.Range

/-!
# Texts with a set number of places

A finite double with a set number of digits behind the point is a sign and a decimal, and no
decimal that is written for a finite double is so large that it would be read as infinity.  A double
that is rounded to an integer is written with the digits of the integer, as far as sixty-four bits
hold it.

* `isFinite_nearestDecimal`: decimals below the bound of the doubles are read as finite doubles.
* `exists_decimalText_fixedText`: the text of a finite double with a set number of places.
* `exists_toList_roundedText`: the text of a positive double rounded to an integer, and what it is
  read as.
-/

namespace SphereLab

/-! ## Decimals below the bound of the doubles -/

/-- All bits below those of infinity are the bits of a magnitude. -/
theorem exists_canonical_ordinal_eq {n : ℕ} (h : n < 2047 * 2 ^ 52) :
    ∃ d : Dyadic, d.Canonical ∧ d.ordinal = n := by
  by_cases hfield : n < 2 ^ 52
  · refine ⟨⟨n, -1074⟩, ⟨?_, le_rfl, ?_, Or.inr rfl⟩, ?_⟩
    · dsimp only
      omega
    · dsimp only
      omega
    · rw [Dyadic.ordinal]
      dsimp only
      omega
  · refine ⟨⟨2 ^ 52 + n % 2 ^ 52, (n / 2 ^ 52 : ℕ) - 1075⟩, ⟨?_, ?_, ?_, Or.inl ?_⟩, ?_⟩
    · dsimp only
      omega
    · dsimp only
      omega
    · dsimp only
      omega
    · dsimp only
      omega
    · rw [Dyadic.ordinal]
      dsimp only
      omega

theorem roundHalfEven_le (num : ℕ) {den : ℕ} (hden : 0 < den) :
    (roundHalfEven num den : ℝ) ≤ num / den + 1 / 2 := by
  obtain ⟨-, -, hdist, -⟩ :=
    (isNearestMultiple_iff one_pos).mp (isNearestMultiple_roundHalfEven num hden)
  have hlow := (abs_le.mp hdist).1
  linarith

theorem doubleBound_lt : doubleBound < 2 ^ (1024 : ℤ) := by
  have hsplit : (2 : ℝ) ^ (1024 : ℤ) = 2 ^ 53 * 2 ^ (971 : ℤ) := by
    rw [← zpow_natCast, ← zpow_add₀ two_ne_zero]
    norm_num
  rw [hsplit, doubleBound]
  exact mul_lt_mul_of_pos_right (by norm_num) (by positivity)

/-- A quotient below the bound of the doubles is rounded to a finite one. -/
theorem isFinite_nearestMagnitude {num den : ℕ} (hden : 0 < den)
    (h : (num / den : ℝ) < doubleBound) : (nearestMagnitude num den).isFinite = true := by
  by_cases hnum : num = 0
  · rw [nearestMagnitude, if_pos hnum]
    exact Reading.isFinite_iff.mpr ⟨_, _, ofFloat_zero⟩
  obtain ⟨binade, a, b, hb, hlow, hhigh, hquotient, heq⟩ := nearestMagnitude_eq hnum hden
  have hround := roundHalfEven_le a hb
  generalize roundHalfEven a b = significand at hround heq
  have hbinade : binade < 1024 :=
    (zpow_lt_zpow_iff_right₀ one_lt_two).mp (hlow.trans_lt (h.trans doubleBound_lt))
  have hpacked : (max (binade - 52) (-1074) + 1074).toNat * 2 ^ 52 + significand <
      2047 * 2 ^ 52 := by
    rcases eq_or_ne binade 1023 with rfl | hne
    · -- In the last binade the significand stays below the carry.
      have hexponent : max ((1023 : ℤ) - 52) (-1074) = 971 := by norm_num
      rw [hexponent] at hquotient ⊢
      have hsmall : (a / b : ℝ) < 2 ^ 53 - 1 / 2 := by
        rw [hquotient, div_lt_iff₀ (by positivity)]
        exact h
      have hsignificand : (significand : ℝ) < 2 ^ 53 := by linarith
      have hsignificand' : significand < 2 ^ 53 := by exact_mod_cast hsignificand
      omega
    · have hsmall : (a / b : ℝ) < 2 ^ 53 := by
        rw [hquotient, div_lt_iff₀ (by positivity)]
        refine hhigh.trans_le ?_
        rw [← zpow_natCast, ← zpow_add₀ two_ne_zero]
        refine zpow_le_zpow_right₀ one_le_two ?_
        push_cast
        omega
      have hsignificand : (significand : ℝ) < (2 ^ 53 + 1 : ℕ) := by
        push_cast
        linarith
      have hsignificand' : significand < 2 ^ 53 + 1 := by exact_mod_cast hsignificand
      omega
  obtain ⟨d, hd, hordinal⟩ := exists_canonical_ordinal_eq hpacked
  rw [heq]
  refine Reading.isFinite_iff.mpr ⟨false, d, Reading.ofFloat_ofBits hd ?_⟩
  rw [Bool.toNat_false, Nat.zero_mul, Nat.zero_add, toNat_packBits hd hordinal.symm]

/-- A decimal below the bound of the doubles is read as a finite one. -/
theorem isFinite_nearestDecimal {digits : ℕ} {exponent : ℤ}
    (h : (digits : ℝ) * 10 ^ exponent < doubleBound) :
    (Numeral.nearestDecimal false digits exponent).isFinite = true := by
  have hzero : (nearestFloat false 0 1).isFinite = true :=
    Reading.isFinite_iff.mpr ⟨_, _, ofFloat_zero⟩
  rw [Numeral.nearestDecimal]
  split
  · exact hzero
  · rename_i hdigits
    obtain ⟨hlow, -⟩ := pow_length_decimalDigits (Nat.pos_of_ne_zero fun h => hdigits (Or.inl h))
    have hlength : 0 < (decimalDigits digits).length := Nat.length_toDigits_pos
    have hsize : (Numeral.nearestDecimal.decimalLength digits : ℤ) =
        ((decimalDigits digits).length : ℤ) := rfl
    split
    · -- So many digits are past the bound.
      rename_i hlong
      refine absurd h (not_lt.mpr (doubleBound_lt.le.trans ?_))
      have hpower : (10 : ℝ) ^ (((decimalDigits digits).length - 1 : ℕ) + exponent : ℤ) ≤
          digits * 10 ^ exponent := by
        rw [zpow_add₀ (by norm_num), zpow_natCast]
        exact mul_le_mul_of_nonneg_right (by exact_mod_cast hlow) (by positivity)
      refine le_trans ?_ hpower
      calc (2 : ℝ) ^ (1024 : ℤ) = 2 ^ 53 * 2 ^ (971 : ℤ) := by
            rw [← zpow_natCast, ← zpow_add₀ two_ne_zero]
            norm_num
        _ ≤ 10 ^ (309 : ℤ) := two_pow_lt_ten_pow.1.le
        _ ≤ _ := zpow_le_zpow_right₀ (by norm_num) (by omega)
    · have hpow := natCast_zpow_eq_div (b := 10) (by decide) exponent
      rw [Nat.cast_ofNat] at hpow
      rw [nearestFloat, if_neg (by decide)]
      refine isFinite_nearestMagnitude (Nat.pow_pos (by decide)) ?_
      rwa [Nat.cast_mul, mul_div_assoc, ← hpow]

/-! ## A set number of places -/

/-- Digits with the point set write the integer in units of the last place. -/
theorem exists_decimalText_setPoint (places n : ℕ) :
    ∃ digits shift, DecimalText (setPoint places n) digits shift ∧
      (digits : ℝ) * 10 ^ shift = n / 10 ^ places := by
  obtain ⟨whole, fraction, heq, hwhole, hfraction, hlength, hvalue⟩ := exists_setPoint_eq places n
  rw [heq, div_eq_mul_inv, ← zpow_natCast, ← zpow_neg, ← hlength]
  cases fraction with
  | nil =>
    rw [List.append_nil] at hvalue
    rw [withPoint, List.append_nil]
    refine ⟨n, 0, ?_, by simp⟩
    by_cases hhead : whole.head? = some '0'
    · have hzero := hwhole.head hhead
      rw [hzero] at hvalue ⊢
      rw [← hvalue]
      exact .zero
    · rw [← hvalue]
      exact .whole hwhole.ne_nil hwhole.allDigits hhead
  | cons c fraction =>
    rw [← hvalue]
    exact ⟨_, _, .pointed hwhole.ne_nil hwhole.allDigits hfraction, rfl⟩

/-- The largest finite double is more than half a unit below the bound. -/
theorem Dyadic.Canonical.value_add_half_lt {d : Dyadic} (hd : d.Canonical) :
    d.value + 1 / 2 < doubleBound := by
  have hmantissa : (d.mantissa : ℝ) ≤ 2 ^ 53 - 1 := by
    have hnat : d.mantissa + 1 ≤ 2 ^ 53 := hd.mantissa_lt
    have hreal : (d.mantissa : ℝ) + 1 ≤ 2 ^ 53 := by exact_mod_cast hnat
    linarith
  have hone : (1 : ℝ) < 2 ^ (971 : ℤ) := one_lt_zpow₀ one_lt_two (by decide)
  have hvalue : d.value ≤ (2 ^ 53 - 1) * 2 ^ (971 : ℤ) :=
    mul_le_mul hmantissa (zpow_le_zpow_right₀ one_le_two hd.exponent_le) (by positivity)
      (by norm_num)
  rw [doubleBound]
  generalize (2 : ℝ) ^ (971 : ℤ) = unit at hone hvalue
  linarith

/-- The text of a finite double with a set number of places is a sign and a decimal that is read as
a finite double. -/
theorem exists_decimalText_fixedText (places : ℕ) {x : Float} (hx : x.isFinite = true) :
    ∃ negative cs digits shift, (fixedText places x).toList = signText negative ++ cs ∧
      DecimalText cs digits shift ∧
      (Numeral.nearestDecimal false digits shift).isFinite = true := by
  obtain ⟨negative, d, hread⟩ := Reading.isFinite_iff.mp hx
  have hd := Reading.canonical_of_ofFloat hread
  obtain ⟨digits, shift, htext, hvalue⟩ :=
    exists_decimalText_setPoint places (fixedDigits places d.num d.den)
  refine ⟨negative, _, digits, shift, ?_, htext, isFinite_nearestDecimal ?_⟩
  · rw [fixedText, hread]
    dsimp only
    rw [String.toList_ofList, fixedMagnitude]
  · have hround := roundHalfEven_le (d.num * 10 ^ places) d.den_pos
    have hten : (1 : ℝ) ≤ 10 ^ places := one_le_pow₀ (by norm_num)
    have hhalf : (1 / 2 : ℝ) / 10 ^ places ≤ 1 / 2 := div_le_self (by norm_num) hten
    rw [hvalue]
    calc (fixedDigits places d.num d.den : ℝ) / 10 ^ places
        ≤ (((d.num * 10 ^ places : ℕ) : ℝ) / d.den + 1 / 2) / 10 ^ places :=
          div_le_div_of_nonneg_right hround (by positivity)
      _ = d.value + 1 / 2 / 10 ^ places := by
          rw [Dyadic.value_eq_div]
          push_cast
          field_simp
      _ ≤ d.value + 1 / 2 := by linarith
      _ < doubleBound := hd.value_add_half_lt

/-! ## Rounding to an integer -/

section Positive

variable {x : Float}

/-- A positive double is a magnitude. -/
theorem exists_ofFloat_eq_of_pos (hx : x.isFinite = true) (hpos : 0 < realOf x) :
    ∃ d : Dyadic, Reading.ofFloat x = .finite false d ∧ d.Canonical ∧ 0 < d.mantissa ∧
      realOf x = d.value := by
  obtain ⟨negative, d, hread⟩ := Reading.isFinite_iff.mp hx
  have hvalue := realOf_of_ofFloat hread
  rw [hvalue] at hpos
  cases negative with
  | true =>
    rw [signedValue, if_pos rfl] at hpos
    exact absurd hpos (not_lt.mpr (neg_nonpos.mpr d.value_nonneg))
  | false =>
    rw [signedValue, if_neg (by decide)] at hpos hvalue
    refine ⟨d, hread, Reading.canonical_of_ofFloat hread, ?_, hvalue⟩
    by_contra hzero
    rw [Dyadic.value_of_mantissa_eq_zero (by omega)] at hpos
    exact lt_irrefl 0 hpos

theorem nearestInteger_eq_min (hx : x.isFinite = true) (hpos : 0 < realOf x) :
    nearestInteger x = (min ⌊realOf x + 1 / 2⌋₊ (2 ^ 63 - 1) : ℕ) := by
  obtain ⟨d, hread, -, -, hvalue⟩ := exists_ofFloat_eq_of_pos hx hpos
  have hfloor : ⌊realOf x + 1 / 2⌋₊ = (2 * d.num + d.den) / (2 * d.den) := by
    have hden : (d.den : ℝ) ≠ 0 := by exact_mod_cast d.den_pos.ne'
    have hquotient : realOf x + 1 / 2 = ((2 * d.num + d.den : ℕ) : ℝ) / ((2 * d.den : ℕ) : ℝ) := by
      rw [hvalue, Dyadic.value_eq_div]
      push_cast
      field_simp
    rw [hquotient, Nat.floor_div_eq_div]
  rw [nearestInteger, hread, Reading.toInteger, signedBy, if_neg (by decide), ← hfloor,
    heldInWord, Nat.pow_eq]
  omega

/-- The integer nearest to a double is a double. -/
theorem realOf_nearestDecimal_floor (hx : x.isFinite = true) (hpos : 0 < realOf x) :
    realOf (Numeral.nearestDecimal false ⌊realOf x + 1 / 2⌋₊ 0) = ⌊realOf x + 1 / 2⌋₊ ∧
      (Numeral.nearestDecimal false ⌊realOf x + 1 / 2⌋₊ 0).isFinite = true := by
  obtain ⟨d, -, hd, hmantissa, hvalue⟩ := exists_ofFloat_eq_of_pos hx hpos
  by_cases hexponent : 0 ≤ d.exponent
  · -- The double is an integer itself.
    have hint : realOf x = d.num := by
      have hden : d.den = 1 := by
        rw [Dyadic.den, Int.toNat_of_nonpos (by omega), Nat.pow_eq, Nat.pow_zero]
      rw [hvalue, Dyadic.value_eq_div, hden, Nat.cast_one, div_one]
    have hnearest : ⌊realOf x + 1 / 2⌋₊ = d.num := by
      rw [hint, Nat.floor_eq_iff (by positivity)]
      exact ⟨by linarith, by linarith⟩
    have hnear : d.Near (d.num * 10 ^ (0 : ℤ)) := by
      rw [zpow_zero, mul_one, ← hint, hvalue]
      exact d.near_value
    have hread := ofFloat_nearestDecimal false hd hmantissa hnear
    rw [hnearest]
    refine ⟨?_, Reading.isFinite_iff.mpr ⟨_, _, hread⟩⟩
    rw [realOf_of_ofFloat hread, signedValue, if_neg (by decide), ← hvalue, hint]
  · have hhalf : (2 : ℝ) ^ d.exponent ≤ 1 / 2 := by
      rw [show (1 / 2 : ℝ) = 2 ^ (-1 : ℤ) by norm_num]
      exact zpow_le_zpow_right₀ one_le_two (by omega)
    have hmantissa' : (d.mantissa : ℝ) < 2 ^ 53 := by exact_mod_cast hd.mantissa_lt
    have hbound : realOf x + 1 / 2 < (2 ^ 53 : ℕ) := by
      have hproduct : d.value ≤ d.mantissa * (1 / 2) :=
        mul_le_mul_of_nonneg_left hhalf (Nat.cast_nonneg _)
      rw [hvalue]
      push_cast
      linarith
    exact realOf_nearestDecimal_natCast ((Nat.floor_lt (by linarith)).mpr hbound)

/-- The text of a positive double rounded to an integer has the digits of a natural number, and is
read as the nearest integer, but as no more than the bound of sixty-four bits. -/
theorem exists_toList_roundedText (hx : x.isFinite = true) (hpos : 0 < realOf x) :
    ∃ n : ℕ, (roundedText x).toList = decimalDigits n ∧
      realOf (Numeral.nearestDecimal false n 0) = min (⌊realOf x + 1 / 2⌋₊ : ℝ) (2 ^ 63) ∧
      (Numeral.nearestDecimal false n 0).isFinite = true := by
  refine ⟨min ⌊realOf x + 1 / 2⌋₊ (2 ^ 63 - 1), ?_, ?_⟩
  · rw [roundedText, nearestInteger_eq_min hx hpos, integerText, integerDigits,
      String.toList_ofList, Int.natAbs_natCast, decide_eq_false (by omega)]
    rfl
  · rcases Nat.lt_or_ge ⌊realOf x + 1 / 2⌋₊ (2 ^ 63) with hsmall | hlarge
    · have hreal : ((⌊realOf x + 1 / 2⌋₊ : ℕ) : ℝ) ≤ 2 ^ 63 := by exact_mod_cast hsmall.le
      rw [min_eq_left hreal, min_eq_left (by omega)]
      exact realOf_nearestDecimal_floor hx hpos
    · have hread : Reading.ofFloat (Numeral.nearestDecimal false (2 ^ 63 - 1) 0) =
          .finite false ⟨2 ^ 52, 11⟩ := by decide +kernel
      have hreal : (2 ^ 63 : ℝ) ≤ (⌊realOf x + 1 / 2⌋₊ : ℕ) := by exact_mod_cast hlarge
      rw [min_eq_right hreal, min_eq_right (by omega)]
      refine ⟨?_, Reading.isFinite_iff.mpr ⟨_, _, hread⟩⟩
      rw [realOf_of_ofFloat hread, signedValue, if_neg (by decide), Dyadic.value]
      norm_num

end Positive

end SphereLab
