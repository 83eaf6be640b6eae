import Mathlib
import SphereLab.Formula.Layout
import SphereLab.Proofs.Decimal.Numerals
import SphereLab.Proofs.Double.Nearest

/-!
# Shortest digits read back

The digits that are chosen for a double lie in its basin, and their text in positional notation is
a numeral for a point of the basin.  So the text reads back as the double.

* `decimalExponent_spec`: the power of ten below a quotient.
* `Dyadic.basin_holds_iff`: the basin holds the decimals that round to the magnitude.
* `Dyadic.shortest_spec`: the shortest digits are as many as they are said to be, and round to the
  magnitude.
* `DecimalText`: digits with or without a point, and the decimal that they write.
* `exists_decimalText_constantText`: the text of a finite constant is a sign and a decimal whose
  nearest double is the constant's absolute value.
-/

namespace SphereLab

/-! ## Digits of natural numbers -/

namespace Numeral

theorem ofDigits_concat (cs : List Char) (c : Char) :
    ofDigits (cs ++ [c]) = 10 * ofDigits cs + (c.toNat - 48) := by
  rw [ofDigits, List.foldl_append]
  rfl

theorem ofDigits_append (xs ys : List Char) :
    ofDigits (xs ++ ys) = ofDigits xs * 10 ^ ys.length + ofDigits ys := by
  induction ys using List.reverseRecOn with
  | nil => simp [ofDigits]
  | append_singleton ys c ih =>
    rw [← List.append_assoc, ofDigits_concat, ofDigits_concat, ih, List.length_append,
      List.length_singleton]
    ring

theorem ofDigits_replicate_zero (n : Nat) : ofDigits (List.replicate n '0') = 0 := by
  induction n with
  | zero => rfl
  | succ n ih =>
    rw [List.replicate_succ', ofDigits_concat, ih]
    rfl

theorem ofDigits_decimalDigits (n : Nat) : ofDigits (decimalDigits n) = n :=
  Nat.ofDigitChars_ten_toDigits

end Numeral

/-- The number of digits of a natural number. -/
theorem length_decimalDigits_eq {n count : Nat} (hcount : 1 ≤ count) (hlow : 10 ^ (count - 1) ≤ n)
    (hhigh : n < 10 ^ count) : (decimalDigits n).length = count := by
  have hle : (decimalDigits n).length ≤ count :=
    (Nat.length_toDigits_le_iff (by omega) hcount).mpr hhigh
  by_contra hne
  have hpos : 0 < (decimalDigits n).length := Nat.length_toDigits_pos
  have hlt : n < 10 ^ (count - 1) :=
    (Nat.length_toDigits_le_iff (by omega) (by omega)).mp (by
      change (decimalDigits n).length ≤ count - 1
      omega)
  omega

/-- The digits of a positive number do not begin with a zero. -/
theorem head?_decimalDigits_ne {n : Nat} (hpos : 0 < n) : (decimalDigits n).head? ≠ some '0' := by
  induction n using Nat.strong_induction_on with
  | _ n ih =>
    rcases Nat.lt_or_ge n 10 with hlt | hge
    · have hdigit : ∀ d < 10, 0 < d → (decimalDigits d).head? ≠ some '0' := by decide
      exact hdigit n hlt hpos
    · have hsplit : decimalDigits n = decimalDigits (n / 10) ++ [(n % 10).digitChar] :=
        Nat.toDigits_of_base_le (by omega) hge
      rw [hsplit, List.head?_append_of_ne_nil _ (decimalDigits_ne_nil _)]
      exact ih (n / 10) (by omega) (by omega)

theorem digitCount_spec {n : Nat} (hpos : 0 < n) :
    1 ≤ digitCount n ∧ 10 ^ (digitCount n - 1) ≤ n ∧ n < 10 ^ digitCount n := by
  induction n using Nat.strong_induction_on with
  | _ n ih =>
    rw [digitCount, dif_neg (by omega)]
    rcases Nat.lt_or_ge n 10 with hlt | hge
    · have hzero : n / 10 = 0 := by omega
      rw [hzero, digitCount, dif_pos rfl]
      omega
    · obtain ⟨hone, hlow, hhigh⟩ := ih (n / 10) (by omega) (by omega)
      obtain ⟨k, hk⟩ : ∃ k, digitCount (n / 10) = k + 1 := ⟨digitCount (n / 10) - 1, by omega⟩
      have hpow : 10 ^ (k + 1) = 10 ^ k * 10 := Nat.pow_succ _ _
      have hpow' : 10 ^ (k + 1 + 1) = 10 ^ (k + 1) * 10 := Nat.pow_succ _ _
      rw [hk] at hlow hhigh ⊢
      rw [Nat.add_sub_cancel] at hlow ⊢
      omega

/-! ## The decimal exponent -/

/-- The decimal exponent of a quotient is that of the power of ten below it. -/
theorem decimalExponent_spec {num den : Nat} (hnum : 0 < num) (hden : 0 < den) :
    (10 : ℝ) ^ decimalExponent num den ≤ num / den ∧
      (num / den : ℝ) < 10 ^ (decimalExponent num den + 1) := by
  have hnum' : (0 : ℝ) < num := by exact_mod_cast hnum
  have hden' : (0 : ℝ) < den := by exact_mod_cast hden
  rw [decimalExponent]
  split
  · rename_i hle
    obtain ⟨hone, hlow, hhigh⟩ := digitCount_spec (Nat.div_pos hle hden)
    obtain ⟨k, hk⟩ : ∃ k, digitCount (num / den) = k + 1 := ⟨digitCount (num / den) - 1, by omega⟩
    rw [hk] at hlow hhigh ⊢
    rw [Nat.add_sub_cancel, Nat.le_div_iff_mul_le hden] at hlow
    rw [Nat.div_lt_iff_lt_mul hden] at hhigh
    rw [Int.sub_add_cancel, Nat.cast_succ, Int.add_sub_cancel, ← Nat.cast_succ, zpow_natCast,
      zpow_natCast, le_div_iff₀ hden', div_lt_iff₀ hden']
    exact ⟨by exact_mod_cast hlow, by exact_mod_cast hhigh⟩
  · rename_i hlt
    have hquotient : 0 < (den - 1) / num := Nat.div_pos (by omega) hnum
    obtain ⟨hone, hlow, hhigh⟩ := digitCount_spec hquotient
    obtain ⟨k, hk⟩ : ∃ k, digitCount ((den - 1) / num) = k + 1 :=
      ⟨digitCount ((den - 1) / num) - 1, by omega⟩
    rw [hk] at hlow hhigh ⊢
    rw [Nat.add_sub_cancel, Nat.le_div_iff_mul_le hnum] at hlow
    rw [Nat.div_lt_iff_lt_mul hnum] at hhigh
    have hsucc : -((k + 1 : Nat) : Int) + 1 = -(k : Int) := by omega
    have hlow' : (10 : ℝ) ^ k * num < den := by
      have hnat : 10 ^ k * num < den := by omega
      exact_mod_cast hnat
    have hhigh' : (den : ℝ) ≤ 10 ^ (k + 1) * num := by
      have hnat : den ≤ 10 ^ (k + 1) * num := by omega
      exact_mod_cast hnat
    rw [hsucc, zpow_neg, zpow_neg, zpow_natCast, zpow_natCast,
      inv_le_iff_one_le_mul₀ (by positivity), lt_inv_comm₀ (by positivity) (by positivity), inv_div,
      div_mul_eq_mul_div, one_le_div hden', mul_comm, lt_div_iff₀ hnum']
    exact ⟨hhigh', hlow'⟩

/-! ## The basin -/

/-- The ends and the middle of the basin are those of the reals that round to the magnitude. -/
theorem Dyadic.basin_spec {d : Dyadic} (hpos : 0 < d.mantissa) :
    (d.basin.lower / d.basin.den : ℝ) = d.lowerEnd ∧
      (d.basin.middle / d.basin.den : ℝ) = d.value ∧
      (d.basin.upper / d.basin.den : ℝ) = d.upperEnd ∧ 0 < d.basin.den := by
  have hpow := natCast_zpow_eq_div two_pos d.exponent
  rw [Nat.cast_ofNat] at hpow
  have hden : (0 : ℝ) < ((Nat.pow 2 (-d.exponent).toNat : ℕ) : ℝ) := by
    exact_mod_cast Nat.two_pow_pos _
  have hcast : ∀ k : ℕ, k ≤ 4 * d.mantissa →
      (((4 * d.mantissa - k) * Nat.pow 2 d.exponent.toNat : ℕ) : ℝ) /
        ((4 * Nat.pow 2 (-d.exponent).toNat : ℕ) : ℝ) =
          ((d.mantissa : ℝ) - k / 4) * 2 ^ d.exponent := by
    intro k hk
    rw [hpow, Nat.cast_mul, Nat.cast_mul, Nat.cast_sub hk]
    push_cast
    field_simp
  refine ⟨?_, ?_, ?_, Nat.mul_pos (by decide) d.den_pos⟩
  · rw [lowerEnd]
    simp only [basin, Dyadic.den, Nat.pow_eq]
    split
    · have h := hcast 1 (by omega)
      rw [Nat.cast_one] at h
      exact h
    · have h := hcast 2 (by omega)
      rw [Nat.cast_ofNat, show (2 : ℝ) / 4 = 1 / 2 by norm_num] at h
      exact h
  · have h := hcast 0 (Nat.zero_le _)
    rw [Nat.cast_zero, zero_div, sub_zero, Nat.sub_zero] at h
    exact h
  · rw [upperEnd, hpow]
    simp only [basin, Dyadic.den, Nat.cast_mul, Nat.cast_add]
    push_cast
    field_simp
    ring

/-- The basin holds exactly the decimals that round to the magnitude. -/
theorem Dyadic.basin_holds_iff {d : Dyadic} (hpos : 0 < d.mantissa) (n : Nat) (shift : Int) :
    d.basin.holds n (Nat.pow 10 shift.toNat) (Nat.pow 10 (-shift).toNat) = true ↔
      d.Near (n * 10 ^ shift) := by
  obtain ⟨hlower, -, hupper, hden⟩ := d.basin_spec hpos
  have hpow := natCast_zpow_eq_div (b := 10) (by decide) shift
  rw [Nat.cast_ofNat] at hpow
  have hden' : (0 : ℝ) < d.basin.den := by exact_mod_cast hden
  have hper : 0 < Nat.pow 10 (-shift).toNat := Nat.pow_pos (by decide)
  have hper' : (0 : ℝ) < (Nat.pow 10 (-shift).toNat : ℕ) := by exact_mod_cast hper
  rw [Near, hpow, ← hlower, ← hupper, mul_div_assoc', div_le_div_iff₀ hden' hper',
    div_le_div_iff₀ hper' hden', div_lt_div_iff₀ hden' hper', div_lt_div_iff₀ hper' hden',
    Basin.holds]
  have hclosed : d.basin.closed = decide (d.mantissa % 2 = 0) := rfl
  rw [hclosed]
  simp only [decide_eq_true_eq]
  split
  · rw [Bool.and_eq_true, decide_eq_true_iff, decide_eq_true_iff]
    exact_mod_cast Iff.rfl
  · rw [Bool.and_eq_true, decide_eq_true_iff, decide_eq_true_iff]
    exact_mod_cast Iff.rfl

/-! ## The search for the shortest digits -/

namespace Basin

variable {b : Basin} {tie : Tie} {exponent : Int} {count : Nat}

/-- The grid point at or below the middle of the basin. -/
def pointBelow (b : Basin) (shift : Int) : Nat :=
  b.middle * Nat.pow 10 (-shift).toNat / (b.den * Nat.pow 10 shift.toNat)

/-- Is a grid point in the basin? -/
def holdsPoint (b : Basin) (shift : Int) (n : Nat) : Bool :=
  b.holds n (Nat.pow 10 shift.toNat) (Nat.pow 10 (-shift).toNat)

/-- A grid has no point in the basin only if neither neighbour of the middle is in it. -/
theorem onGrid_eq_none (h : b.onGrid tie exponent count = none) :
    b.holdsPoint (exponent - count + 1) (b.pointBelow (exponent - count + 1)) = false ∧
      b.holdsPoint (exponent - count + 1) (b.pointBelow (exponent - count + 1) + 1) = false := by
  rw [onGrid] at h
  dsimp only at h
  split at h
  · rename_i hbelow habove
    exact ⟨hbelow, habove⟩
  · exact absurd h (by simp)
  · exact absurd h (by simp)
  · split at h
    · exact absurd h (by simp)
    · exact absurd h (by simp)

/-- The point that is taken is a neighbour of the middle, and in the basin. -/
theorem onGrid_eq_some {n : Nat} (h : b.onGrid tie exponent count = some n) :
    (n = b.pointBelow (exponent - count + 1) ∨ n = b.pointBelow (exponent - count + 1) + 1) ∧
      b.holdsPoint (exponent - count + 1) n = true := by
  rw [onGrid] at h
  dsimp only at h
  split at h
  · exact absurd h (by simp)
  · rename_i hbelow habove
    obtain rfl := Option.some.inj h
    exact ⟨Or.inl rfl, hbelow⟩
  · rename_i hbelow habove
    obtain rfl := Option.some.inj h
    exact ⟨Or.inr rfl, habove⟩
  · rename_i hbelow habove
    split at h
    · obtain rfl := Option.some.inj h
      exact ⟨Or.inl rfl, hbelow⟩
    · obtain rfl := Option.some.inj h
      exact ⟨Or.inr rfl, habove⟩

end Basin

namespace Dyadic

variable {d : Dyadic} {tie : Tie} {exponent : Int} {count n : Nat}

/-- The grid point below the middle is the value in units of the grid, rounded down. -/
theorem pointBelow_spec (hpos : 0 < d.mantissa) (shift : Int) :
    (d.basin.pointBelow shift : ℝ) * 10 ^ shift ≤ d.value ∧
      d.value < (d.basin.pointBelow shift + 1 : ℝ) * 10 ^ shift := by
  obtain ⟨-, hmiddle, -, hden⟩ := d.basin_spec hpos
  have hpow := natCast_zpow_eq_div (b := 10) (by decide) shift
  rw [Nat.cast_ofNat] at hpow
  have hunit : 0 < Nat.pow 10 shift.toNat := Nat.pow_pos (by decide)
  have hper : 0 < Nat.pow 10 (-shift).toNat := Nat.pow_pos (by decide)
  have hden' : (0 : ℝ) < d.basin.den := by exact_mod_cast hden
  have hper' : (0 : ℝ) < (Nat.pow 10 (-shift).toNat : ℕ) := by exact_mod_cast hper
  rw [hpow, ← hmiddle, mul_div_assoc', mul_div_assoc', div_le_div_iff₀ hper' hden',
    div_lt_div_iff₀ hden' hper', Basin.pointBelow]
  generalize Nat.pow 10 shift.toNat = unit at hunit
  generalize Nat.pow 10 (-shift).toNat = per
  have hstep : 0 < d.basin.den * unit := Nat.mul_pos hden hunit
  constructor
  · have hle : d.basin.middle * per / (d.basin.den * unit) * (d.basin.den * unit) ≤
        d.basin.middle * per := Nat.div_mul_le_self _ _
    have hcast : ((d.basin.middle * per / (d.basin.den * unit) * unit * d.basin.den : ℕ) : ℝ) ≤
        (d.basin.middle * per : ℕ) := by
      have heq : d.basin.middle * per / (d.basin.den * unit) * unit * d.basin.den =
          d.basin.middle * per / (d.basin.den * unit) * (d.basin.den * unit) := by ring
      rw [heq]
      exact_mod_cast hle
    exact_mod_cast hcast
  · have hlt : d.basin.middle * per <
        (d.basin.middle * per / (d.basin.den * unit) + 1) * (d.basin.den * unit) :=
      (Nat.div_lt_iff_lt_mul hstep).mp (Nat.lt_succ_self _)
    have hcast : ((d.basin.middle * per : ℕ) : ℝ) <
        ((d.basin.middle * per / (d.basin.den * unit) + 1) * unit * d.basin.den : ℕ) := by
      have heq : (d.basin.middle * per / (d.basin.den * unit) + 1) * unit * d.basin.den =
          (d.basin.middle * per / (d.basin.den * unit) + 1) * (d.basin.den * unit) := by ring
      rw [heq]
      exact_mod_cast hlt
    exact_mod_cast hcast

/-- A grid without a point in the basin is at least as wide as the basin. -/
theorem upperEnd_sub_lowerEnd_le (hpos : 0 < d.mantissa)
    (h : d.basin.onGrid tie exponent count = none) :
    d.upperEnd - d.lowerEnd ≤ 10 ^ (exponent - count + 1) := by
  obtain ⟨hbelow, habove⟩ := Basin.onGrid_eq_none h
  obtain ⟨hle, hlt⟩ := pointBelow_spec hpos (exponent - count + 1)
  generalize d.basin.pointBelow (exponent - count + 1) = n at hbelow habove hle hlt
  have hout : ∀ m : Nat, d.basin.holdsPoint (exponent - count + 1) m = false →
      (m : ℝ) * 10 ^ (exponent - count + 1) ≤ d.lowerEnd ∨
        d.upperEnd ≤ m * 10 ^ (exponent - count + 1) := by
    intro m hm
    by_contra hin
    rw [not_or, not_le, not_le] at hin
    have hholds := (basin_holds_iff hpos m (exponent - count + 1)).mpr (near_of_lt hin.1 hin.2)
    rw [Basin.holdsPoint, hholds] at hm
    exact absurd hm (by decide)
  have hlower := d.lowerEnd_lt_value
  have hupper := d.value_lt_upperEnd
  have hnext : ((n + 1 : ℕ) : ℝ) * 10 ^ (exponent - count + 1) =
      n * 10 ^ (exponent - count + 1) + 10 ^ (exponent - count + 1) := by
    rw [Nat.cast_succ]
    ring
  have hlt' : d.value < ((n + 1 : ℕ) : ℝ) * 10 ^ (exponent - count + 1) := by
    rw [Nat.cast_succ]
    exact hlt
  rcases hout n hbelow with hfirst | hfirst
  · rcases hout (n + 1) habove with hsecond | hsecond
    · linarith
    · linarith
  · linarith

/-- The basin is wider than a grid of seventeen digits. -/
theorem grid_lt_upperEnd_sub_lowerEnd (hd : d.Canonical) :
    d.value / 10 ^ 16 < d.upperEnd - d.lowerEnd := by
  have hunit : (0 : ℝ) < 2 ^ d.exponent := by positivity
  rw [div_lt_iff₀ (by norm_num), value, upperEnd, lowerEnd, ← sub_mul, mul_right_comm]
  refine mul_lt_mul_of_pos_right ?_ hunit
  split
  · rename_i hnarrow
    rw [hnarrow.1]
    norm_num
  · have hmantissa : (d.mantissa : ℝ) < 2 ^ 53 := by exact_mod_cast hd.mantissa_lt
    have hbound : (2 : ℝ) ^ 53 ≤ 10 ^ 16 := by norm_num
    linarith

/-- The digits of a decimal are as many as they are said to be, and the decimal rounds to the
magnitude. -/
structure Writes (d : Dyadic) (s : Significant) (count : Nat) : Prop where
  one_le_count : 1 ≤ count
  pow_le_digits : 10 ^ (count - 1) ≤ s.digits
  digits_lt_pow : s.digits < 10 ^ count
  near : d.Near (s.digits * 10 ^ (s.exponent - count + 1))

/-- The digits on a grid, where digits that round up to a power of ten are written as a one. -/
theorem writes_of_onGrid_eq_some (hpos : 0 < d.mantissa) (hlow : (10 : ℝ) ^ exponent ≤ d.value)
    (hhigh : d.value < 10 ^ (exponent + 1)) (hcount : 1 ≤ count)
    (h : d.basin.onGrid tie exponent count = some n) :
    if n = Nat.pow 10 count then d.Writes ⟨1, exponent + 1⟩ 1
    else d.Writes ⟨n, exponent⟩ count := by
  obtain ⟨hn, hholds⟩ := Basin.onGrid_eq_some h
  have hnear := (basin_holds_iff hpos n (exponent - count + 1)).mp hholds
  obtain ⟨hle, hlt⟩ := pointBelow_spec hpos (exponent - count + 1)
  have hunit : (0 : ℝ) < 10 ^ (exponent - count + 1) := by positivity
  have hfirst : (10 : ℝ) ^ exponent = 10 ^ (count - 1) * 10 ^ (exponent - count + 1) := by
    rw [← zpow_natCast, ← zpow_add₀ (by norm_num : (10 : ℝ) ≠ 0)]
    congr 1
    omega
  have hlast : (10 : ℝ) ^ (exponent + 1) = 10 ^ count * 10 ^ (exponent - count + 1) := by
    rw [← zpow_natCast, ← zpow_add₀ (by norm_num : (10 : ℝ) ≠ 0)]
    congr 1
    omega
  generalize d.basin.pointBelow (exponent - count + 1) = below at hn hle hlt
  have hbelow : 10 ^ (count - 1) ≤ below := by
    rw [hfirst] at hlow
    have hreal := lt_of_mul_lt_mul_right (hlow.trans_lt hlt) hunit.le
    have hnat : 10 ^ (count - 1) < below + 1 := by exact_mod_cast hreal
    omega
  have habove : below < 10 ^ count := by
    rw [hlast] at hhigh
    have hreal := lt_of_mul_lt_mul_right (hle.trans_lt hhigh) hunit.le
    exact_mod_cast hreal
  split
  · rename_i hcarry
    refine ⟨le_rfl, le_rfl, Nat.one_lt_pow one_ne_zero (by omega), ?_⟩
    have hexponent : exponent + 1 - ((1 : ℕ) : ℤ) + 1 = exponent + 1 := by omega
    have hone : ((1 : ℕ) : ℝ) * 10 ^ (exponent + 1 - ((1 : ℕ) : ℤ) + 1) =
        n * 10 ^ (exponent - count + 1) := by
      rw [hcarry, Nat.pow_eq, Nat.cast_pow, hexponent, hlast]
      norm_num
    rw [hone]
    exact hnear
  · rename_i hcarry
    rw [Nat.pow_eq] at hcarry
    exact ⟨hcount, by dsimp only; omega, by dsimp only; omega, hnear⟩

/-- The search ends at seventeen digits at the latest. -/
theorem writes_search (hd : d.Canonical) (hpos : 0 < d.mantissa)
    (hlow : (10 : ℝ) ^ exponent ≤ d.value) (hhigh : d.value < 10 ^ (exponent + 1)) (fuel : Nat)
    (hcount : 1 ≤ count) (hfuel : 17 < count + fuel) :
    d.Writes (d.basin.search tie exponent count fuel).1 (d.basin.search tie exponent count fuel).2 ∨
      17 < count := by
  induction fuel generalizing count with
  | zero => exact Or.inr hfuel
  | succ fuel ih =>
    rw [Basin.search]
    cases hgrid : d.basin.onGrid tie exponent count with
    | some n =>
      have hwrites := writes_of_onGrid_eq_some hpos hlow hhigh hcount hgrid
      dsimp only
      split
      · rename_i hcarry
        rw [if_pos hcarry] at hwrites
        exact Or.inl hwrites
      · rename_i hcarry
        rw [if_neg hcarry] at hwrites
        exact Or.inl hwrites
    | none =>
      dsimp only
      rcases @ih (count + 1) (by omega) (by omega) with hwrites | hmany
      · exact Or.inl hwrites
      · -- The grid of seventeen digits is finer than the basin is wide.
        right
        by_contra hle
        have hwide := upperEnd_sub_lowerEnd_le hpos hgrid
        have hfine := grid_lt_upperEnd_sub_lowerEnd hd
        have hgridle : (10 : ℝ) ^ (exponent - count + 1) ≤ d.value / 10 ^ 16 := by
          obtain rfl : count = 17 := by omega
          rw [le_div_iff₀ (by norm_num), ← zpow_natCast,
            ← zpow_add₀ (by norm_num : (10 : ℝ) ≠ 0)]
          refine le_trans (le_of_eq ?_) hlow
          congr 1
          push_cast
          ring
        linarith

/-- **Shortest digits.**  They are as many as they are said to be, and round to the magnitude. -/
theorem shortest_spec (hd : d.Canonical) (hpos : 0 < d.mantissa) (tie : Tie) :
    d.Writes (d.shortest tie).1 (d.shortest tie).2 := by
  have hnum : 0 < d.num := Nat.mul_pos hpos (Nat.two_pow_pos _)
  obtain ⟨hlow, hhigh⟩ := decimalExponent_spec hnum d.den_pos
  rw [← value_eq_div] at hlow hhigh
  exact (writes_search hd hpos hlow hhigh 18 le_rfl (by omega)).resolve_right (by omega)

end Dyadic

/-! ## Reading decimals -/

/-- The power of ten above a natural number, and the one below, by its length. -/
theorem pow_length_decimalDigits {n : Nat} (hpos : 0 < n) :
    10 ^ ((decimalDigits n).length - 1) ≤ n ∧ n < 10 ^ (decimalDigits n).length := by
  have hlength : 0 < (decimalDigits n).length := Nat.length_toDigits_pos
  refine ⟨?_, (Nat.length_toDigits_le_iff (by omega) hlength).mp le_rfl⟩
  rcases Nat.lt_or_ge 1 (decimalDigits n).length with hmore | hone
  · by_contra hlt
    have hshort : (Nat.toDigits 10 n).length ≤ (decimalDigits n).length - 1 :=
      (Nat.length_toDigits_le_iff (by omega) (by omega)).mpr (not_le.mp hlt)
    rw [← decimalDigits] at hshort
    omega
  · rw [show (decimalDigits n).length - 1 = 0 by omega, Nat.pow_zero]
    exact hpos

/-- The ends of the range of doubles between powers of ten. -/
theorem two_pow_lt_ten_pow : (2 : ℝ) ^ 53 * 2 ^ (971 : ℤ) < 10 ^ (309 : ℤ) ∧
    (10 : ℝ) ^ (-324 : ℤ) < 1 / 2 * 2 ^ (-1074 : ℤ) := by
  have htwo : (2 : ℝ) ^ (971 : ℤ) = (2 ^ 97) ^ 10 * 2 := by
    rw [← pow_mul, ← pow_succ]
    exact zpow_natCast 2 971
  have hten : (10 : ℝ) ^ (309 : ℤ) = (10 ^ 103) ^ 3 := by
    rw [← pow_mul]
    exact zpow_natCast 10 309
  have htwo' : (2 : ℝ) ^ (-1074 : ℤ) = ((2 ^ 179) ^ 6)⁻¹ := by
    rw [← pow_mul, zpow_neg]
    exact congrArg _ (zpow_natCast 2 1074)
  have hten' : (10 : ℝ) ^ (-324 : ℤ) = ((10 ^ 108) ^ 3)⁻¹ := by
    rw [← pow_mul, zpow_neg]
    exact congrArg _ (zpow_natCast 10 324)
  rw [htwo, hten, htwo', hten']
  constructor
  · norm_num
  · norm_num

/-- A decimal that rounds to a magnitude is neither far past the range of doubles nor far below
it. -/
theorem Dyadic.Near.size_bounds {d : Dyadic} {digits : Nat} {exponent : Int} (hd : d.Canonical)
    (hpos : 0 < d.mantissa) (hdigits : 0 < digits) (hnear : d.Near (digits * 10 ^ exponent)) :
    -330 ≤ ((decimalDigits digits).length : Int) + exponent ∧
      ((decimalDigits digits).length : Int) + exponent ≤ 310 := by
  obtain ⟨hlow, hhigh⟩ := pow_length_decimalDigits hdigits
  have hlength : 0 < (decimalDigits digits).length := Nat.length_toDigits_pos
  obtain ⟨k, hk⟩ : ∃ k, (decimalDigits digits).length = k + 1 :=
    ⟨(decimalDigits digits).length - 1, by omega⟩
  rw [hk, Nat.add_sub_cancel] at hlow
  rw [hk] at hhigh
  rw [hk]
  have hunit : (0 : ℝ) < 10 ^ exponent := by positivity
  have hten : (10 : ℝ) ≠ 0 := by norm_num
  have hlow' : (10 : ℝ) ^ ((k : ℤ) + exponent) ≤ digits * 10 ^ exponent := by
    rw [zpow_add₀ hten, zpow_natCast]
    exact mul_le_mul_of_nonneg_right (by exact_mod_cast hlow) hunit.le
  have hhigh' : (digits : ℝ) * 10 ^ exponent < 10 ^ ((k : ℤ) + 1 + exponent) := by
    rw [zpow_add₀ hten, ← Nat.cast_succ, zpow_natCast]
    exact mul_lt_mul_of_pos_right (by exact_mod_cast hhigh) hunit
  have hupper : d.upperEnd < 10 ^ (309 : ℤ) := by
    have hmantissa : (d.mantissa : ℝ) + 1 ≤ 2 ^ 53 := by exact_mod_cast hd.mantissa_lt
    calc d.upperEnd ≤ 2 ^ 53 * 2 ^ (971 : ℤ) :=
          mul_le_mul (by linarith) (zpow_le_zpow_right₀ one_le_two hd.exponent_le) (by positivity)
            (by positivity)
      _ < 10 ^ (309 : ℤ) := two_pow_lt_ten_pow.1
  have hlower : (10 : ℝ) ^ (-324 : ℤ) < d.lowerEnd := by
    have hmantissa : (1 : ℝ) ≤ d.mantissa := by exact_mod_cast hpos
    calc (10 : ℝ) ^ (-324 : ℤ) < 1 / 2 * 2 ^ (-1074 : ℤ) := two_pow_lt_ten_pow.2
      _ ≤ ((d.mantissa : ℝ) - 1 / 2) * 2 ^ d.exponent :=
          mul_le_mul (by linarith) (zpow_le_zpow_right₀ one_le_two hd.le_exponent) (by positivity)
            (by linarith)
      _ ≤ d.lowerEnd := d.half_sub_le_lowerEnd
  obtain ⟨hle, hge⟩ := hnear.le
  have hmax := (zpow_lt_zpow_iff_right₀ (by norm_num : (1 : ℝ) < 10)).mp
    (hlow'.trans_lt (hge.trans_lt hupper))
  have hmin := (zpow_lt_zpow_iff_right₀ (by norm_num : (1 : ℝ) < 10)).mp
    ((hlower.trans_le hle).trans hhigh')
  omega

/-- A decimal that rounds to a magnitude is read as it. -/
theorem ofFloat_nearestDecimal {d : Dyadic} {digits : Nat} {exponent : Int} (negative : Bool)
    (hd : d.Canonical) (hpos : 0 < d.mantissa) (hnear : d.Near (digits * 10 ^ exponent)) :
    Reading.ofFloat (Numeral.nearestDecimal negative digits exponent) = .finite negative d := by
  have hdigits : digits ≠ 0 := by
    rintro rfl
    have h := hnear.pos hpos
    rw [Nat.cast_zero, zero_mul] at h
    exact lt_irrefl _ h
  obtain ⟨hmin, hmax⟩ := hnear.size_bounds hd hpos (Nat.pos_of_ne_zero hdigits)
  have hsize : (Numeral.nearestDecimal.decimalLength digits : Int) + exponent =
      ((decimalDigits digits).length : Int) + exponent := rfl
  have hpow := natCast_zpow_eq_div (b := 10) (by decide) exponent
  rw [Nat.cast_ofNat] at hpow
  rw [Numeral.nearestDecimal]
  simp only [hsize]
  rw [if_neg (by omega), if_neg (by omega)]
  refine ofFloat_nearestFloat negative hd hpos (Nat.pow_pos (by decide)) ?_
  rw [Nat.cast_mul, mul_div_assoc, ← hpow]
  exact hnear

/-! ## Texts of decimals -/

/-- Digits, with or without more digits behind a point, and the decimal that they write.  A zero in
front stands alone or before the point. -/
inductive DecimalText : List Char → Nat → Int → Prop where
  | zero : DecimalText ['0'] 0 0
  | whole {digits : List Char} (hne : digits ≠ []) (hdigits : AllDigits digits)
      (hhead : digits.head? ≠ some '0') : DecimalText digits (Numeral.ofDigits digits) 0
  | pointed {digits fraction : List Char} (hne : digits ≠ []) (hdigits : AllDigits digits)
      (hfraction : AllDigits fraction) :
      DecimalText (digits ++ '.' :: fraction) (Numeral.ofDigits (digits ++ fraction))
        (-(fraction.length : Int))

theorem DecimalText.isPositional {cs : List Char} {digits : Nat} {exponent : Int}
    (h : DecimalText cs digits exponent) : IsPositional cs := by
  cases h with
  | zero => exact .whole (List.cons_ne_nil _ _) (by simp [AllDigits])
  | whole hne hdigits _ => exact .whole hne hdigits
  | pointed hne hdigits hfraction => exact .pointed hne hdigits hfraction

/-- The text of a decimal is read as the double nearest to it. -/
theorem DecimalText.readDouble?_eq {cs : List Char} {digits : Nat} {exponent : Int}
    (h : DecimalText cs digits exponent) :
    readDouble? cs = some (Numeral.nearestDecimal false digits exponent) := by
  have hscan : Numeral.scan? cs = some (.decimal false digits exponent) := by
    obtain ⟨c, rest, hcs, hc⟩ := h.isPositional.head
    have hsign : Numeral.scan? cs = Numeral.scanUnsigned? false cs := by
      rw [hcs, ← Numeral.scan?_signText false hc]
      rfl
    rw [hsign]
    have hends : Numeral.EndsDigits [] := fun _ hc => absurd hc (by simp)
    cases h with
    | zero => rfl
    | whole hne hdigits _ =>
      have h := Numeral.scanUnsigned?_whole false hne hdigits hends
      rwa [List.append_nil] at h
    | pointed hne hdigits hfraction =>
      have h := Numeral.scanUnsigned?_pointed false hne hdigits hfraction hends
      rw [List.append_nil] at h
      rw [h]
      simp [Numeral.scanExponent?]
  rw [readDouble?, hscan]
  rfl

/-- Digits in positional notation write the decimal that they are laid out for. -/
theorem exists_decimalText_layPositional {n count : Nat} (hpos : 0 < n)
    (hlength : (decimalDigits n).length = count) (exponent : Int) :
    ∃ digits shift, DecimalText (Style.plain.layPositional (decimalDigits n) count exponent)
        digits shift ∧ (digits : ℝ) * 10 ^ shift = n * 10 ^ (exponent - count + 1) := by
  have hall := allDigits_decimalDigits n
  have hvalue := Numeral.ofDigits_decimalDigits n
  have hhead := head?_decimalDigits_ne hpos
  have hne := decimalDigits_ne_nil n
  generalize decimalDigits n = cs at hlength hall hvalue hhead hne
  rw [Style.layPositional]
  split
  · -- All digits are behind the point.
    rename_i hneg
    refine ⟨_, _, @DecimalText.pointed ['0'] _ (List.cons_ne_nil _ _) (by simp [AllDigits])
      (allDigits_append.mpr ⟨allDigits_replicate_zero _, hall⟩), ?_⟩
    have hdigits : Numeral.ofDigits (['0'] ++ (List.replicate (-exponent - 1).toNat '0' ++ cs)) =
        n := by
      rw [← List.append_assoc, ← List.replicate_one, ← List.replicate_add,
        Numeral.ofDigits_append, Numeral.ofDigits_replicate_zero, hvalue, Nat.zero_mul,
        Nat.zero_add]
    have hshift : -((List.replicate (-exponent - 1).toNat '0' ++ cs).length : Int) =
        exponent - count + 1 := by
      rw [List.length_append, List.length_replicate, hlength]
      omega
    rw [hdigits, hshift]
  · rename_i hnonneg
    dsimp only
    split
    · -- Zeros fill the places up to the point.
      rename_i hle
      have hplain : Style.plain.wholePoint = false := rfl
      rw [hplain, if_neg (by decide), List.append_nil]
      refine ⟨_, _, .whole (List.append_ne_nil_of_left_ne_nil hne _)
        (allDigits_append.mpr ⟨hall, allDigits_replicate_zero _⟩) ?_, ?_⟩
      · rw [List.head?_append_of_ne_nil _ hne]
        exact hhead
      · have hexponent : exponent - count + 1 = ((exponent.toNat + 1 - count : ℕ) : ℤ) := by omega
        rw [Numeral.ofDigits_append, Numeral.ofDigits_replicate_zero, hvalue, List.length_replicate,
          Nat.add_zero, hexponent, zpow_natCast, zpow_zero, mul_one]
        push_cast
        rfl
    · rename_i hlt
      have hdrop : ((cs.drop (exponent.toNat + 1)).length : Int) = count - (exponent + 1) := by
        rw [List.length_drop, hlength]
        omega
      refine ⟨_, _, .pointed ?_ (fun c hc => hall c (List.mem_of_mem_take hc))
        (fun c hc => hall c (List.mem_of_mem_drop hc)), ?_⟩
      · intro hempty
        have hlen := congrArg List.length hempty
        rw [List.length_take, List.length_nil] at hlen
        omega
      · have hexponent : -((count : Int) - (exponent + 1)) = exponent - count + 1 := by ring
        rw [List.take_append_drop, hvalue, hdrop, hexponent]

/-! ## Texts of constants -/

/-- A natural number of at most fifty-three binary digits is read exactly. -/
theorem realOf_nearestDecimal_natCast {n : Nat} (hn : n < 2 ^ 53) :
    realOf (Numeral.nearestDecimal false n 0) = n ∧
      (Numeral.nearestDecimal false n 0).isFinite = true := by
  rcases Nat.eq_zero_or_pos n with rfl | hpos
  · rw [Nat.cast_zero]
    exact ⟨realOf_zero, Reading.isFinite_iff.mpr ⟨_, _, ofFloat_zero⟩⟩
  · obtain ⟨d, hd, hmantissa, hvalue⟩ := exists_canonical_value_eq hpos (by omega)
    have hnear : d.Near (n * 10 ^ (0 : ℤ)) := by
      rw [zpow_zero, mul_one, ← hvalue]
      exact d.near_value
    have hread := ofFloat_nearestDecimal false hd hmantissa hnear
    refine ⟨?_, Reading.isFinite_iff.mpr ⟨_, _, hread⟩⟩
    rw [realOf_of_ofFloat hread, signedValue, if_neg (by decide), hvalue]

/-- The digits of a natural number write it. -/
theorem decimalText_decimalDigits (n : Nat) : DecimalText (decimalDigits n) n 0 := by
  rcases Nat.eq_zero_or_pos n with rfl | hpos
  · exact .zero
  · have h := DecimalText.whole (decimalDigits_ne_nil n) (allDigits_decimalDigits n)
      (head?_decimalDigits_ne hpos)
    rwa [Numeral.ofDigits_decimalDigits] at h

/-- The sign of a double's real number is its sign bit, unless the double is a zero. -/
theorem signedValue_neg_iff {negative : Bool} {d : Dyadic} (hpos : 0 < d.mantissa) :
    signedValue negative d < 0 ↔ negative = true := by
  have hvalue := Dyadic.value_pos hpos
  rw [signedValue]
  split
  · rename_i hneg
    exact iff_of_true (by linarith) hneg
  · rename_i hneg
    exact iff_of_false (by linarith) hneg

/-- **Texts of constants.**  The text of a finite constant is a minus, if the constant is negative,
and a decimal that is read as its absolute value. -/
theorem exists_decimalText_constantText {v : Float} (hv : v.isFinite = true) :
    ∃ negative cs digits shift,
      (Formula.constantText Style.plain.text v).toList = signText negative ++ cs ∧
        DecimalText cs digits shift ∧ (negative = true ↔ realOf v < 0) ∧
        realOf (Numeral.nearestDecimal false digits shift) = |realOf v| ∧
        (Numeral.nearestDecimal false digits shift).isFinite = true := by
  rw [Formula.constantText]
  by_cases hint : Scalar.isInteger v = true
  · obtain ⟨hreal, hsmall, -⟩ := realOf_eq_toInt hint
    rw [if_pos hint, integerText, integerDigits, String.toList_ofList]
    obtain ⟨hvalue, hfinite⟩ := realOf_nearestDecimal_natCast (hsmall.trans (by decide))
    refine ⟨_, _, _, _, rfl, decimalText_decimalDigits _, ?_, ?_, hfinite⟩
    · rw [decide_eq_true_iff, hreal]
      exact_mod_cast Iff.rfl
    · rw [hvalue, hreal, ← Int.cast_abs, Nat.cast_natAbs]
  · obtain ⟨negative, d, hread⟩ := Reading.isFinite_iff.mp hv
    have hd := Reading.canonical_of_ofFloat hread
    have hpos : 0 < d.mantissa := by
      by_contra hzero
      refine hint (isInteger_of_realOf_eq (n := 0) hv (by decide) ?_)
      rw [realOf_of_ofFloat hread, signedValue, Dyadic.value_of_mantissa_eq_zero (by omega),
        neg_zero, ite_self, Int.cast_zero]
    obtain ⟨hcount, hlow, hhigh, hnear⟩ := d.shortest_spec hd hpos Style.plain.tie
    have hdigits : 0 < (d.shortest Style.plain.tie).1.digits :=
      lt_of_lt_of_le (Nat.pow_pos (by decide)) hlow
    obtain ⟨digits, shift, htext, hdecimal⟩ := exists_decimalText_layPositional hdigits
      (length_decimalDigits_eq hcount hlow hhigh) (d.shortest Style.plain.tie).1.exponent
    have hmagnitude : Style.plain.magnitude d = Style.plain.layPositional
        (decimalDigits (d.shortest Style.plain.tie).1.digits) (d.shortest Style.plain.tie).2
        (d.shortest Style.plain.tie).1.exponent := by
      rw [Style.magnitude, if_neg (by omega)]
      rfl
    rw [← hdecimal] at hnear
    have hnearest := ofFloat_nearestDecimal false hd hpos hnear
    refine ⟨negative, _, digits, shift, ?_, htext, ?_, ?_,
      Reading.isFinite_iff.mpr ⟨_, _, hnearest⟩⟩
    · rw [if_neg hint, Style.text, hread]
      dsimp only
      rw [String.toList_ofList, hmagnitude]
    · rw [realOf_of_ofFloat hread, signedValue_neg_iff hpos]
    · rw [realOf_of_ofFloat hnearest, ← realOf_abs hv,
        realOf_of_ofFloat (Reading.ofFloat_abs hread)]

end SphereLab
