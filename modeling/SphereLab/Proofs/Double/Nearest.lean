import Mathlib
import SphereLab.Proofs.Double.Value
import SphereLab.Scalar

/-!
# The double nearest to a quotient

Around every canonical magnitude lie the reals that round to it: up to half a unit of its last
place on either side, a quarter below a power of two, and the ends as well if the mantissa is
even.  A quotient of natural numbers that lies there is rounded to that magnitude.

* `roundHalfEven_eq`: the nearest natural number to a quotient.
* `Dyadic.Near`: the reals that round to a magnitude.
* `nearestMagnitude_eq`: the scale of a quotient, and its significand there.
* `ofFloat_nearestMagnitude`: a quotient near a magnitude is rounded to it.
* `realOf_doubleOfInt`: an integer of at most fifty-three binary digits is a double.
* `realOf_eq_toInt`, `isInteger_of_realOf_eq`: the test for small integers is exact.
-/

namespace SphereLab

/-! ## Rounding a quotient -/

/-- The natural number within half a unit of a quotient, where an even one may be half a unit
away. -/
theorem roundHalfEven_eq {num den n : Nat} (hden : 0 < den)
    (hlower : 2 * n * den < 2 * num + den ∨ n % 2 = 0 ∧ 2 * n * den = 2 * num + den)
    (hupper : 2 * num < 2 * n * den + den ∨ n % 2 = 0 ∧ 2 * num = 2 * n * den + den) :
    roundHalfEven num den = n := by
  have hdiv := Nat.div_add_mod num den
  have hmod := Nat.mod_lt num hden
  rw [roundHalfEven]
  generalize num / den = quotient at hdiv ⊢
  generalize num % den = rest at hdiv hmod ⊢
  have hle : quotient ≤ n := by
    by_contra hlt
    have hmul : (n + 1) * den ≤ quotient * den := Nat.mul_le_mul_right den (by omega)
    have hexpand : (n + 1) * den = n * den + den := by ring
    have hcomm : den * quotient = quotient * den := Nat.mul_comm _ _
    have hassoc : 2 * n * den = 2 * (n * den) := Nat.mul_assoc 2 n den
    omega
  have hge : n ≤ quotient + 1 := by
    by_contra hlt
    have hmul : (quotient + 2) * den ≤ n * den := Nat.mul_le_mul_right den (by omega)
    have hexpand : (quotient + 2) * den = den * quotient + 2 * den := by ring
    have hassoc : 2 * n * den = 2 * (n * den) := Nat.mul_assoc 2 n den
    omega
  rcases Nat.lt_or_ge quotient n with hlt | hge'
  · have hn : n = quotient + 1 := by omega
    subst hn
    have hexpand : 2 * (quotient + 1) * den = 2 * (den * quotient) + 2 * den := by ring
    rw [if_neg (by omega)]
    split
    · rfl
    · omega
  · have hn : n = quotient := by omega
    subst hn
    have hexpand : 2 * n * den = 2 * (den * n) := by ring
    split
    · rfl
    · rw [if_neg (by omega)]
      omega

/-- Rounding in terms of real numbers. -/
theorem roundHalfEven_eq_of_abs {num den n : Nat} (hden : 0 < den)
    (h : |(num : ℝ) / den - n| < 1 / 2 ∨ n % 2 = 0 ∧ |(num : ℝ) / den - n| ≤ 1 / 2) :
    roundHalfEven num den = n := by
  have hden' : (0 : ℝ) < den := by exact_mod_cast hden
  have hdist : |(num : ℝ) / den - n| = |(num : ℝ) - n * den| / den := by
    rw [← abs_of_pos hden', ← abs_div, abs_of_pos hden', sub_div,
      mul_div_cancel_right₀ _ (ne_of_gt hden')]
  rw [hdist, div_lt_iff₀ hden', div_le_iff₀ hden', abs_lt, abs_le] at h
  refine roundHalfEven_eq hden ?_ ?_
  · rcases h with ⟨hlow, _⟩ | ⟨heven, hlow, _⟩
    · left
      have hreal : (2 * n * den : ℝ) < 2 * num + den := by linarith
      exact_mod_cast hreal
    · have hreal : (2 * n * den : ℝ) ≤ 2 * num + den := by linarith
      have hnat : 2 * n * den ≤ 2 * num + den := by exact_mod_cast hreal
      rcases Nat.lt_or_eq_of_le hnat with hlt | heq
      · exact Or.inl hlt
      · exact Or.inr ⟨heven, heq⟩
  · rcases h with ⟨_, hup⟩ | ⟨heven, _, hup⟩
    · left
      have hreal : (2 * num : ℝ) < 2 * n * den + den := by linarith
      exact_mod_cast hreal
    · have hreal : (2 * num : ℝ) ≤ 2 * n * den + den := by linarith
      have hnat : 2 * num ≤ 2 * n * den + den := by exact_mod_cast hreal
      rcases Nat.lt_or_eq_of_le hnat with hlt | heq
      · exact Or.inl hlt
      · exact Or.inr ⟨heven, heq⟩

/-! ## The scale of a quotient -/

/-- The ends of the binade of a quotient, from the binary lengths of its parts. -/
theorem two_zpow_log2_sub_le {num den : Nat} (hnum : num ≠ 0) (hden : den ≠ 0) :
    (2 : ℝ) ^ ((num.log2 : ℤ) - den.log2 - 1) ≤ num / den ∧
      (num / den : ℝ) < 2 ^ ((num.log2 : ℤ) - den.log2 + 1) := by
  have hden' : (0 : ℝ) < den := by exact_mod_cast Nat.pos_of_ne_zero hden
  have hnumle : (2 : ℝ) ^ (num.log2 : ℤ) ≤ num := by
    rw [zpow_natCast]
    exact_mod_cast Nat.log2_self_le hnum
  have hnumlt : (num : ℝ) < 2 ^ ((num.log2 : ℤ) + 1) := by
    rw [← Nat.cast_succ, zpow_natCast]
    exact_mod_cast Nat.lt_log2_self
  have hdenle : (2 : ℝ) ^ (den.log2 : ℤ) ≤ den := by
    rw [zpow_natCast]
    exact_mod_cast Nat.log2_self_le hden
  have hdenlt : (den : ℝ) < 2 ^ ((den.log2 : ℤ) + 1) := by
    rw [← Nat.cast_succ, zpow_natCast]
    exact_mod_cast Nat.lt_log2_self
  constructor
  · rw [le_div_iff₀ hden']
    calc (2 : ℝ) ^ ((num.log2 : ℤ) - den.log2 - 1) * den
        ≤ 2 ^ ((num.log2 : ℤ) - den.log2 - 1) * 2 ^ ((den.log2 : ℤ) + 1) :=
          mul_le_mul_of_nonneg_left hdenlt.le (by positivity)
      _ = 2 ^ (num.log2 : ℤ) := by
          rw [← zpow_add₀ two_ne_zero]
          congr 1
          ring
      _ ≤ num := hnumle
  · rw [div_lt_iff₀ hden']
    calc (num : ℝ) < 2 ^ ((num.log2 : ℤ) + 1) := hnumlt
      _ = 2 ^ ((num.log2 : ℤ) - den.log2 + 1) * 2 ^ (den.log2 : ℤ) := by
          rw [← zpow_add₀ two_ne_zero]
          congr 1
          ring
      _ ≤ 2 ^ ((num.log2 : ℤ) - den.log2 + 1) * den :=
          mul_le_mul_of_nonneg_left hdenle (by positivity)

/-- Scaling by a power of two, on the side where it is a natural number. -/
theorem div_mul_two_pow (num den : Nat) (q : Int) :
    (if 0 ≤ q then (num : ℝ) / ((den * Nat.pow 2 q.toNat : Nat) : ℝ)
      else ((num * Nat.pow 2 (-q).toNat : Nat) : ℝ) / den) = num / den / 2 ^ q := by
  split
  · rename_i hq
    obtain ⟨k, rfl⟩ := Int.eq_ofNat_of_zero_le hq
    rw [Int.toNat_natCast, Nat.pow_eq, Nat.cast_mul, Nat.cast_pow, Nat.cast_ofNat, zpow_natCast,
      div_div]
  · rename_i hq
    obtain ⟨k, rfl⟩ : ∃ k : Nat, q = -(k : Int) := ⟨(-q).toNat, by omega⟩
    rw [Int.neg_neg, Int.toNat_natCast, Nat.pow_eq, Nat.cast_mul, Nat.cast_pow, Nat.cast_ofNat,
      zpow_neg, zpow_natCast, div_inv_eq_mul, div_mul_eq_mul_div]

/-- The nearest double is made of the quotient in units of its last place, rounded. -/
theorem nearestMagnitude_eq {num den : Nat} (hnum : num ≠ 0) (hden : 0 < den) :
    ∃ (binade : Int) (a b : Nat), 0 < b ∧ (2 : ℝ) ^ binade ≤ num / den ∧
      (num / den : ℝ) < 2 ^ (binade + 1) ∧
      (a / b : ℝ) = num / den / 2 ^ max (binade - 52) (-1074) ∧
      nearestMagnitude num den =
        .ofBits (packBits (roundHalfEven a b) (max (binade - 52) (-1074))) := by
  obtain ⟨hlow, hhigh⟩ := two_zpow_log2_sub_le hnum (Nat.pos_iff_ne_zero.mp hden)
  generalize hguess : (num.log2 : Int) - den.log2 = guess at hlow hhigh
  have hbelow : (if 0 ≤ guess then decide (num < den * Nat.pow 2 guess.toNat)
      else decide (num * Nat.pow 2 (-guess).toNat < den)) = true ↔ (num / den : ℝ) < 2 ^ guess := by
    have hden' : (0 : ℝ) < den := by exact_mod_cast hden
    have hscale := div_mul_two_pow num den guess
    rw [← div_lt_one (by positivity : (0 : ℝ) < 2 ^ guess), ← hscale]
    split
    · have hpos : 0 < den * Nat.pow 2 guess.toNat := Nat.mul_pos hden (Nat.two_pow_pos _)
      rw [decide_eq_true_iff, div_lt_one (by exact_mod_cast hpos)]
      exact_mod_cast Iff.rfl
    · rw [decide_eq_true_iff, div_lt_one hden']
      exact_mod_cast Iff.rfl
  generalize htest : (if 0 ≤ guess then decide (num < den * Nat.pow 2 guess.toNat)
      else decide (num * Nat.pow 2 (-guess).toNat < den)) = below at hbelow
  generalize hbinade : (if below = true then guess - 1 else guess) = binade
  generalize hq : max (binade - 52) (-1074) = q
  have hbounds : (2 : ℝ) ^ binade ≤ num / den ∧ (num / den : ℝ) < 2 ^ (binade + 1) := by
    rw [← hbinade]
    split
    · rename_i h
      rw [Int.sub_add_cancel]
      exact ⟨hlow, hbelow.mp h⟩
    · rename_i h
      exact ⟨not_lt.mp (mt hbelow.mpr h), hhigh⟩
  have heq : nearestMagnitude num den = .ofBits (packBits
      (if 0 ≤ q then roundHalfEven num (den * Nat.pow 2 q.toNat)
        else roundHalfEven (num * Nat.pow 2 (-q).toNat) den) q) := by
    rw [nearestMagnitude, if_neg hnum]
    simp only [hguess, htest, hbinade, hq]
  have hscale := div_mul_two_pow num den q
  by_cases hsign : 0 ≤ q
  · rw [if_pos hsign] at hscale heq
    refine ⟨binade, num, den * Nat.pow 2 q.toNat, Nat.mul_pos hden (Nat.two_pow_pos _), hbounds.1,
      hbounds.2, ?_, ?_⟩
    · rw [hq, hscale]
    · rw [hq, heq]
  · rw [if_neg hsign] at hscale heq
    refine ⟨binade, num * Nat.pow 2 (-q).toNat, den, hden, hbounds.1, hbounds.2, ?_, ?_⟩
    · rw [hq, hscale]
    · rw [hq, heq]

/-! ## The reals that round to a magnitude -/

namespace Dyadic

/-- Half a unit below a magnitude, or a quarter where the doubles below are twice as dense. -/
noncomputable def lowerEnd (d : Dyadic) : ℝ :=
  (if d.mantissa = 2 ^ 52 ∧ -1074 < d.exponent then (d.mantissa : ℝ) - 1 / 4
    else d.mantissa - 1 / 2) * 2 ^ d.exponent

/-- Half a unit above a magnitude. -/
noncomputable def upperEnd (d : Dyadic) : ℝ := ((d.mantissa : ℝ) + 1 / 2) * 2 ^ d.exponent

/-- The reals that round to a magnitude: those between its ends, and the ends as well if the
mantissa is even. -/
def Near (d : Dyadic) (x : ℝ) : Prop :=
  if d.mantissa % 2 = 0 then d.lowerEnd ≤ x ∧ x ≤ d.upperEnd else d.lowerEnd < x ∧ x < d.upperEnd

variable {d : Dyadic} {x : ℝ}

theorem Near.le (h : d.Near x) : d.lowerEnd ≤ x ∧ x ≤ d.upperEnd := by
  rw [Near] at h
  split at h
  · exact h
  · exact ⟨h.1.le, h.2.le⟩

theorem Near.lt (h : d.Near x) (hodd : d.mantissa % 2 ≠ 0) : d.lowerEnd < x ∧ x < d.upperEnd := by
  rwa [Near, if_neg hodd] at h

theorem near_of_lt (hlower : d.lowerEnd < x) (hupper : x < d.upperEnd) : d.Near x := by
  rw [Near]
  split
  · exact ⟨hlower.le, hupper.le⟩
  · exact ⟨hlower, hupper⟩

theorem half_sub_le_lowerEnd (d : Dyadic) :
    ((d.mantissa : ℝ) - 1 / 2) * 2 ^ d.exponent ≤ d.lowerEnd := by
  rw [lowerEnd]
  refine mul_le_mul_of_nonneg_right ?_ (by positivity)
  split <;> linarith

theorem lowerEnd_lt_value (d : Dyadic) : d.lowerEnd < d.value := by
  rw [lowerEnd, value]
  refine mul_lt_mul_of_pos_right ?_ (by positivity)
  split <;> linarith

theorem value_lt_upperEnd (d : Dyadic) : d.value < d.upperEnd := by
  rw [upperEnd, value]
  exact mul_lt_mul_of_pos_right (by linarith) (by positivity)

/-- A magnitude rounds to itself. -/
theorem near_value (d : Dyadic) : d.Near d.value :=
  near_of_lt d.lowerEnd_lt_value d.value_lt_upperEnd

/-- A real that rounds to a magnitude is positive, if the magnitude is. -/
theorem Near.pos (h : d.Near x) (hpos : 0 < d.mantissa) : 0 < x := by
  have hmantissa : (1 : ℝ) ≤ d.mantissa := by exact_mod_cast hpos
  have hhalf : 0 < ((d.mantissa : ℝ) - 1 / 2) * 2 ^ d.exponent :=
    mul_pos (by linarith) (by positivity)
  exact lt_of_lt_of_le hhalf (d.half_sub_le_lowerEnd.trans h.le.1)

/-- In units of its last place, what rounds to a magnitude is within half a unit of it. -/
theorem Near.abs_sub_le (h : d.Near x) :
    |x / 2 ^ d.exponent - d.mantissa| < 1 / 2 ∨
      d.mantissa % 2 = 0 ∧ |x / 2 ^ d.exponent - d.mantissa| ≤ 1 / 2 := by
  have hunit : (0 : ℝ) < 2 ^ d.exponent := by positivity
  have hhalf := d.half_sub_le_lowerEnd
  by_cases heven : d.mantissa % 2 = 0
  · obtain ⟨hlower, hupper⟩ := h.le
    have hlow := (le_div_iff₀ hunit).mpr (hhalf.trans hlower)
    have hup := (div_le_iff₀ hunit).mpr hupper
    exact Or.inr ⟨heven, abs_le.mpr ⟨by linarith, by linarith⟩⟩
  · obtain ⟨hlower, hupper⟩ := h.lt heven
    have hlow := (lt_div_iff₀ hunit).mpr (lt_of_le_of_lt hhalf hlower)
    have hup := (div_lt_iff₀ hunit).mpr hupper
    exact Or.inl (abs_lt.mpr ⟨by linarith, by linarith⟩)

end Dyadic

/-! ## Rounding to a magnitude -/

/-- A real that rounds to a magnitude lies below the double of its binade. -/
theorem Dyadic.Near.binade_lt {d : Dyadic} {x : ℝ} {binade : Int} (hnear : d.Near x)
    (hd : d.Canonical) (hlow : (2 : ℝ) ^ binade ≤ x) : binade < d.exponent + 53 := by
  have hunit : (0 : ℝ) < 2 ^ d.exponent := by positivity
  have hmantissa : (d.mantissa : ℝ) + 1 ≤ 2 ^ 53 := by exact_mod_cast hd.1
  have hx : x < 2 ^ (d.exponent + 53) := by
    calc x ≤ ((d.mantissa : ℝ) + 1 / 2) * 2 ^ d.exponent := hnear.le.2
      _ < 2 ^ 53 * 2 ^ d.exponent := mul_lt_mul_of_pos_right (by linarith) hunit
      _ = 2 ^ (d.exponent + 53) := by
        rw [zpow_add₀ two_ne_zero, mul_comm]
        norm_num
  exact (zpow_lt_zpow_iff_right₀ one_lt_two).mp (lt_of_le_of_lt hlow hx)

/-- A real that rounds to a magnitude is not much below it. -/
theorem Dyadic.Near.half_sub_le {d : Dyadic} {x : ℝ} (hnear : d.Near x) :
    ((d.mantissa : ℝ) - 1 / 2) * 2 ^ d.exponent ≤ x :=
  d.half_sub_le_lowerEnd.trans hnear.le.1

/-- A real that rounds to a magnitude with all its places lies above half of its binade. -/
theorem Dyadic.Near.lt_binade {d : Dyadic} {x : ℝ} {binade : Int} (hnear : d.Near x)
    (hfull : 2 ^ 52 ≤ d.mantissa) (hhigh : x < 2 ^ (binade + 1)) :
    d.exponent + 51 < binade + 1 := by
  have hunit : (0 : ℝ) < 2 ^ d.exponent := by positivity
  have hmantissa : (2 : ℝ) ^ 52 ≤ d.mantissa := by exact_mod_cast hfull
  have hx : (2 : ℝ) ^ (d.exponent + 51) < 2 ^ (binade + 1) := by
    calc (2 : ℝ) ^ (d.exponent + 51) = 2 ^ 51 * 2 ^ d.exponent := by
          rw [zpow_add₀ two_ne_zero, mul_comm]
          norm_num
      _ ≤ ((d.mantissa : ℝ) - 1 / 2) * 2 ^ d.exponent :=
          mul_le_mul_of_nonneg_right (by linarith) hunit.le
      _ ≤ x := hnear.half_sub_le
      _ < 2 ^ (binade + 1) := hhigh
  exact (zpow_lt_zpow_iff_right₀ one_lt_two).mp hx

/-- A real that rounds to a magnitude has its last place at the exponent of the magnitude, or just
below it, if it lies below a power of two. -/
theorem Dyadic.Near.scale_eq {d : Dyadic} {x : ℝ} {binade : Int} (hnear : d.Near x)
    (hd : d.Canonical) (hpos : 0 < d.mantissa) (hlow : (2 : ℝ) ^ binade ≤ x)
    (hhigh : x < 2 ^ (binade + 1)) :
    max (binade - 52) (-1074) = d.exponent ∨
      max (binade - 52) (-1074) = d.exponent - 1 ∧ d.mantissa = 2 ^ 52 ∧ -1074 < d.exponent ∧
        x < d.value := by
  have hunder := hnear.binade_lt hd hlow
  obtain ⟨hlt, hle, hmax, hnormal⟩ := hd
  have hunit : (0 : ℝ) < 2 ^ d.exponent := by positivity
  rcases eq_or_ne (max (binade - 52) (-1074)) d.exponent with heq | hne
  · exact Or.inl heq
  · right
    have hbinade : binade + 1 ≤ d.exponent + 52 := by omega
    have hexponent : -1074 < d.exponent := by omega
    have hfull : 2 ^ 52 ≤ d.mantissa := by omega
    have hx : x < 2 ^ 52 * 2 ^ d.exponent := by
      calc x < 2 ^ (binade + 1) := hhigh
        _ ≤ 2 ^ (d.exponent + 52) := zpow_le_zpow_right₀ one_le_two hbinade
        _ = 2 ^ 52 * 2 ^ d.exponent := by
          rw [zpow_add₀ two_ne_zero, mul_comm]
          norm_num
    have hmantissa : d.mantissa = 2 ^ 52 := by
      by_contra hmore
      have hmore' : (2 : ℝ) ^ 52 + 1 ≤ d.mantissa := by
        have hnat : 2 ^ 52 + 1 ≤ d.mantissa := by omega
        exact_mod_cast hnat
      have hover : 2 ^ 52 * (2 : ℝ) ^ d.exponent < (d.mantissa - 1 / 2) * 2 ^ d.exponent :=
        mul_lt_mul_of_pos_right (by linarith) hunit
      have hlower := hnear.half_sub_le
      linarith
    have hbinade' := hnear.lt_binade hfull hhigh
    refine ⟨by omega, hmantissa, hexponent, ?_⟩
    rw [Dyadic.value, hmantissa]
    exact_mod_cast hx

/-- The bits of a magnitude, packed from its own significand and exponent or from the significand
just below a power of two that is rounded up. -/
theorem toNat_packBits {significand : Nat} {exponent : Int} {d : Dyadic} (hd : d.Canonical)
    (h : (exponent + 1074).toNat * 2 ^ 52 + significand = d.ordinal) :
    (packBits significand exponent).toNat = d.ordinal := by
  obtain ⟨hlt, hle, hmax, hnormal⟩ := hd
  have hordinal : d.ordinal < 2047 * 2 ^ 52 := by
    rw [Dyadic.ordinal]
    omega
  have hsize : UInt64.size = 2 ^ 64 := rfl
  rw [packBits, Nat.pow_eq, h, if_pos hordinal]
  exact UInt64.toNat_ofNat_of_lt' (by omega)

/-- A quotient that rounds to a magnitude is rounded to it. -/
theorem ofFloat_nearestMagnitude {num den : Nat} {d : Dyadic} (hd : d.Canonical)
    (hpos : 0 < d.mantissa) (hden : 0 < den) (hnear : d.Near (num / den)) :
    Reading.ofFloat (nearestMagnitude num den) = .finite false d := by
  have hnum : num ≠ 0 := by
    rintro rfl
    have h := hnear.pos hpos
    rw [Nat.cast_zero, zero_div] at h
    exact lt_irrefl _ h
  obtain ⟨binade, a, b, hb, hlow, hhigh, hquotient, heq⟩ := nearestMagnitude_eq hnum hden
  rw [heq]
  refine Reading.ofFloat_ofBits hd ?_
  rw [Bool.toNat_false, Nat.zero_mul, Nat.zero_add]
  refine toNat_packBits hd ?_
  rcases hnear.scale_eq hd hpos hlow hhigh with hscale | ⟨hscale, hmantissa, hexponent, hbelow⟩
  · rw [hscale] at hquotient ⊢
    rw [roundHalfEven_eq_of_abs hb (hquotient ▸ hnear.abs_sub_le), Dyadic.ordinal]
  · -- Just below a power of two the significand is rounded up to fifty-four digits.
    have hcarry : roundHalfEven a b = 2 ^ 53 := by
      have hunit : (0 : ℝ) < 2 ^ (d.exponent - 1) := by positivity
      have hdouble : (2 : ℝ) ^ d.exponent = 2 * 2 ^ (d.exponent - 1) := by
        rw [← zpow_one_add₀ two_ne_zero]
        congr 1
        ring
      have hlower : ((2 : ℝ) ^ 53 - 1 / 2) ≤ a / b := by
        have h := hnear.le.1
        rw [Dyadic.lowerEnd, if_pos ⟨hmantissa, hexponent⟩, hmantissa, hdouble] at h
        rw [hquotient, hscale, le_div_iff₀ hunit]
        push_cast at h
        linarith
      have hupper : (a / b : ℝ) ≤ 2 ^ 53 := by
        rw [Dyadic.value, hmantissa, hdouble] at hbelow
        rw [hquotient, hscale, div_le_iff₀ hunit]
        push_cast at hbelow
        linarith
      refine roundHalfEven_eq_of_abs hb (Or.inr ⟨by norm_num, ?_⟩)
      rw [abs_le]
      push_cast
      exact ⟨by linarith, by linarith⟩
    rw [hscale, hcarry, Dyadic.ordinal, hmantissa]
    omega

/-- The nearest double keeps the sign of the quotient. -/
theorem ofFloat_nearestFloat {num den : Nat} {d : Dyadic} (negative : Bool) (hd : d.Canonical)
    (hpos : 0 < d.mantissa) (hden : 0 < den) (hnear : d.Near (num / den)) :
    Reading.ofFloat (nearestFloat negative num den) = .finite negative d := by
  have hmagnitude := ofFloat_nearestMagnitude hd hpos hden hnear
  rw [nearestFloat]
  cases negative with
  | false =>
    rw [if_neg (by decide)]
    exact hmagnitude
  | true =>
    rw [if_pos rfl]
    exact Reading.ofFloat_neg hmagnitude

/-! ## Integers -/

/-- A natural number of at most fifty-three binary digits is the value of a canonical magnitude. -/
theorem exists_canonical_value_eq {n : Nat} (hpos : 0 < n) (hlt : n < 2 ^ 53) :
    ∃ d : Dyadic, d.Canonical ∧ 0 < d.mantissa ∧ d.value = n := by
  have hlog : n.log2 < 53 := (Nat.log2_lt (by omega)).mpr hlt
  obtain ⟨k, hk⟩ : ∃ k, n.log2 + k = 52 := ⟨52 - n.log2, by omega⟩
  have hlog' : (n * 2 ^ k).log2 = 52 := by
    rw [Reading.log2_mul_two_pow (by omega), hk]
  have hne : n * 2 ^ k ≠ 0 := Nat.mul_ne_zero (by omega) (by positivity)
  have hupper : n * 2 ^ k < 2 ^ 53 := (Nat.log2_lt hne).mp (by omega)
  have hlower : 2 ^ 52 ≤ n * 2 ^ k := (Nat.le_log2 hne).mp (by omega)
  refine ⟨⟨n * 2 ^ k, -k⟩, ⟨hupper, ?_, ?_, Or.inl hlower⟩, Nat.pos_of_ne_zero hne, ?_⟩
  · dsimp only
    omega
  · dsimp only
    omega
  · rw [Dyadic.value, zpow_neg, zpow_natCast]
    push_cast
    exact mul_inv_cancel_right₀ (by positivity) _

/-- Such a number is the nearest double to itself. -/
theorem exists_ofFloat_nearestFloat_eq {n : Nat} (hpos : 0 < n) (hlt : n < 2 ^ 53)
    (negative : Bool) :
    ∃ d : Dyadic, d.value = n ∧ Reading.ofFloat (nearestFloat negative n 1) = .finite negative d := by
  obtain ⟨d, hd, hmantissa, hvalue⟩ := exists_canonical_value_eq hpos hlt
  have hnear : d.Near ((n : Nat) / (1 : Nat)) := by
    rw [Nat.cast_one, div_one, ← hvalue]
    exact d.near_value
  exact ⟨d, hvalue, ofFloat_nearestFloat negative hd hmantissa Nat.one_pos hnear⟩

theorem ofFloat_zero : Reading.ofFloat 0.0 = .finite false ⟨0, -1074⟩ := by decide +kernel

theorem realOf_zero : realOf 0.0 = 0 := by
  rw [realOf_of_ofFloat ofFloat_zero, signedValue, if_neg (by decide),
    Dyadic.value_of_mantissa_eq_zero rfl]

theorem ofFloat_one : Reading.ofFloat 1.0 = .finite false ⟨2 ^ 52, -52⟩ := by decide +kernel

theorem realOf_one : realOf 1.0 = 1 ∧ (1.0 : Float).isFinite = true := by
  refine ⟨?_, Reading.isFinite_iff.mpr ⟨_, _, ofFloat_one⟩⟩
  rw [realOf_of_ofFloat ofFloat_one, signedValue, if_neg (by decide), Dyadic.value]
  norm_num

/-- An integer of at most fifty-three binary digits is a double. -/
theorem realOf_doubleOfInt {n : Int} (h : n.natAbs < 2 ^ 53) :
    realOf (doubleOfInt n) = n ∧ (doubleOfInt n).isFinite = true := by
  rcases Nat.eq_zero_or_pos n.natAbs with hzero | hpos
  · obtain rfl : n = 0 := by omega
    exact ⟨by rw [Int.cast_zero]; exact realOf_zero, Reading.isFinite_iff.mpr ⟨_, _, ofFloat_zero⟩⟩
  · obtain ⟨d, hvalue, hread⟩ := exists_ofFloat_nearestFloat_eq hpos h (decide (n < 0))
    refine ⟨?_, Reading.isFinite_iff.mpr ⟨_, _, hread⟩⟩
    rw [doubleOfInt, realOf_of_ofFloat hread, signedValue, hvalue, Nat.cast_natAbs, Int.cast_abs]
    split
    · rename_i hneg
      have hcast : (n : ℝ) < 0 := by exact_mod_cast of_decide_eq_true hneg
      rw [abs_of_neg hcast, neg_neg]
    · rename_i hneg
      have hcast : (0 : ℝ) ≤ n := by
        have hle : 0 ≤ n := not_lt.mp fun hlt => hneg (decide_eq_true hlt)
        exact_mod_cast hle
      exact abs_of_nonneg hcast

theorem realOf_bound : realOf 1e15 = 10 ^ 15 := by
  have hread : Reading.ofFloat 1e15 = .finite false ⟨8000000000000000, -3⟩ := by decide +kernel
  rw [realOf_of_ofFloat hread, signedValue, if_neg (by decide), Dyadic.value]
  norm_num

/-- A double that passes the test for small integers is its integer part. -/
theorem realOf_eq_toInt {x : Float} (h : Scalar.isInteger x = true) :
    realOf x = (Scalar.toInt x : Int) ∧ (Scalar.toInt x).natAbs < 10 ^ 15 ∧ x.isFinite = true := by
  obtain ⟨⟨hfinite, hbound⟩, hround⟩ :
      (x.isFinite = true ∧ x.abs < 1e15) ∧ (doubleOfInt (truncateDouble x) == x) = true := by
    rw [Scalar.isInteger, Bool.and_eq_true, Bool.and_eq_true, decide_eq_true_eq] at h
    exact h
  obtain ⟨negative, d, hread⟩ := Reading.isFinite_iff.mp hfinite
  have hvalue : d.value < 10 ^ 15 := by
    have habs := Reading.ofFloat_abs hread
    have hlt := (lt_iff_realOf_lt (Reading.isFinite_iff.mpr ⟨_, _, habs⟩)
      (by decide +kernel)).mp hbound
    rwa [realOf_of_ofFloat habs, realOf_bound] at hlt
  have hquotient : d.num / d.den < 10 ^ 15 := by
    have hden : (0 : ℝ) < d.den := by exact_mod_cast d.den_pos
    rw [Dyadic.value_eq_div, div_lt_iff₀ hden] at hvalue
    rw [Nat.div_lt_iff_lt_mul d.den_pos]
    exact_mod_cast hvalue
  have hsmall : (truncateDouble x).natAbs < 10 ^ 15 := by
    rw [truncateDouble, hread, Reading.toInteger, heldInWord, signedBy, Nat.pow_eq]
    generalize d.num / d.den = quotient at hquotient
    split <;> omega
  obtain ⟨hreal, hfinite'⟩ := realOf_doubleOfInt (n := truncateDouble x) (by omega)
  refine ⟨?_, hsmall, hfinite⟩
  rw [← (beq_iff_realOf_eq hfinite' hfinite).mp hround]
  exact hreal

/-- A double whose real number is a small integer passes the test for small integers. -/
theorem isInteger_of_realOf_eq {x : Float} {n : Int} (hfinite : x.isFinite = true)
    (hn : n.natAbs < 10 ^ 15) (h : realOf x = n) : Scalar.isInteger x = true := by
  obtain ⟨negative, d, hread⟩ := Reading.isFinite_iff.mp hfinite
  have habs := Reading.ofFloat_abs hread
  have hvalue : d.value = (n.natAbs : ℝ) := by
    have hreal := realOf_abs hfinite
    rwa [realOf_of_ofFloat habs, h, signedValue, if_neg (by decide), ← Int.cast_abs,
      ← Nat.cast_natAbs] at hreal
  have hquotient := Dyadic.num_div_den_eq hvalue
  have hint : truncateDouble x = n := by
    have hsigned : signedBy negative n.natAbs = n := by
      rw [realOf_of_ofFloat hread, signedValue, hvalue] at h
      rw [signedBy]
      split at h
      · rename_i hneg
        have heq : ((-(n.natAbs : ℤ) : ℤ) : ℝ) = n := by
          rw [Int.cast_neg, Int.cast_natCast, h]
        rw [if_pos hneg, Int.cast_inj.mp heq]
      · rename_i hneg
        have heq : ((n.natAbs : ℤ) : ℝ) = n := by rw [Int.cast_natCast, h]
        rw [if_neg hneg, Int.cast_inj.mp heq]
    rw [truncateDouble, hread, Reading.toInteger, hquotient, hsigned, heldInWord, Nat.pow_eq]
    omega
  have hsmall : x.abs < 1e15 := by
    rw [lt_iff_realOf_lt (Reading.isFinite_iff.mpr ⟨_, _, habs⟩) (by decide +kernel), realOf_bound,
      realOf_of_ofFloat habs, signedValue, if_neg (by decide), hvalue]
    exact_mod_cast hn
  obtain ⟨hreal, hfinite'⟩ := realOf_doubleOfInt (n := n) (by omega)
  have hround : (doubleOfInt (truncateDouble x) == x) = true := by
    rw [hint, beq_iff_realOf_eq hfinite' hfinite, hreal, h]
  rw [Scalar.isInteger, Bool.and_eq_true, Bool.and_eq_true, decide_eq_true_eq]
  exact ⟨⟨hfinite, hsmall⟩, hround⟩

end SphereLab
