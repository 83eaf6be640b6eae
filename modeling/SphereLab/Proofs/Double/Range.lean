import Mathlib
import SphereLab.Proofs.Double.Rounding

/-!
# What rounding keeps in range

The reals that round to one magnitude lie below those that round to a larger one, so rounding keeps
the order.  Hence the sums and quotients of doubles that are small enough are finite, and a sum
that has grown so large that what is added is less than half a unit of its last place stays where it
is.

* `Dyadic.Normalised.upperEnd_le_lowerEnd`: the reals that round to magnitudes are in their order.
* `Dyadic.Rounds.value_le`: rounding does not go past a magnitude.
* `Dyadic.Rounds.exponent_le_iff`, `Dyadic.Rounds.mantissa_pos_iff`: which reals are rounded to
  infinity, and which to zero.
* `isFinite_div_of_pos`, `isFinite_div_of_one_le`: which quotients are finite.
* `isFinite_and_realOf_mem`: what is rounded from between zero and a double is between them.
* `isFinite_sub_of_le`: a sum up to `2 ^ 64` stays there.
-/

namespace SphereLab

/-! ## The order of magnitudes -/

namespace Dyadic

variable {c d : Dyadic} {x : ℝ}

/-- The reals that round to a magnitude lie below those that round to a larger one. -/
theorem Normalised.upperEnd_le_lowerEnd (hc : c.Normalised) (hd : d.Normalised)
    (h : c.value < d.value) : c.upperEnd ≤ d.lowerEnd := by
  obtain ⟨hcm, hce, hcn⟩ := hc
  obtain ⟨hdm, hde, hdn⟩ := hd
  rw [value, value] at h
  have hcm' : (c.mantissa : ℝ) + 1 ≤ 2 ^ 53 := by exact_mod_cast hcm
  have hdm' : (d.mantissa : ℝ) + 1 ≤ 2 ^ 53 := by exact_mod_cast hdm
  rcases lt_trichotomy c.exponent d.exponent with hlt | heq | hgt
  · -- The larger exponent comes with all digits, so a quarter below it is still above.
    obtain ⟨k, hk⟩ : ∃ k : ℕ, d.exponent = c.exponent + 1 + k :=
      ⟨(d.exponent - c.exponent - 1).toNat, by omega⟩
    have hfull : (2 : ℝ) ^ 52 ≤ d.mantissa := by
      have hnat : 2 ^ 52 ≤ d.mantissa := by omega
      exact_mod_cast hnat
    have hunit : (0 : ℝ) < 2 ^ c.exponent := by positivity
    have hscale : 2 * (2 : ℝ) ^ c.exponent ≤ 2 ^ d.exponent := by
      have hpow : (1 : ℝ) ≤ 2 ^ k := one_le_pow₀ one_le_two
      rw [hk, zpow_add₀ two_ne_zero, zpow_add₀ two_ne_zero, zpow_one, zpow_natCast]
      nlinarith
    have hquarter : ((2 : ℝ) ^ 52 - 1 / 4) * 2 ^ d.exponent ≤ d.lowerEnd := by
      rw [lowerEnd]
      refine mul_le_mul_of_nonneg_right ?_ (by positivity)
      split
      · linarith
      · rename_i hnot
        have hmore : 2 ^ 52 + 1 ≤ d.mantissa := by omega
        have hreal : (2 : ℝ) ^ 52 + 1 ≤ d.mantissa := by exact_mod_cast hmore
        linarith
    calc c.upperEnd ≤ (2 ^ 53 - 1 / 2) * 2 ^ c.exponent :=
          mul_le_mul_of_nonneg_right (by linarith) hunit.le
      _ = (2 ^ 52 - 1 / 4) * (2 * 2 ^ c.exponent) := by ring
      _ ≤ (2 ^ 52 - 1 / 4) * 2 ^ d.exponent := mul_le_mul_of_nonneg_left hscale (by norm_num)
      _ ≤ d.lowerEnd := hquarter
  · rw [heq] at h
    have hunit : (0 : ℝ) < 2 ^ d.exponent := by positivity
    have hmantissa : c.mantissa + 1 ≤ d.mantissa := by
      have hreal : (c.mantissa : ℝ) < d.mantissa := lt_of_mul_lt_mul_right h hunit.le
      exact_mod_cast hreal
    have hmantissa' : (c.mantissa : ℝ) + 1 ≤ d.mantissa := by exact_mod_cast hmantissa
    refine le_trans ?_ d.half_sub_le_lowerEnd
    rw [upperEnd, heq]
    exact mul_le_mul_of_nonneg_right (by linarith) hunit.le
  · exfalso
    obtain ⟨k, hk⟩ : ∃ k : ℕ, c.exponent = d.exponent + 1 + k :=
      ⟨(c.exponent - d.exponent - 1).toNat, by omega⟩
    have hfull : (2 : ℝ) ^ 52 ≤ c.mantissa := by
      have hnat : 2 ^ 52 ≤ c.mantissa := by omega
      exact_mod_cast hnat
    have hunit : (0 : ℝ) < 2 ^ d.exponent := by positivity
    have hscale : 2 * (2 : ℝ) ^ d.exponent ≤ 2 ^ c.exponent := by
      have hpow : (1 : ℝ) ≤ 2 ^ k := one_le_pow₀ one_le_two
      rw [hk, zpow_add₀ two_ne_zero, zpow_add₀ two_ne_zero, zpow_one, zpow_natCast]
      nlinarith
    have hsmall : (d.mantissa : ℝ) * 2 ^ d.exponent < 2 ^ 53 * 2 ^ d.exponent :=
      mul_lt_mul_of_pos_right (by linarith) hunit
    have hlarge : (2 : ℝ) ^ 53 * 2 ^ d.exponent ≤ c.mantissa * 2 ^ c.exponent := by
      calc (2 : ℝ) ^ 53 * 2 ^ d.exponent = 2 ^ 52 * (2 * 2 ^ d.exponent) := by ring
        _ ≤ 2 ^ 52 * 2 ^ c.exponent := mul_le_mul_of_nonneg_left hscale (by norm_num)
        _ ≤ c.mantissa * 2 ^ c.exponent := mul_le_mul_of_nonneg_right hfull (by positivity)
    linarith

/-- Rounding does not go past a magnitude. -/
theorem Rounds.value_le (h : d.Rounds x) (hc : c.Normalised) (hx : x < c.upperEnd) :
    d.value ≤ c.value := by
  by_contra hlt
  have hends := hc.upperEnd_le_lowerEnd h.toNormalised (not_le.mp hlt)
  linarith [h.near.le.1]

/-- A magnitude is in range exactly if what is rounded to it is nearer to the largest double than to
the next power of two. -/
theorem Rounds.exponent_le_iff (h : d.Rounds x) :
    d.exponent ≤ 971 ↔ x < (2 ^ 53 - 1 / 2) * 2 ^ (971 : ℤ) := by
  obtain ⟨hm, he, hn⟩ := h.toNormalised
  have hlargest : Normalised ⟨2 ^ 53 - 1, 971⟩ := ⟨by norm_num, by norm_num, Or.inl (by norm_num)⟩
  have hend : upperEnd ⟨2 ^ 53 - 1, 971⟩ = (2 ^ 53 - 1 / 2) * 2 ^ (971 : ℤ) := by
    rw [upperEnd]
    norm_num
  have hunit : (0 : ℝ) < 2 ^ (971 : ℤ) := by positivity
  constructor
  · intro hrange
    have hscale : (2 : ℝ) ^ d.exponent ≤ 2 ^ (971 : ℤ) := zpow_le_zpow_right₀ one_le_two hrange
    have hpos : (0 : ℝ) < 2 ^ d.exponent := by positivity
    have hm' : (d.mantissa : ℝ) + 1 ≤ 2 ^ 53 := by exact_mod_cast hm
    by_cases hodd : d.mantissa % 2 = 0
    · have heven : (d.mantissa : ℝ) + 2 ≤ 2 ^ 53 := by
        have hnat : d.mantissa + 2 ≤ 2 ^ 53 := by omega
        exact_mod_cast hnat
      calc x ≤ (d.mantissa + 1 / 2) * 2 ^ d.exponent := h.near.le.2
        _ < (2 ^ 53 - 1 / 2) * 2 ^ d.exponent := mul_lt_mul_of_pos_right (by linarith) hpos
        _ ≤ (2 ^ 53 - 1 / 2) * 2 ^ (971 : ℤ) := mul_le_mul_of_nonneg_left hscale (by norm_num)
    · calc x < (d.mantissa + 1 / 2) * 2 ^ d.exponent := (h.near.lt hodd).2
        _ ≤ (2 ^ 53 - 1 / 2) * 2 ^ d.exponent := mul_le_mul_of_nonneg_right (by linarith) hpos.le
        _ ≤ (2 ^ 53 - 1 / 2) * 2 ^ (971 : ℤ) := mul_le_mul_of_nonneg_left hscale (by norm_num)
  · intro hx
    by_contra hover
    have hvalue := h.value_le hlargest (hend ▸ hx)
    have hfull : (2 : ℝ) ^ 52 ≤ d.mantissa := by
      have hnat : 2 ^ 52 ≤ d.mantissa := by omega
      exact_mod_cast hnat
    have hscale : (2 : ℝ) * 2 ^ (971 : ℤ) ≤ 2 ^ d.exponent := by
      rw [← zpow_one_add₀ two_ne_zero]
      exact zpow_le_zpow_right₀ one_le_two (by omega)
    have hlarge : (2 : ℝ) ^ 52 * (2 * 2 ^ (971 : ℤ)) ≤ d.value := by
      calc (2 : ℝ) ^ 52 * (2 * 2 ^ (971 : ℤ)) ≤ 2 ^ 52 * 2 ^ d.exponent :=
            mul_le_mul_of_nonneg_left hscale (by norm_num)
        _ ≤ d.mantissa * 2 ^ d.exponent := mul_le_mul_of_nonneg_right hfull (by positivity)
    have hvalue' : value ⟨2 ^ 53 - 1, 971⟩ = (2 ^ 53 - 1) * 2 ^ (971 : ℤ) := by
      rw [value]
      norm_num
    have hsplit : (2 : ℝ) ^ 52 * (2 * 2 ^ (971 : ℤ)) =
        (2 ^ 53 - 1) * 2 ^ (971 : ℤ) + 2 ^ (971 : ℤ) := by ring
    rw [hvalue'] at hvalue
    rw [hsplit] at hlarge
    exact absurd (hlarge.trans hvalue) (not_le.mpr (lt_add_of_pos_right _ hunit))

/-- What is rounded to zero is at most half the smallest double. -/
theorem Rounds.mantissa_pos_iff (h : d.Rounds x) : 0 < d.mantissa ↔ 2 ^ (-1075 : ℤ) < x := by
  obtain ⟨hm, he, hn⟩ := h.toNormalised
  have hhalf : (2 : ℝ) ^ (-1074 : ℤ) = 2 * 2 ^ (-1075 : ℤ) := by
    rw [← zpow_one_add₀ two_ne_zero]
    norm_num
  have hunit : (0 : ℝ) < 2 ^ (-1075 : ℤ) := by positivity
  have hscale : (2 : ℝ) ^ (-1074 : ℤ) ≤ 2 ^ d.exponent := zpow_le_zpow_right₀ one_le_two he
  constructor
  · intro hpos
    rcases Nat.lt_or_ge 1 d.mantissa with htwo | hone
    · have htwo' : (2 : ℝ) ≤ d.mantissa := by exact_mod_cast htwo
      have hlower := d.half_sub_le_lowerEnd.trans h.near.le.1
      nlinarith
    · have hmantissa : d.mantissa = 1 := by omega
      have hlower := (h.near.lt (by omega)).1
      have hhalf' := d.half_sub_le_lowerEnd
      rw [hmantissa, Nat.cast_one] at hhalf'
      linarith
  · intro hx
    by_contra hzero
    have hmantissa : d.mantissa = 0 := by omega
    have hexponent : d.exponent = -1074 := by omega
    have hupper := h.near.le.2
    rw [upperEnd, hmantissa, hexponent, Nat.cast_zero] at hupper
    linarith

end Dyadic

/-! ## Doubles in range -/

section Doubles

variable {x y : Float}

theorem le_iff_realOf_le (hx : x.isFinite = true) (hy : y.isFinite = true) :
    x ≤ y ↔ realOf x ≤ realOf y := by
  have hle : x ≤ y ↔ (x.toModel.unpack.compare y.toModel.unpack).any (·.isLE) = true :=
    decide_eq_true_iff
  rw [hle, compare_unpack hx hy, Option.any_some]
  rcases lt_trichotomy (realOf x) (realOf y) with hlt | heq | hgt
  · rw [(cmp_eq_lt_iff _ _).mpr hlt]
    exact ⟨fun _ => hlt.le, fun _ => rfl⟩
  · rw [(cmp_eq_eq_iff _ _).mpr heq]
    exact ⟨fun _ => heq.le, fun _ => rfl⟩
  · rw [(cmp_eq_gt_iff _ _).mpr hgt]
    exact ⟨fun h => absurd h (by decide), fun h => absurd h (not_le.mpr hgt)⟩

/-- The reals below this bound are rounded to finite doubles. -/
noncomputable def doubleBound : ℝ := (2 ^ 53 - 1 / 2) * 2 ^ (971 : ℤ)

section Rounded

variable {negative : Bool} {d : Dyadic} {r : ℝ}

theorem isFinite_iff_of_roundsTo (h : RoundsTo negative d r)
    (hread : Reading.ofFloat x = Reading.ofRounded negative d) :
    x.isFinite = true ↔ |r| < doubleBound := by
  rw [doubleBound, ← h.toRounds.exponent_le_iff, Reading.isFinite_iff, hread, Reading.ofRounded]
  split
  · rename_i hrange
    exact ⟨fun _ => hrange, fun _ => ⟨negative, d, rfl⟩⟩
  · rename_i hover
    refine ⟨?_, fun hrange => absurd hrange hover⟩
    rintro ⟨_, _, heq⟩
    exact absurd heq (by simp)

theorem realOf_of_ofRounded (hread : Reading.ofFloat x = Reading.ofRounded negative d)
    (hfinite : x.isFinite = true) : realOf x = signedValue negative d := by
  rw [Reading.ofRounded] at hread
  split at hread
  · exact realOf_of_ofFloat hread
  · obtain ⟨_, _, heq⟩ := Reading.isFinite_iff.mp hfinite
    exact absurd (hread.symm.trans heq) (by simp)

end Rounded

theorem abs_signedValue (negative : Bool) (d : Dyadic) : |signedValue negative d| = d.value := by
  rw [signedValue]
  split
  · rw [abs_neg, abs_of_nonneg d.value_nonneg]
  · rw [abs_of_nonneg d.value_nonneg]

theorem abs_realOf_lt (hx : x.isFinite = true) : |realOf x| < doubleBound := by
  obtain ⟨negative, d, hread⟩ := Reading.isFinite_iff.mp hx
  have hd := Reading.canonical_of_ofFloat hread
  rw [realOf_of_ofFloat hread, abs_signedValue, doubleBound, ← hd.rounds.exponent_le_iff]
  exact hd.exponent_le

/-- The smallest positive double bounds all the others. -/
theorem le_realOf_of_pos (hx : x.isFinite = true) (hpos : 0 < realOf x) :
    2 ^ (-1074 : ℤ) ≤ realOf x := by
  obtain ⟨negative, d, hread⟩ := Reading.isFinite_iff.mp hx
  have hd := Reading.canonical_of_ofFloat hread
  rw [realOf_of_ofFloat hread] at hpos ⊢
  have hvalue : signedValue negative d = d.value := by
    rw [← abs_of_pos hpos, abs_signedValue]
  have hmantissa : 0 < d.mantissa := by
    by_contra hzero
    rw [hvalue, Dyadic.value_of_mantissa_eq_zero (by omega)] at hpos
    exact lt_irrefl 0 hpos
  have hone : (1 : ℝ) ≤ d.mantissa := by exact_mod_cast hmantissa
  have hscale : (2 : ℝ) ^ (-1074 : ℤ) ≤ 2 ^ d.exponent :=
    zpow_le_zpow_right₀ one_le_two hd.le_exponent
  have hunit : (0 : ℝ) < 2 ^ d.exponent := by positivity
  rw [hvalue, Dyadic.value]
  nlinarith

/-- The quotient of positive doubles is infinite if it is too large and zero if it is too small, and
positive otherwise. -/
theorem isFinite_div_of_pos (hx : x.isFinite = true) (hy : y.isFinite = true)
    (hxpos : 0 < realOf x) (hypos : 0 < realOf y) :
    ((x / y).isFinite = true ↔ realOf x / realOf y < doubleBound) ∧
      ((x / y).isFinite = true → (0 < realOf (x / y) ↔ 2 ^ (-1075 : ℤ) < realOf x / realOf y)) := by
  obtain ⟨negative, d, hrounds, hread⟩ := exists_roundsTo_div hx hy hypos.ne'
  have hquotient : 0 < realOf x / realOf y := div_pos hxpos hypos
  have hfinite := isFinite_iff_of_roundsTo hrounds hread
  have hmantissa := hrounds.toRounds.mantissa_pos_iff
  rw [abs_of_pos hquotient] at hfinite hmantissa
  refine ⟨hfinite, fun h => ?_⟩
  rw [realOf_of_ofRounded hread h, hrounds.pos hquotient, ← hmantissa, signedValue,
    if_neg (by decide)]
  constructor
  · intro hpos
    by_contra hzero
    rw [Dyadic.value_of_mantissa_eq_zero (by omega)] at hpos
    exact lt_irrefl 0 hpos
  · exact fun hpos => Dyadic.value_pos hpos

/-- A finite double divided by one or more is finite. -/
theorem isFinite_div_of_one_le (hx : x.isFinite = true) (hy : y.isFinite = true)
    (hone : 1 ≤ realOf y) : (x / y).isFinite = true := by
  obtain ⟨negative, d, hrounds, hread⟩ :=
    exists_roundsTo_div hx hy (lt_of_lt_of_le one_pos hone).ne'
  rw [isFinite_iff_of_roundsTo hrounds hread, abs_div, abs_of_pos (lt_of_lt_of_le one_pos hone)]
  exact lt_of_le_of_lt (div_le_self (abs_nonneg _) hone) (abs_realOf_lt hx)

/-- What is rounded from between zero and a double is between them. -/
theorem isFinite_and_realOf_mem {negative : Bool} {d : Dyadic} {r : ℝ} (h : RoundsTo negative d r)
    (hread : Reading.ofFloat x = Reading.ofRounded negative d) (hy : y.isFinite = true)
    (hnonneg : 0 ≤ r) (hle : r ≤ realOf y) :
    x.isFinite = true ∧ 0 ≤ realOf x ∧ realOf x ≤ realOf y := by
  obtain ⟨negative', c, hreadc⟩ := Reading.isFinite_iff.mp hy
  have hc := Reading.canonical_of_ofFloat hreadc
  have hcvalue : realOf y = c.value := by
    rw [← abs_of_nonneg (hnonneg.trans hle), realOf_of_ofFloat hreadc, abs_signedValue]
  have hfinite : x.isFinite = true := by
    rw [isFinite_iff_of_roundsTo h hread, abs_of_nonneg hnonneg]
    exact hle.trans_lt ((le_abs_self _).trans_lt (abs_realOf_lt hy))
  have hreal := realOf_of_ofRounded hread hfinite
  have hbound : d.value ≤ c.value := by
    refine h.toRounds.value_le hc.normalised ?_
    rw [abs_of_nonneg hnonneg]
    exact (hcvalue ▸ hle).trans_lt c.value_lt_upperEnd
  refine ⟨hfinite, ?_, ?_⟩
  · rcases hnonneg.lt_or_eq with hpos | rfl
    · rw [hreal, h.pos hpos, signedValue, if_neg (by decide)]
      exact d.value_nonneg
    · -- A zero may be rounded to either zero.
      have hnormalised : Dyadic.Normalised ⟨0, -1074⟩ := ⟨by norm_num, le_rfl, Or.inr rfl⟩
      have hvalue : Dyadic.value ⟨0, -1074⟩ = 0 := Dyadic.value_of_mantissa_eq_zero rfl
      have hzero : d.value ≤ Dyadic.value ⟨0, -1074⟩ := by
        refine h.toRounds.value_le hnormalised ?_
        rw [abs_zero, ← hvalue]
        exact Dyadic.value_lt_upperEnd _
      rw [hvalue, ← abs_signedValue negative d] at hzero
      rw [hreal, abs_nonpos_iff.mp hzero]
  · rw [hreal, hcvalue]
    exact (le_abs_self _).trans ((abs_signedValue negative d).trans_le hbound)

/-- A part of a double that is not negative is between zero and the double. -/
theorem realOf_mul_mem (hx : x.isFinite = true) (hy : y.isFinite = true) (hnonneg : 0 ≤ realOf x)
    (hle : realOf x ≤ 1) (hy0 : 0 ≤ realOf y) :
    (x * y).isFinite = true ∧ 0 ≤ realOf (x * y) ∧ realOf (x * y) ≤ realOf y := by
  obtain ⟨negative, d, hrounds, hread⟩ := exists_roundsTo_mul hx hy
  exact isFinite_and_realOf_mem hrounds hread hy (mul_nonneg hnonneg hy0)
    (mul_le_of_le_one_left hy0 hle)

/-- What is left of a double is between zero and the double. -/
theorem realOf_sub_mem (hx : x.isFinite = true) (hy : y.isFinite = true) (hnonneg : 0 ≤ realOf y)
    (hle : realOf y ≤ realOf x) :
    (x - y).isFinite = true ∧ 0 ≤ realOf (x - y) ∧ realOf (x - y) ≤ realOf x := by
  obtain ⟨negative, d, hrounds, hread⟩ := exists_roundsTo_sub hx hy
  exact isFinite_and_realOf_mem hrounds hread hx (sub_nonneg.mpr hle) (sub_le_self _ hnonneg)

/-- A sum of at most `2 ^ 64` that changes by less than half a unit of the last place there is
still at most `2 ^ 64`. -/
theorem isFinite_sub_of_le (hx : x.isFinite = true) (hy : y.isFinite = true)
    (hsum : |realOf x| ≤ 2 ^ 64) (hchange : |realOf y| < 2 ^ 11) :
    (x - y).isFinite = true ∧ |realOf (x - y)| ≤ 2 ^ 64 := by
  obtain ⟨negative, d, hrounds, hread⟩ := exists_roundsTo_sub hx hy
  have hbound : Dyadic.Normalised ⟨2 ^ 52, 12⟩ := ⟨by norm_num, by norm_num, Or.inl le_rfl⟩
  have hend : Dyadic.upperEnd ⟨2 ^ 52, 12⟩ = 2 ^ 64 + 2 ^ 11 := by
    rw [Dyadic.upperEnd]
    norm_num
  have hvalue : Dyadic.value ⟨2 ^ 52, 12⟩ = 2 ^ 64 := by
    rw [Dyadic.value]
    norm_num
  have hdifference : |realOf x - realOf y| < 2 ^ 64 + 2 ^ 11 :=
    lt_of_le_of_lt (abs_sub _ _) (by linarith)
  have hle := hrounds.toRounds.value_le hbound (hend ▸ hdifference)
  have hfinite : (x - y).isFinite = true := by
    rw [isFinite_iff_of_roundsTo hrounds hread]
    have hscale : (2 : ℝ) ^ (12 : ℤ) ≤ 2 ^ (971 : ℤ) := zpow_le_zpow_right₀ one_le_two (by norm_num)
    calc |realOf x - realOf y| < 2 ^ 64 + 2 ^ 11 := hdifference
      _ ≤ (2 ^ 53 - 1 / 2) * 2 ^ (12 : ℤ) := by norm_num
      _ ≤ doubleBound := mul_le_mul_of_nonneg_left hscale (by norm_num)
  refine ⟨hfinite, ?_⟩
  rwa [realOf_of_ofRounded hread hfinite, abs_signedValue, ← hvalue]

end Doubles

end SphereLab
