import Mathlib
import SphereLab.Proofs.Double.Infinite

/-!
# Rounding errors

What rounding makes of a real is as far from it as half a unit of the last place.  That is a
relative error of one part in `2 ^ 53`, unless the real is so small that digits are missing, and
then it is at most half of the smallest double.

The errors of a power by repeated squaring add up to one for each factor: squaring doubles the
number of factors of the base and of the errors in it, and halves the exponent.  Rounding a double
to a whole number makes no other error than the distance to that number, which is a double again:
doubles that are large enough to need more than fifty-three digits are whole already.

* `RoundsTo.abs_sub_le`: the error of rounding.
* `isWithin_powLoop`: the errors of a power.
* `exists_int_roundDouble`, `roundDouble_of_not_isFinite`: rounding to whole numbers.
-/

namespace SphereLab

/-! ## One rounding -/

/-- The error of a magnitude is relative to what it was rounded from, down to half of the smallest
double. -/
theorem Dyadic.Rounds.abs_sub_le {d : Dyadic} {x : ℝ} (h : d.Rounds x) :
    |d.value - x| ≤ max (2 ^ (-53 : ℤ) * x) (2 ^ (-1075 : ℤ)) := by
  have hunit : (0 : ℝ) < 2 ^ d.exponent := by positivity
  have hupper : x ≤ (d.mantissa + 1 / 2) * 2 ^ d.exponent := h.near.le.2
  have hlower := h.near.le.1
  have hhalf : |(d.mantissa : ℝ) * 2 ^ d.exponent - x| ≤ 2 ^ d.exponent / 2 := by
    have hbelow := d.half_sub_le_lowerEnd.trans hlower
    rw [sub_mul] at hbelow
    rw [add_mul] at hupper
    exact abs_le.mpr ⟨by linarith, by linarith⟩
  rw [value]
  by_cases hfull : (2 : ℝ) ^ 52 * 2 ^ d.exponent ≤ x
  · refine le_max_of_le_left (hhalf.trans ?_)
    calc (2 : ℝ) ^ d.exponent / 2 = 2 ^ (-53 : ℤ) * (2 ^ 52 * 2 ^ d.exponent) := by
          norm_num
          ring
      _ ≤ 2 ^ (-53 : ℤ) * x := mul_le_mul_of_nonneg_left hfull (by positivity)
  · rw [not_le] at hfull
    by_cases hpower : d.mantissa = 2 ^ 52 ∧ -1074 < d.exponent
    · -- Just below a power of two the doubles are twice as dense.
      have hcast : (d.mantissa : ℝ) = 2 ^ 52 := by
        rw [hpower.1]
        norm_num
      rw [lowerEnd, if_pos hpower, hcast] at hlower
      have hquarter : |(d.mantissa : ℝ) * 2 ^ d.exponent - x| ≤ 2 ^ d.exponent / 4 := by
        rw [hcast]
        have hlower' := hlower
        rw [sub_mul] at hlower'
        exact abs_le.mpr ⟨by linarith, by linarith⟩
      refine le_max_of_le_left (hquarter.trans ?_)
      calc (2 : ℝ) ^ d.exponent / 4 ≤ 2 ^ (-53 : ℤ) * ((2 ^ 52 - 1 / 4) * 2 ^ d.exponent) := by
            rw [← mul_assoc, div_eq_inv_mul]
            exact mul_le_mul_of_nonneg_right (by norm_num) hunit.le
        _ ≤ 2 ^ (-53 : ℤ) * x := mul_le_mul_of_nonneg_left hlower (by positivity)
    · rw [lowerEnd, if_neg hpower] at hlower
      have hless : (d.mantissa : ℝ) < 2 ^ 52 + 1 := by
        have hlt := lt_of_mul_lt_mul_right (hlower.trans_lt hfull) hunit.le
        linarith
      have hexponent : d.exponent = -1074 := by
        have hle : d.mantissa < 2 ^ 52 + 1 := by exact_mod_cast hless
        have hbound := h.le_exponent
        rcases h.normal with hn | hn
        · by_contra hne
          exact hpower ⟨by omega, by omega⟩
        · exact hn
      refine le_max_of_le_right (hhalf.trans_eq ?_)
      rw [hexponent, div_eq_mul_inv, ← zpow_sub_one₀ two_ne_zero]
      norm_num

/-- The error of a rounded real is relative, down to half of the smallest double. -/
theorem RoundsTo.abs_sub_le {negative : Bool} {d : Dyadic} {r : ℝ} (h : RoundsTo negative d r) :
    |signedValue negative d - r| ≤ max (2 ^ (-53 : ℤ) * |r|) (2 ^ (-1075 : ℤ)) := by
  have herror := h.toRounds.abs_sub_le
  rcases lt_trichotomy r 0 with hneg | rfl | hpos
  · rw [h.neg hneg, signedValue, if_pos rfl, ← abs_neg]
    rw [abs_of_neg hneg] at herror ⊢
    rwa [show -(-d.value - r) = d.value - -r by ring]
  · rw [abs_zero, sub_zero] at herror
    rwa [sub_zero, abs_signedValue, abs_zero, ← abs_of_nonneg d.value_nonneg]
  · rw [h.pos hpos, signedValue, if_neg (by decide)]
    rwa [abs_of_pos hpos] at herror ⊢

/-- The error of a rounded real that is at least one is relative. -/
theorem RoundsTo.abs_sub_le_of_one_le {negative : Bool} {d : Dyadic} {r : ℝ}
    (h : RoundsTo negative d r) (hr : 1 ≤ r) :
    |signedValue negative d - r| ≤ 2 ^ (-53 : ℤ) * r := by
  have herror := h.abs_sub_le
  rw [abs_of_pos (one_pos.trans_le hr)] at herror
  refine herror.trans (max_le le_rfl ?_)
  calc (2 : ℝ) ^ (-1075 : ℤ) ≤ 2 ^ (-53 : ℤ) * 1 := by
        rw [mul_one]
        exact zpow_le_zpow_right₀ one_le_two (by norm_num)
    _ ≤ 2 ^ (-53 : ℤ) * r := mul_le_mul_of_nonneg_left hr (by positivity)

/-! ## Many roundings -/

/-- A few relative errors are together at most twice their sum. -/
theorem one_add_pow_le {n : ℕ} (hn : n ≤ 2 ^ 52) :
    (1 + 2 ^ (-53 : ℤ) : ℝ) ^ n ≤ 1 + n * 2 ^ (-52 : ℤ) := by
  have hdouble : (2 : ℝ) ^ (-52 : ℤ) = 2 * 2 ^ (-53 : ℤ) := by norm_num
  have hunit : (0 : ℝ) < 2 ^ (-53 : ℤ) := by positivity
  induction n with
  | zero => norm_num
  | succ n ih =>
    have hsum : (n : ℝ) * 2 ^ (-52 : ℤ) ≤ 1 := by
      have hreal : (n : ℝ) ≤ 2 ^ 52 := by exact_mod_cast (Nat.le_succ n).trans hn
      calc (n : ℝ) * 2 ^ (-52 : ℤ) ≤ 2 ^ 52 * 2 ^ (-52 : ℤ) :=
            mul_le_mul_of_nonneg_right hreal (by positivity)
        _ = 1 := by norm_num
    calc (1 + 2 ^ (-53 : ℤ) : ℝ) ^ (n + 1) = (1 + 2 ^ (-53 : ℤ)) ^ n * (1 + 2 ^ (-53 : ℤ)) :=
          pow_succ _ _
      _ ≤ (1 + n * 2 ^ (-52 : ℤ)) * (1 + 2 ^ (-53 : ℤ)) :=
          mul_le_mul_of_nonneg_right (ih (by omega)) (by positivity)
      _ = 1 + n * 2 ^ (-52 : ℤ) + 2 ^ (-53 : ℤ) + n * 2 ^ (-52 : ℤ) * 2 ^ (-53 : ℤ) := by ring
      _ ≤ 1 + n * 2 ^ (-52 : ℤ) + 2 ^ (-53 : ℤ) + 1 * 2 ^ (-53 : ℤ) :=
          add_le_add_right (mul_le_mul_of_nonneg_right hsum hunit.le) _
      _ = 1 + (n + 1 : ℕ) * 2 ^ (-52 : ℤ) := by
          rw [hdouble]
          push_cast
          ring

theorem one_sub_le_pow (n : ℕ) : 1 - n * 2 ^ (-52 : ℤ) ≤ (1 - 2 ^ (-53 : ℤ) : ℝ) ^ n := by
  have hbernoulli := one_add_mul_le_pow (a := -(2 ^ (-53 : ℤ) : ℝ)) (by norm_num) n
  have hdouble : (2 : ℝ) ^ (-52 : ℤ) = 2 * 2 ^ (-53 : ℤ) := by norm_num
  have hpos : 0 ≤ (n : ℝ) * 2 ^ (-53 : ℤ) := by positivity
  rw [← sub_eq_add_neg] at hbernoulli
  rw [hdouble]
  linarith

/-- The double is at least one and within a number of relative errors of a real. -/
structure IsWithin (errors : ℕ) (a : ℝ) (x : Float) : Prop where
  isFinite : x.isFinite = true
  one_le : 1 ≤ realOf x
  lower : a * (1 - 2 ^ (-53 : ℤ)) ^ errors ≤ realOf x
  upper : realOf x ≤ a * (1 + 2 ^ (-53 : ℤ)) ^ errors

namespace IsWithin

variable {x y : Float} {a b : ℝ} {j k : ℕ}

theorem of_eq (hx : x.isFinite = true) (hone : 1 ≤ a) (h : realOf x = a) : IsWithin 0 a x :=
  ⟨hx, h ▸ hone, by rw [pow_zero, mul_one, h], by rw [pow_zero, mul_one, h]⟩

/-- A product has the errors of its factors and one of its own, if it does not overflow. -/
theorem mul (hx : IsWithin j a x) (hy : IsWithin k b y) (ha : 0 < a) (hb : 0 < b)
    (hbound : a * b * (1 + 2 ^ (-53 : ℤ)) ^ (j + k + 1) < doubleBound) :
    IsWithin (j + k + 1) (a * b) (x * y) := by
  have hunit : (0 : ℝ) < 2 ^ (-53 : ℤ) := by positivity
  have hless : (2 : ℝ) ^ (-53 : ℤ) < 1 := by norm_num
  have hx0 : 0 < realOf x := one_pos.trans_le hx.one_le
  have hy0 : 0 < realOf y := one_pos.trans_le hy.one_le
  have hone : 1 ≤ realOf x * realOf y := one_le_mul_of_one_le_of_one_le hx.one_le hy.one_le
  have hlow : a * b * (1 - 2 ^ (-53 : ℤ)) ^ (j + k) ≤ realOf x * realOf y := by
    calc a * b * (1 - 2 ^ (-53 : ℤ)) ^ (j + k) =
          a * (1 - 2 ^ (-53 : ℤ)) ^ j * (b * (1 - 2 ^ (-53 : ℤ)) ^ k) := by
          rw [pow_add]
          ring
      _ ≤ realOf x * realOf y :=
          mul_le_mul hx.lower hy.lower
            (mul_nonneg hb.le (pow_nonneg (sub_nonneg.mpr hless.le) k)) hx0.le
  have hhigh : realOf x * realOf y ≤ a * b * (1 + 2 ^ (-53 : ℤ)) ^ (j + k) := by
    calc realOf x * realOf y ≤
          a * (1 + 2 ^ (-53 : ℤ)) ^ j * (b * (1 + 2 ^ (-53 : ℤ)) ^ k) :=
          mul_le_mul hx.upper hy.upper hy0.le (by positivity)
      _ = a * b * (1 + 2 ^ (-53 : ℤ)) ^ (j + k) := by
          rw [pow_add]
          ring
  obtain ⟨negative, d, hrounds, hread⟩ := exists_roundsTo_mul hx.isFinite hy.isFinite
  have hfinite : (x * y).isFinite = true := by
    rw [isFinite_iff_of_roundsTo hrounds hread, abs_of_pos (one_pos.trans_le hone)]
    refine lt_of_le_of_lt (hhigh.trans ?_) hbound
    refine mul_le_mul_of_nonneg_left ?_ (mul_pos ha hb).le
    exact pow_le_pow_right₀ (by linarith) (Nat.le_succ _)
  have hvalue := realOf_of_ofRounded hread hfinite
  have herror := abs_le.mp (hrounds.abs_sub_le_of_one_le hone)
  rw [← hvalue] at herror
  refine ⟨hfinite, ?_, ?_, ?_⟩
  · -- one is a double, and rounding does not go below it
    have hnormal : Dyadic.Normalised ⟨2 ^ 52, -52⟩ := ⟨by norm_num, by norm_num, Or.inl le_rfl⟩
    have hpower : Dyadic.value ⟨2 ^ 52, -52⟩ = 1 := by
      rw [Dyadic.value]
      norm_num
    have hle := hrounds.toRounds.le_value hnormal
      ((Dyadic.lowerEnd_lt_value _).trans_le (by rwa [hpower, abs_of_pos (one_pos.trans_le hone)]))
    rwa [hvalue, hrounds.pos (one_pos.trans_le hone), signedValue, if_neg (by decide), ← hpower]
  · calc a * b * (1 - 2 ^ (-53 : ℤ)) ^ (j + k + 1) =
          a * b * (1 - 2 ^ (-53 : ℤ)) ^ (j + k) * (1 - 2 ^ (-53 : ℤ)) := by
          rw [pow_succ, ← mul_assoc]
      _ ≤ realOf x * realOf y * (1 - 2 ^ (-53 : ℤ)) :=
          mul_le_mul_of_nonneg_right hlow (sub_nonneg.mpr hless.le)
      _ ≤ realOf (x * y) := by linarith
  · calc realOf (x * y) ≤ realOf x * realOf y * (1 + 2 ^ (-53 : ℤ)) := by linarith
      _ ≤ a * b * (1 + 2 ^ (-53 : ℤ)) ^ (j + k) * (1 + 2 ^ (-53 : ℤ)) :=
          mul_le_mul_of_nonneg_right hhigh (by linarith)
      _ = a * b * (1 + 2 ^ (-53 : ℤ)) ^ (j + k + 1) := by
          rw [pow_succ, ← mul_assoc]

/-- The distance of what has a few relative errors. -/
theorem abs_sub_le (hx : IsWithin k a x) (ha : 0 ≤ a) (hk : k ≤ 2 ^ 52) :
    |realOf x - a| ≤ a * (k * 2 ^ (-52 : ℤ)) := by
  have hlow := mul_le_mul_of_nonneg_left (one_sub_le_pow k) ha
  have hhigh := mul_le_mul_of_nonneg_left (one_add_pow_le hk) ha
  rw [mul_sub, mul_one] at hlow
  rw [mul_add, mul_one] at hhigh
  exact abs_le.mpr ⟨by linarith [hx.lower], by linarith [hx.upper]⟩

end IsWithin

/-- The errors of a power by repeated squaring: those of its first factor, and one more than the
base has for each factor of the base. -/
theorem isWithin_powLoop {acc base : Float} {a b : ℝ} {j k : ℕ} (hacc : IsWithin j a acc)
    (hbase : IsWithin k b base) (ha : 1 ≤ a) (hb : 1 ≤ b) (n : ℕ)
    (hbound : a * b ^ n * (1 + 2 ^ (-53 : ℤ)) ^ (j + (k + 1) * n) < doubleBound) :
    IsWithin (j + (k + 1) * n) (a * b ^ n) (Scalar.powLoop acc base n) := by
  induction n using Nat.strong_induction_on generalizing acc base a b j k with
  | _ n ih =>
    have hsplit : n % 2 + 2 * (n / 2) = n := Nat.mod_add_div n 2
    have hunit : (1 : ℝ) ≤ 1 + 2 ^ (-53 : ℤ) := by
      have hpos : (0 : ℝ) < 2 ^ (-53 : ℤ) := by positivity
      linarith
    have hgrow : ∀ {c : ℝ} {i : ℕ}, c ≤ a * b ^ n → 0 ≤ c → i ≤ j + (k + 1) * n →
        c * (1 + 2 ^ (-53 : ℤ)) ^ i < doubleBound := fun hc h0 hi =>
      lt_of_le_of_lt (mul_le_mul hc (pow_le_pow_right₀ hunit hi) (by positivity) (h0.trans hc)) hbound
    have hacc' : IsWithin (j + (k + 1) * (n % 2)) (a * b ^ (n % 2))
        (if n % 2 = 1 then acc * base else acc) := by
      rcases Nat.mod_two_eq_zero_or_one n with heven | hodd
      · rw [if_neg (by omega), heven, mul_zero, add_zero, pow_zero, mul_one]
        exact hacc
      · rw [if_pos hodd, hodd, mul_one, pow_one, ← add_assoc]
        refine hacc.mul hbase (by linarith) (by linarith) (hgrow ?_ (by positivity) ?_)
        · exact mul_le_mul_of_nonneg_left (le_self_pow₀ hb (by omega)) (by linarith)
        · have hle : k + 1 ≤ (k + 1) * n := Nat.le_mul_of_pos_right _ (by omega)
          omega
    have hpower : a * b ^ (n % 2) * (b * b) ^ (n / 2) = a * b ^ n := by
      conv_rhs => rw [← hsplit]
      rw [pow_add, pow_mul, pow_two, mul_assoc]
    have herrors : j + (k + 1) * (n % 2) + (k + k + 1 + 1) * (n / 2) = j + (k + 1) * n := by
      conv_rhs => rw [← hsplit]
      ring
    rw [Scalar.powLoop]
    split
    · rename_i hlast
      rw [hlast, pow_zero, mul_one] at hpower
      rw [hlast, mul_zero, add_zero] at herrors
      exact herrors ▸ hpower ▸ hacc'
    · rename_i hmore
      have hsquare : IsWithin (k + k + 1) (b * b) (base * base) := by
        refine hbase.mul hbase (by linarith) (by linarith) (hgrow ?_ (by positivity) ?_)
        · rw [← pow_two]
          calc b ^ 2 ≤ b ^ n := pow_le_pow_right₀ hb (by omega)
            _ ≤ a * b ^ n := le_mul_of_one_le_left (by positivity) ha
        · have hle : (k + 1) * 2 ≤ (k + 1) * n := Nat.mul_le_mul_left _ (by omega)
          omega
      have hrest := ih (n / 2) (by omega) hacc' hsquare
        (one_le_mul_of_one_le_of_one_le ha (one_le_pow₀ hb))
        (one_le_mul_of_one_le_of_one_le hb hb) (by rwa [hpower, herrors])
      rwa [hpower, herrors] at hrest

/-! ## Whole numbers -/

/-- A quotient rounded half up is within a half of itself. -/
theorem abs_rounded_sub_le (num : ℕ) {den : ℕ} (hden : 0 < den) :
    |(((2 * num + den) / (2 * den) : ℕ) : ℝ) - num / den| ≤ 1 / 2 := by
  have hreal : (0 : ℝ) < den := by exact_mod_cast hden
  generalize hq : (2 * num + den) / (2 * den) = q
  have hlow : 2 * den * q ≤ 2 * num + den := hq ▸ Nat.mul_div_le _ _
  have hhigh : 2 * num + den < 2 * den * (q + 1) := hq ▸ Nat.lt_mul_div_succ _ (by omega)
  have hlow' : 2 * den * (q : ℝ) ≤ 2 * num + den := by exact_mod_cast hlow
  have hhigh' : 2 * (num : ℝ) + den < 2 * den * (q + 1) := by exact_mod_cast hhigh
  have hmul : ((q : ℝ) - num / den) * den = q * den - num := by
    rw [sub_mul, div_mul_cancel₀ _ hreal.ne']
  rw [abs_le]
  constructor
  · refine le_of_mul_le_mul_right ?_ hreal
    rw [hmul]
    linarith
  · refine le_of_mul_le_mul_right ?_ hreal
    rw [hmul]
    linarith

variable {x : Float}

theorem ofFloat_nearestFloat_zero (negative : Bool) :
    Reading.ofFloat (nearestFloat negative 0 1) = .finite negative ⟨0, -1074⟩ := by
  cases negative with
  | true => decide +kernel
  | false => decide +kernel

/-- The whole number next to a canonical magnitude is a double. -/
theorem exists_ofFloat_nearestFloat_rounded {d : Dyadic} (hd : d.Canonical) (negative : Bool) :
    ∃ c : Dyadic, c.value = ((2 * d.num + d.den) / (2 * d.den) : ℕ) ∧
      Reading.ofFloat (nearestFloat negative ((2 * d.num + d.den) / (2 * d.den)) 1) =
        .finite negative c := by
  generalize hq : (2 * d.num + d.den) / (2 * d.den) = q
  rcases Nat.eq_zero_or_pos q with rfl | hpos
  · exact ⟨⟨0, -1074⟩, by rw [Dyadic.value_of_mantissa_eq_zero rfl, Nat.cast_zero],
      ofFloat_nearestFloat_zero negative⟩
  · rcases le_or_gt 0 d.exponent with hwhole | hpart
    · -- A magnitude without a fraction is left alone.
      have hden : d.den = 1 := by
        rw [Dyadic.den, show (-d.exponent).toNat = 0 by omega]
      obtain rfl : d.num = q := by
        rw [hden] at hq
        omega
      have hvalue : d.value = d.num := by
        rw [d.value_eq_div, hden, Nat.cast_one, div_one]
      have hmantissa : 0 < d.mantissa := Nat.pos_of_ne_zero fun hzero => by
        rw [Dyadic.num, hzero, Nat.zero_mul] at hpos
        exact lt_irrefl 0 hpos
      refine ⟨d, hvalue, ofFloat_nearestFloat negative hd hmantissa one_pos ?_⟩
      rw [Nat.cast_one, div_one, ← hvalue]
      exact d.near_value
    · -- A fraction leaves fifty-two digits for the whole part.
      have hnum : d.num = d.mantissa := by
        rw [Dyadic.num, show d.exponent.toNat = 0 by omega]
        exact Nat.mul_one _
      have hden : 1 ≤ d.den := d.den_pos
      have hlt : q < 2 ^ 53 := by
        have hmantissa := hd.mantissa_lt
        rw [← hq, Nat.div_lt_iff_lt_mul (by omega), hnum]
        omega
      exact exists_ofFloat_nearestFloat_eq hpos hlt negative

/-- A finite double is rounded to a whole number that is within a half of it. -/
theorem exists_int_roundDouble (hx : x.isFinite = true) :
    ∃ n : ℤ, realOf (roundDouble x) = n ∧ (roundDouble x).isFinite = true ∧
      |(n : ℝ) - realOf x| ≤ 1 / 2 := by
  obtain ⟨negative, d, hread⟩ := Reading.isFinite_iff.mp hx
  obtain ⟨c, hvalue, hread'⟩ :=
    exists_ofFloat_nearestFloat_rounded (Reading.canonical_of_ofFloat hread) negative
  have hround : roundDouble x = nearestFloat negative ((2 * d.num + d.den) / (2 * d.den)) 1 := by
    rw [roundDouble, hread]
  have hdistance := abs_rounded_sub_le d.num d.den_pos
  rw [← d.value_eq_div] at hdistance
  rw [hround, realOf_of_ofFloat hread', realOf_of_ofFloat hread]
  refine ⟨signedBy negative ((2 * d.num + d.den) / (2 * d.den)), ?_,
    Reading.isFinite_iff.mpr ⟨negative, c, hread'⟩, ?_⟩
  · rw [signedValue, signedBy, hvalue]
    cases negative with
    | true => rw [if_pos rfl, if_pos rfl, Int.cast_neg, Int.cast_natCast]
    | false => rw [if_neg (by decide), if_neg (by decide), Int.cast_natCast]
  · rw [signedValue, signedBy]
    cases negative with
    | true =>
      rw [if_pos rfl, if_pos rfl, Int.cast_neg, Int.cast_natCast, ← neg_sub', abs_neg]
      exact hdistance
    | false =>
      rw [if_neg (by decide), if_neg (by decide), Int.cast_natCast]
      exact hdistance

/-- A zero is left alone. -/
theorem ofFloat_roundDouble_zero {negative : Bool} {d : Dyadic}
    (hread : Reading.ofFloat x = .finite negative d) (hzero : d.mantissa = 0) :
    Reading.ofFloat (roundDouble x) = .finite negative ⟨0, -1074⟩ := by
  have hquotient : (2 * d.num + d.den) / (2 * d.den) = 0 := by
    have hden := d.den_pos
    rw [Dyadic.num, hzero, Nat.zero_mul, Nat.mul_zero, Nat.zero_add]
    exact Nat.div_eq_of_lt (by omega)
  have hround : roundDouble x = nearestFloat negative 0 1 := by
    rw [roundDouble, hread, ← hquotient]
  rw [hround, ofFloat_nearestFloat_zero]

/-- What is not finite is left alone. -/
theorem roundDouble_of_not_isFinite (hx : ¬x.isFinite = true) : roundDouble x = x := by
  rw [roundDouble]
  split
  · rename_i negative d hread
    exact absurd (Reading.isFinite_iff.mpr ⟨negative, d, hread⟩) hx
  · rfl

end SphereLab
