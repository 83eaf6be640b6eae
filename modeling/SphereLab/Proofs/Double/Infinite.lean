import Mathlib
import SphereLab.Proofs.Double.Range

/-!
# Infinite doubles

An infinity takes part in products and quotients by its sign, and where zeros and infinities meet
nothing is left that is a number.  What is finite or positively infinite can still be bounded from
below: a product is at least the product of the powers of two that bound its factors, because
rounding does not go past a power of two, and overflow only goes up.

* `ofFloat_mul_infinite`, `ofFloat_infinite_div`, `ofFloat_infinite_div_infinite`,
  `ofFloat_zero_div_zero`: products and quotients with infinities and zeros.
* `IsAtLeast.mul`: lower bounds of products.
* `isAtLeast_powLoop`: a power by repeated squaring is at least the power of a bound of its base.
-/

namespace SphereLab

open Float.Model

/-! ## Products and quotients by their readings -/

namespace Reading

variable {x y : Float} {negative negative' : Bool} {d d' : Dyadic}

theorem ofFloat_pack_nan : ofFloat (.ofModel (.pack (unpacked .nan))) = .nan := by decide +kernel

theorem ofFloat_pack_infinite (negative : Bool) :
    ofFloat (.ofModel (.pack (unpacked (.infinite negative)))) = .infinite negative := by
  cases negative with
  | true => decide +kernel
  | false => decide +kernel

theorem sign_mul (negative negative' : Bool) :
    sign negative * sign negative' = sign (negative != negative') := by
  cases negative <;> cases negative' <;> rfl

theorem sign_div (negative negative' : Bool) :
    sign negative / sign negative' = sign (negative != negative') := by
  cases negative <;> cases negative' <;> rfl

/-- What is read as no number is none. -/
theorem isNaN_iff : x.isNaN = true ↔ ofFloat x = .nan := by
  have hnan : x.isNaN = (unpacked (ofFloat x)).isNaN := by
    rw [← unpack_eq]
    rfl
  rw [hnan]
  cases ofFloat x with
  | nan => exact iff_of_true rfl rfl
  | infinite negative => exact iff_of_false (by simp [unpacked, UnpackedFloat.isNaN]) (by simp)
  | finite negative d =>
    refine iff_of_false ?_ (by simp)
    rw [unpacked]
    split
    · exact Bool.false_ne_true
    · exact Bool.false_ne_true

theorem mul_eq (x y : Float) : x * y = .ofModel (.pack
    (UnpackedFloat.mul .binary64 (unpacked (ofFloat x)) (unpacked (ofFloat y)))) := by
  rw [← unpack_eq, ← unpack_eq]
  rfl

theorem div_eq (x y : Float) : x / y = .ofModel (.pack
    (UnpackedFloat.div .binary64 (unpacked (ofFloat x)) (unpacked (ofFloat y)))) := by
  rw [← unpack_eq, ← unpack_eq]
  rfl

theorem unpacked_zero (negative : Bool) (hzero : d.mantissa = 0) :
    unpacked (.finite negative d) = .zero (sign negative) := by
  rw [unpacked, dif_neg (by omega)]

theorem unpacked_of_pos (negative : Bool) (hpos : 0 < d.mantissa) :
    unpacked (.finite negative d) = .finite (sign negative) d.mantissa d.exponent hpos := by
  rw [unpacked, dif_pos hpos]

/-- A product with an infinity is infinite, unless the other factor is zero. -/
theorem ofFloat_mul_infinite (hx : ofFloat x = .finite negative d)
    (hy : ofFloat y = .infinite negative') :
    ofFloat (x * y) = if 0 < d.mantissa then .infinite (negative != negative') else .nan := by
  rw [mul_eq, hx, hy]
  split
  · rename_i hpos
    have hmul : UnpackedFloat.mul .binary64 (unpacked (.finite negative d))
        (unpacked (.infinite negative')) = unpacked (.infinite (negative != negative')) := by
      rw [unpacked_of_pos negative hpos]
      exact congrArg UnpackedFloat.infinity (sign_mul negative negative')
    rw [hmul, ofFloat_pack_infinite]
  · rename_i hzero
    have hmul : UnpackedFloat.mul .binary64 (unpacked (.finite negative d))
        (unpacked (.infinite negative')) = unpacked .nan := by
      rw [unpacked_zero negative (by omega)]
      rfl
    rw [hmul, ofFloat_pack_nan]

theorem ofFloat_infinite_mul (hx : ofFloat x = .infinite negative)
    (hy : ofFloat y = .finite negative' d) (hpos : 0 < d.mantissa) :
    ofFloat (x * y) = .infinite (negative != negative') := by
  have hmul : UnpackedFloat.mul .binary64 (unpacked (.infinite negative))
      (unpacked (.finite negative' d)) = unpacked (.infinite (negative != negative')) := by
    rw [unpacked_of_pos negative' hpos]
    exact congrArg UnpackedFloat.infinity (sign_mul negative negative')
  rw [mul_eq, hx, hy, hmul, ofFloat_pack_infinite]

theorem ofFloat_infinite_mul_infinite (hx : ofFloat x = .infinite negative)
    (hy : ofFloat y = .infinite negative') :
    ofFloat (x * y) = .infinite (negative != negative') := by
  have hmul : UnpackedFloat.mul .binary64 (unpacked (.infinite negative))
      (unpacked (.infinite negative')) = unpacked (.infinite (negative != negative')) :=
    congrArg UnpackedFloat.infinity (sign_mul negative negative')
  rw [mul_eq, hx, hy, hmul, ofFloat_pack_infinite]

/-- A part of what is no number is no number. -/
theorem ofFloat_nan_div (hx : ofFloat x = .nan) : ofFloat (x / y) = .nan := by
  have hdiv : UnpackedFloat.div .binary64 (unpacked .nan) (unpacked (ofFloat y)) =
      unpacked .nan := by
    cases unpacked (ofFloat y) with
    | _ => rfl
  rw [div_eq, hx, hdiv, ofFloat_pack_nan]

/-- An infinity stays one when it is divided by what is neither zero nor infinite. -/
theorem ofFloat_infinite_div (hx : ofFloat x = .infinite negative)
    (hy : ofFloat y = .finite negative' d) (hpos : 0 < d.mantissa) :
    ofFloat (x / y) = .infinite (negative != negative') := by
  have hdiv : UnpackedFloat.div .binary64 (unpacked (.infinite negative))
      (unpacked (.finite negative' d)) = unpacked (.infinite (negative != negative')) := by
    rw [unpacked_of_pos negative' hpos]
    exact congrArg UnpackedFloat.infinity (sign_div negative negative')
  rw [div_eq, hx, hy, hdiv, ofFloat_pack_infinite]

theorem ofFloat_infinite_div_infinite (hx : ofFloat x = .infinite negative)
    (hy : ofFloat y = .infinite negative') : ofFloat (x / y) = .nan := by
  have hdiv : UnpackedFloat.div .binary64 (unpacked (.infinite negative))
      (unpacked (.infinite negative')) = unpacked .nan := rfl
  rw [div_eq, hx, hy, hdiv, ofFloat_pack_nan]

/-- A part of a finite double by an infinity is zero. -/
theorem ofFloat_div_infinite (hx : ofFloat x = .finite negative d)
    (hy : ofFloat y = .infinite negative') :
    ofFloat (x / y) = .finite (negative != negative') ⟨0, -1074⟩ := by
  have hdiv : UnpackedFloat.div .binary64 (unpacked (.finite negative d))
      (unpacked (.infinite negative')) =
        unpacked (.finite (negative != negative') ⟨0, -1074⟩) := by
    rw [unpacked_zero (d := ⟨0, -1074⟩) (negative != negative') rfl, ← sign_div]
    by_cases hpos : 0 < d.mantissa
    · rw [unpacked_of_pos negative hpos]
      rfl
    · rw [unpacked_zero negative (by omega)]
      rfl
  rw [div_eq, hx, hy, hdiv]
  exact ofFloat_pack ⟨by norm_num, le_rfl, by norm_num, Or.inr rfl⟩ _

theorem ofFloat_zero_div_zero (hx : ofFloat x = .finite negative d) (hzero : d.mantissa = 0)
    (hy : ofFloat y = .finite negative' d') (hzero' : d'.mantissa = 0) :
    ofFloat (x / y) = .nan := by
  rw [div_eq, hx, hy, unpacked_zero _ hzero, unpacked_zero _ hzero']
  exact ofFloat_pack_nan

end Reading

/-! ## Lower bounds -/

/-- Rounding does not go below a magnitude. -/
theorem Dyadic.Rounds.le_value {c d : Dyadic} {x : ℝ} (h : d.Rounds x) (hc : c.Normalised)
    (hx : c.lowerEnd < x) : c.value ≤ d.value := by
  by_contra hlt
  have hends := h.toNormalised.upperEnd_le_lowerEnd hc (not_le.mp hlt)
  linarith [h.near.le.2]

/-- The double is the positive infinity or at least a power of two. -/
def IsAtLeast (k : ℕ) (x : Float) : Prop :=
  Reading.ofFloat x = .infinite false ∨ x.isFinite = true ∧ 2 ^ k ≤ realOf x

namespace IsAtLeast

variable {x y : Float} {a b : ℕ}

/-- The magnitude of a positive finite double. -/
theorem exists_reading (hx : x.isFinite = true) (hpos : 0 < realOf x) :
    ∃ d : Dyadic, Reading.ofFloat x = .finite false d ∧ 0 < d.mantissa := by
  obtain ⟨negative, d, hread⟩ := Reading.isFinite_iff.mp hx
  rw [realOf_of_ofFloat hread] at hpos
  cases negative with
  | true =>
    rw [signedValue, if_pos rfl] at hpos
    exact absurd (neg_pos.mp hpos) d.value_nonneg.not_gt
  | false =>
    refine ⟨d, hread, Nat.pos_of_ne_zero fun hzero => ?_⟩
    rw [signedValue_of_mantissa_eq_zero hzero] at hpos
    exact lt_irrefl 0 hpos

/-- A product is at least the product of the bounds of its factors. -/
theorem mul (hx : IsAtLeast a x) (hy : IsAtLeast b y) : IsAtLeast (a + b) (x * y) := by
  have hpos : ∀ {k : ℕ} {z : Float}, 2 ^ k ≤ realOf z → 0 < realOf z := fun hz =>
    lt_of_lt_of_le (by positivity) hz
  rcases hx with hx | ⟨hx, hxa⟩
  · rcases hy with hy | ⟨hy, hyb⟩
    · exact Or.inl (Reading.ofFloat_infinite_mul_infinite hx hy)
    · obtain ⟨d, hread, hmantissa⟩ := exists_reading hy (hpos hyb)
      exact Or.inl (Reading.ofFloat_infinite_mul hx hread hmantissa)
  · rcases hy with hy | ⟨hy, hyb⟩
    · obtain ⟨d, hread, hmantissa⟩ := exists_reading hx (hpos hxa)
      have hmul := Reading.ofFloat_mul_infinite hread hy
      rw [if_pos hmantissa] at hmul
      exact Or.inl hmul
    · obtain ⟨negative, d, hrounds, hread⟩ := exists_roundsTo_mul hx hy
      have hproduct : 0 < realOf x * realOf y := mul_pos (hpos hxa) (hpos hyb)
      obtain rfl := hrounds.pos hproduct
      rw [Reading.ofRounded] at hread
      split at hread
      · refine Or.inr ⟨Reading.isFinite_iff.mpr ⟨false, d, hread⟩, ?_⟩
        have hpower : Dyadic.value ⟨2 ^ 52, (a + b : ℕ) - 52⟩ = 2 ^ (a + b) := by
          show ((2 ^ 52 : ℕ) : ℝ) * 2 ^ (((a + b : ℕ) : ℤ) - 52) = 2 ^ (a + b)
          rw [Nat.cast_pow, Nat.cast_ofNat, ← zpow_natCast, ← zpow_natCast,
            ← zpow_add₀ two_ne_zero, Nat.cast_ofNat, add_sub_cancel]
        have hexponent : (-1074 : ℤ) ≤ (a + b : ℕ) - 52 := by omega
        have hnormal : Dyadic.Normalised ⟨2 ^ 52, (a + b : ℕ) - 52⟩ :=
          ⟨by norm_num, hexponent, Or.inl le_rfl⟩
        have hbound : (2 : ℝ) ^ (a + b) ≤ |realOf x * realOf y| := by
          rw [abs_of_pos hproduct, pow_add]
          exact mul_le_mul hxa hyb (by positivity) (hpos hxa).le
        have hle := hrounds.toRounds.le_value hnormal
          ((Dyadic.lowerEnd_lt_value _).trans_le (hpower ▸ hbound))
        rwa [realOf_of_ofFloat hread, signedValue, if_neg (by decide), ← hpower]
      · exact Or.inl hread

theorem one : IsAtLeast 0 1.0 := Or.inr ⟨realOf_one.2, by rw [realOf_one.1, pow_zero]⟩

/-- What is at least `2 ^ 1024` is infinite. -/
theorem eq_infinite (hx : IsAtLeast a x) (ha : 1024 ≤ a) : Reading.ofFloat x = .infinite false := by
  rcases hx with hx | ⟨hx, hxa⟩
  · exact hx
  · exfalso
    have hlt := (le_abs_self _).trans_lt (abs_realOf_lt hx)
    have hbound : doubleBound ≤ 2 ^ a := by
      have hunit : (0 : ℝ) < 2 ^ (971 : ℤ) := by positivity
      calc doubleBound ≤ 2 ^ (53 : ℤ) * 2 ^ (971 : ℤ) :=
            mul_le_mul_of_nonneg_right (by norm_num) hunit.le
        _ = 2 ^ (1024 : ℤ) := by
            rw [← zpow_add₀ two_ne_zero]
            rfl
        _ ≤ 2 ^ (a : ℤ) := zpow_le_zpow_right₀ one_le_two (by omega)
        _ = 2 ^ a := zpow_natCast 2 a
    linarith

end IsAtLeast

/-- A power by repeated squaring is at least the power of a bound of its base.  One step doubles the
bound of the base and halves the exponent, and what is left over goes into the first factor. -/
theorem isAtLeast_powLoop {acc base : Float} {a b : ℕ} (hacc : IsAtLeast a acc)
    (hbase : IsAtLeast b base) (n : ℕ) : IsAtLeast (a + b * n) (Scalar.powLoop acc base n) := by
  induction n using Nat.strong_induction_on generalizing acc base a b with
  | _ n ih =>
    have hsplit : n % 2 + 2 * (n / 2) = n := Nat.mod_add_div n 2
    have hacc' : IsAtLeast (a + b * (n % 2)) (if n % 2 = 1 then acc * base else acc) := by
      rcases Nat.mod_two_eq_zero_or_one n with heven | hodd
      · rw [if_neg (by omega), heven, mul_zero, add_zero]
        exact hacc
      · rw [if_pos hodd, hodd, mul_one]
        exact hacc.mul hbase
    have hexponent : a + b * (n % 2) + (b + b) * (n / 2) = a + b * n := by
      conv_rhs => rw [← hsplit]
      ring
    rw [Scalar.powLoop]
    split
    · rename_i hlast
      rw [hlast, mul_zero, add_zero] at hexponent
      exact hexponent ▸ hacc'
    · exact hexponent ▸ ih (n / 2) (by omega) hacc' (hbase.mul hbase)

end SphereLab
