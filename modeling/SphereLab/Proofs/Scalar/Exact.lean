import Mathlib
import SphereLab.Proofs.Double.Value
import SphereLab.Scalar

/-!
# Exact scalars

The operations of a `Scalar` come without laws.  `ExactScalar` adds the laws of exact arithmetic:
the scalars are an ordered field, the comparisons and literals are those of that field, and the
power function is repeated multiplication wherever the exponent is an integer.  The exponential,
the logarithm and the roots stay arbitrary functions, and so do powers at other exponents, apart
from the powers of one.

* `isInteger_iff`: the test for small integers is exact.
* `powInt_eq_zpow`, `power_intCast`: repeated squaring computes integer powers.
* `power_eq_pow`: where a power is defined, it does not matter whether it is taken by repeated
  squaring or by the power function.

The real numbers, with the real exponential, logarithm, roots and powers, are exact scalars.  No
word bounds their integers, so what is counted with them is counted to its end.

* `neg_floor_neg`, `toCount_real_natCast`: ceilings and counts of real numbers.
-/

namespace SphereLab

/-- Scalars that compute exactly. -/
class ExactScalar (α : Type) extends Scalar α, Field α, LinearOrder α, IsStrictOrderedRing α where
  /-- The test for equality is exact. -/
  beq_iff_eq : ∀ a b : α, (a == b) = true ↔ a = b
  ofInt_eq_intCast : ∀ n : ℤ, Scalar.ofInt n = (n : α)
  toInt_intCast : ∀ n : ℤ, |n| < 2 ^ 63 → Scalar.toInt (n : α) = n
  /-- Integers are finite.  What else counts as finite is left open. -/
  isFinite_intCast : ∀ n : ℤ, Scalar.isFinite (n : α) = true
  abs_eq_abs : ∀ a : α, Scalar.abs a = |a|
  /-- A literal is the rational number that it writes. -/
  ofScientific_eq_ratCast : ∀ (m : ℕ) (s : Bool) (e : ℕ),
    (OfScientific.ofScientific m s e : α) = ((OfScientific.ofScientific m s e : ℚ) : α)
  /-- The power function multiplies repeatedly, except that nothing is known about dividing by
  zero. -/
  pow_intCast : ∀ (b : α) (n : ℤ), b ≠ 0 ∨ 0 ≤ n → Scalar.pow b (n : α) = b ^ n
  one_pow : ∀ y : α, Scalar.pow 1 y = 1

namespace Scalar

variable {α : Type} [ExactScalar α]

/-! ## Integers among exact scalars -/

theorem ofNat_eq_natCast (n : ℕ) : (ofNat n : α) = n := by
  rw [ofNat, ExactScalar.ofInt_eq_intCast, Int.cast_natCast]

theorem beq_eq_false_iff_ne {a b : α} : (a == b) = false ↔ a ≠ b := by
  rw [← Bool.not_eq_true, ExactScalar.beq_iff_eq]

/-- The bound of `isInteger`. -/
theorem literal_bound : (1e15 : α) = 10 ^ 15 := by
  rw [ExactScalar.ofScientific_eq_ratCast]
  norm_num

/-- The test for small integers is exact. -/
theorem isInteger_iff {v : α} : isInteger v = true ↔ ∃ n : ℤ, |n| < 10 ^ 15 ∧ v = n := by
  rw [isInteger, Bool.and_eq_true, Bool.and_eq_true, decide_eq_true_eq, ExactScalar.abs_eq_abs,
    literal_bound, ExactScalar.beq_iff_eq, ExactScalar.ofInt_eq_intCast]
  constructor
  · rintro ⟨⟨_, hbound⟩, hv⟩
    refine ⟨toInt v, ?_, hv.symm⟩
    rw [← hv] at hbound
    exact_mod_cast hbound
  · rintro ⟨n, hn, rfl⟩
    have hword : |n| < 2 ^ 63 := lt_trans hn (by norm_num)
    rw [ExactScalar.toInt_intCast n hword]
    exact ⟨⟨ExactScalar.isFinite_intCast n, by exact_mod_cast hn⟩, rfl⟩

/-- A small integer is the scalar of its integer part. -/
theorem intCast_toInt {v : α} (h : isInteger v = true) : ((toInt v : ℤ) : α) = v := by
  obtain ⟨n, hn, rfl⟩ := isInteger_iff.mp h
  rw [ExactScalar.toInt_intCast n (lt_trans hn (by norm_num))]

/-! ## Powers -/

/-- Repeated squaring multiplies its start by a power. -/
theorem powLoop_eq (acc base : α) (n : ℕ) : powLoop acc base n = acc * base ^ n := by
  induction n using Nat.strong_induction_on generalizing acc base with
  | _ n ih =>
    rw [powLoop]
    have hsplit : n % 2 + 2 * (n / 2) = n := Nat.mod_add_div n 2
    by_cases hzero : n / 2 = 0
    · obtain rfl | rfl : n = 0 ∨ n = 1 := by omega
      · simp
      · simp
    · have hsquare : (base * base) ^ (n / 2) = base ^ (2 * (n / 2)) := by
        rw [← pow_two, ← pow_mul]
      simp only [hzero, if_false]
      rw [ih (n / 2) (by omega), hsquare]
      rcases Nat.mod_two_eq_zero_or_one n with hodd | hodd
      · have heven : 2 * (n / 2) = n := by omega
        simp [hodd, heven]
      · have hnext : n = 2 * (n / 2) + 1 := by omega
        conv_rhs => rw [hnext, pow_succ']
        simp [hodd, mul_assoc]

/-- An integer power by repeated squaring is the integer power. -/
theorem powInt_eq_zpow (base : α) (n : ℤ) : powInt base n = base ^ n := by
  rw [powInt, powLoop_eq, one_mul]
  by_cases hn : n < 0
  · obtain ⟨m, rfl⟩ : ∃ m : ℕ, n = -(m : ℤ) := ⟨n.natAbs, by omega⟩
    rw [if_pos hn, Int.natAbs_neg, Int.natAbs_natCast, zpow_neg, zpow_natCast, one_div]
  · obtain ⟨m, rfl⟩ := Int.eq_ofNat_of_zero_le (not_lt.mp hn)
    simp

/-- Where a power is defined, it does not matter how it is taken. -/
theorem power_eq_pow {b e : α} (h : b ≠ 0 ∨ 0 ≤ e) : power b e = pow b e := by
  rw [power]
  split
  · rename_i hsmall
    have hint : isInteger e = true := (Bool.and_eq_true _ _ ▸ hsmall).1
    have he := intCast_toInt hint
    have hdef : b ≠ 0 ∨ 0 ≤ toInt e := by
      rw [← he] at h
      exact_mod_cast h
    rw [powInt_eq_zpow, ← ExactScalar.pow_intCast b _ hdef, he]
  · rfl

/-- A power at an integer exponent is repeated multiplication. -/
theorem power_intCast {b : α} {n : ℤ} (h : b ≠ 0 ∨ 0 ≤ n) : power b (n : α) = b ^ n := by
  rw [power_eq_pow (by exact_mod_cast h), ExactScalar.pow_intCast b n h]

theorem power_zero (b : α) : power b 0 = 1 := by
  have h := power_intCast (b := b) (n := 0) (Or.inr le_rfl)
  rwa [Int.cast_zero, zpow_zero] at h

theorem power_one (b : α) : power b 1 = b := by
  have h := power_intCast (b := b) (n := 1) (Or.inr zero_le_one)
  rwa [Int.cast_one, zpow_one] at h

theorem one_power (e : α) : power 1 e = 1 := by
  rw [power_eq_pow (Or.inl one_ne_zero), ExactScalar.one_pow]

/-! ## Sums and products -/

theorem total_eq_sum (xs : List α) : total xs = xs.sum := by
  rw [total, neg_zero, List.sum_eq_foldl]

theorem totalProduct_eq_prod (xs : List α) : totalProduct xs = xs.prod :=
  List.prod_eq_foldl.symm

end Scalar

/-! ## The real numbers -/

/-- The integer part of a real number, toward zero. -/
noncomputable def integerPart (x : ℝ) : ℤ := if 0 ≤ x then ⌊x⌋ else ⌈x⌉

theorem integerPart_intCast (n : ℤ) : integerPart n = n := by
  rw [integerPart, Int.floor_intCast, Int.ceil_intCast, ite_self]

/-- Real numbers compute exactly, with integers of any size. -/
noncomputable instance : ExactScalar ℝ where
  __ := (inferInstance : Field ℝ)
  __ := (inferInstance : LinearOrder ℝ)
  __ := (inferInstance : IsStrictOrderedRing ℝ)
  toBEq := instBEqOfDecidableEq
  decLT := inferInstance
  decLE := inferInstance
  ofInt n := n
  toInt := integerPart
  isFinite _ := true
  abs x := |x|
  round x := if 0 ≤ x then ⌊x + 1 / 2⌋ else ⌈x - 1 / 2⌉
  floor x := ⌊x⌋
  sqrt := Real.sqrt
  exp := Real.exp
  log := Real.log
  pow := Real.rpow
  hypot x y := Real.sqrt (x ^ 2 + y ^ 2)
  beq_iff_eq _ _ := beq_iff_eq
  ofInt_eq_intCast _ := rfl
  toInt_intCast n _ := integerPart_intCast n
  isFinite_intCast _ := rfl
  abs_eq_abs _ := rfl
  ofScientific_eq_ratCast m s e := (Rat.cast_ofScientific m s e).symm
  pow_intCast b n _ := Real.rpow_intCast b n
  one_pow := Real.one_rpow

theorem round_of_nonneg {x : ℝ} (h : 0 ≤ x) : Scalar.round x = ⌊x + 1 / 2⌋ := if_pos h

theorem toInt_real_intCast (n : ℤ) : Scalar.toInt (n : ℝ) = n := integerPart_intCast n

/-- The negated floor of a negated number is its ceiling. -/
theorem neg_floor_neg (x : ℝ) : -(Scalar.floor (-x)) = (⌈x⌉ : ℝ) := by
  show -((⌊-x⌋ : ℤ) : ℝ) = ⌈x⌉
  rw [Int.floor_neg, Int.cast_neg, neg_neg]

/-- Real numbers count to the end. -/
theorem toCount_real_natCast (n : ℕ) : Scalar.toCount (n : ℝ) = n := by
  have hmiddle : (9223372036854775808.0 : ℝ) = (2 ^ 63 : ℕ) := by norm_num
  have hword : Nat.pow 2 63 = 2 ^ 63 := rfl
  rw [Scalar.toCount, hmiddle, hword]
  split
  · rename_i hle
    have hle' : 2 ^ 63 ≤ n := Nat.cast_le.mp hle
    rw [← Nat.cast_sub hle', ← Int.cast_natCast, toInt_real_intCast, Int.toNat_natCast,
      Nat.add_sub_cancel' hle']
  · rw [← Int.cast_natCast, toInt_real_intCast, Int.toNat_natCast]

end SphereLab
