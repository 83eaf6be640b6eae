import Mathlib
import SphereLab.Proofs.Scalar.Exact

/-!
# Numbers with a mark

Exact arithmetic has no place for a quotient by zero or for the root of a negative number.  Here
every number keeps its arithmetic, and whatever is not a number becomes the mark `undefined`: an
operation gives the mark where it has no value, and wherever it meets the mark.  Nothing is equal to
the mark or compares with it, and the numbers are just what is finite.

* `isFinite_iff`, `exists_eq_map_number`: what is finite is a number.
* `lt_irrefl`, `lt_trans`, `le_of_lt`: the strict order of marked numbers.
* `minOf_number`, `maxOf_number`: the smaller and the larger of two numbers.
* `total_number`: sums of numbers are sums.
-/

namespace SphereLab

/-- A number, or the mark of what is none. -/
inductive Marked (K : Type) where
  | number (a : K)
  | undefined

namespace Marked

variable {K : Type}

/-- An operation that need not have a value at every number. -/
def bind (f : K → Marked K) : Marked K → Marked K
  | number a => f a
  | undefined => undefined

/-- An operation on numbers. -/
def lift (f : K → K) : Marked K → Marked K := bind fun a => number (f a)

/-- An operation on pairs of numbers. -/
def lift₂ (f : K → K → K) (a b : Marked K) : Marked K := a.bind fun x => b.lift (f x)

/-- A comparison, which fails at the mark. -/
def Compares (r : K → K → Prop) : Marked K → Marked K → Prop
  | number a, number b => r a b
  | _, _ => False

instance decidableCompares (r : K → K → Prop) [DecidableRel r] : DecidableRel (Compares r)
  | number a, number b => inferInstanceAs (Decidable (r a b))
  | number _, undefined => isFalse id
  | undefined, _ => isFalse id

instance [Scalar K] : Scalar (Marked K) where
  zero := number 0
  one := number 1
  add := lift₂ (· + ·)
  sub := lift₂ (· - ·)
  mul := lift₂ (· * ·)
  div a b := a.bind fun x => b.bind fun y => if y == 0 then undefined else number (x / y)
  neg := lift (-·)
  beq
    | number a, number b => a == b
    | _, _ => false
  lt := Compares (· < ·)
  le := Compares (· ≤ ·)
  ofScientific m s e := number (OfScientific.ofScientific m s e)
  decLT := decidableCompares (· < ·)
  decLE := decidableCompares (· ≤ ·)
  ofInt n := number (Scalar.ofInt n)
  toInt
    | number a => Scalar.toInt a
    | undefined => 0
  isFinite
    | number _ => true
    | undefined => false
  abs := lift Scalar.abs
  round := lift Scalar.round
  floor := lift Scalar.floor
  sqrt := bind fun x => if x < 0 then undefined else number (Scalar.sqrt x)
  exp := lift Scalar.exp
  log := bind fun x => if x ≤ 0 then undefined else number (Scalar.log x)
  pow a b := a.bind fun x => b.bind fun y =>
    if x < 0 ∧ (y == Scalar.floor y) = false ∨ (x == 0) = true ∧ y < 0 then undefined
    else number (Scalar.pow x y)
  hypot := lift₂ Scalar.hypot

/-! ## Operations on numbers -/

/-- What is combined from numbers is combined as numbers. -/
theorem foldl_number {f : Marked K → Marked K → Marked K} {g : K → K → K}
    (h : ∀ a b, f (number a) (number b) = number (g a b)) (start : K) (xs : List K) :
    (xs.map number).foldl f (number start) = number (xs.foldl g start) := by
  induction xs generalizing start with
  | nil => rfl
  | cons x xs ih =>
    rw [List.map_cons, List.foldl_cons, List.foldl_cons, h]
    exact ih (g start x)

section Operations

variable [Scalar K] (a b : K)

@[simp] theorem zero_eq : (0 : Marked K) = number 0 := rfl

@[simp] theorem one_eq : (1 : Marked K) = number 1 := rfl

@[simp] theorem number_add : number a + number b = number (a + b) := rfl

@[simp] theorem number_sub : number a - number b = number (a - b) := rfl

@[simp] theorem number_mul : number a * number b = number (a * b) := rfl

@[simp] theorem number_neg : -number a = number (-a) := rfl

theorem number_div : number a / number b = if b == 0 then undefined else number (a / b) := rfl

@[simp] theorem number_lt : number a < number b ↔ a < b := Iff.rfl

@[simp] theorem number_le : number a ≤ number b ↔ a ≤ b := Iff.rfl

@[simp] theorem isFinite_number : Scalar.isFinite (number a) = true := rfl

@[simp] theorem abs_number : Scalar.abs (number a) = number (Scalar.abs a) := rfl

/-- What is finite is a number. -/
theorem isFinite_iff {x : Marked K} : Scalar.isFinite x = true ↔ ∃ a, x = number a := by
  constructor
  · intro h
    cases x with
    | number a => exact ⟨a, rfl⟩
    | undefined => exact absurd h Bool.false_ne_true
  · rintro ⟨a, rfl⟩
    rfl

/-- What is all finite is a list of numbers. -/
theorem exists_eq_map_number {xs : List (Marked K)} (h : ∀ x ∈ xs, Scalar.isFinite x = true) :
    ∃ as : List K, xs = as.map number := by
  have hrange : xs ∈ Set.range (List.map (number : K → Marked K)) := by
    rw [Set.range_list_map]
    intro x hx
    obtain ⟨a, ha⟩ := isFinite_iff.mp (h x hx)
    exact ⟨a, ha.symm⟩
  obtain ⟨as, has⟩ := hrange
  exact ⟨as, has.symm⟩

end Operations

/-! ## Marked numbers over exact arithmetic -/

section Exact

variable [ExactScalar K] {x y z : Marked K}

/-- A literal is the rational number that it writes. -/
theorem ofScientific_eq_number (m : ℕ) (s : Bool) (e : ℕ) :
    (OfScientific.ofScientific m s e : Marked K) =
      number ((OfScientific.ofScientific m s e : ℚ) : K) :=
  congrArg number (ExactScalar.ofScientific_eq_ratCast m s e)

theorem lt_irrefl (x : Marked K) : ¬ x < x := by
  cases x with
  | number a => exact fun h => ((number_lt a a).mp h).false
  | undefined => exact id

theorem lt_trans (hxy : x < y) (hyz : y < z) : x < z := by
  cases x with
  | undefined => exact hxy
  | number a =>
    cases y with
    | undefined => exact absurd hxy id
    | number b =>
      cases z with
      | undefined => exact hyz
      | number c => exact ((number_lt a b).mp hxy).trans ((number_lt b c).mp hyz)

theorem le_of_lt (h : x < y) : x ≤ y := by
  cases x with
  | undefined => exact h
  | number a =>
    cases y with
    | undefined => exact h
    | number b => exact ((number_lt a b).mp h).le

theorem minOf_number (a b : K) : Scalar.minOf (number a) (number b) = number (min a b) := by
  have hself : (number a == number a) = true := (ExactScalar.beq_iff_eq a a).mpr rfl
  rw [Scalar.minOf, hself, if_pos rfl]
  split
  · rename_i hlt
    rw [min_eq_right ((number_lt b a).mp hlt).le]
  · rename_i hge
    rw [min_eq_left (not_lt.mp hge)]

theorem maxOf_number (a b : K) : Scalar.maxOf (number a) (number b) = number (max a b) := by
  have hself : (number a == number a) = true := (ExactScalar.beq_iff_eq a a).mpr rfl
  rw [Scalar.maxOf, hself, if_pos rfl]
  split
  · rename_i hlt
    rw [max_eq_right ((number_lt a b).mp hlt).le]
  · rename_i hge
    rw [max_eq_left (not_lt.mp hge)]

/-- A sum of numbers. -/
theorem total_number (xs : List K) : Scalar.total (xs.map number) = number xs.sum := by
  rw [Scalar.total, zero_eq, number_neg, foldl_number number_add, neg_zero, List.sum_eq_foldl]

end Exact

end Marked

end SphereLab
