import SphereLab.Decimal.Dyadic

/-!
# Scalars

The numerical parts of this library --- formulas, least squares, schedules, smoothing, axis
ranges --- are written over a type of scalars, so that one and the same definition runs on
doubles and can be reasoned about over exact arithmetic.  A `Scalar` instance lists the
operations that those definitions use and assumes no law: the laws enter where a theorem
needs them.

Comparisons are those of the scalars themselves.  On doubles `==` is the comparison in
which a zero equals its negative and not-a-number differs from everything.
-/

namespace SphereLab

/-- The operations that numerical definitions use. -/
class Scalar (α : Type) extends Zero α, One α, Add α, Sub α, Mul α, Div α, Neg α, BEq α,
    LT α, LE α, OfScientific α where
  /-- The strict order can be tested. -/
  decLT : DecidableLT α
  /-- The weak order can be tested. -/
  decLE : DecidableLE α
  /-- The scalar nearest to an integer. -/
  ofInt : Int → α
  /-- The integer part, toward zero, held within sixty-four bits. -/
  toInt : α → Int
  /-- Is the scalar a number, and not an infinity? -/
  isFinite : α → Bool
  /-- The absolute value. -/
  abs : α → α
  /-- The nearest integer, halves away from zero. -/
  round : α → α
  /-- The greatest integer that is not greater. -/
  floor : α → α
  /-- The square root. -/
  sqrt : α → α
  /-- The exponential function. -/
  exp : α → α
  /-- The natural logarithm. -/
  log : α → α
  /-- The power function at a general exponent. -/
  pow : α → α → α
  /-- The length of the hypotenuse over two legs. -/
  hypot : α → α → α

attribute [reducible, instance] Scalar.decLT Scalar.decLE

namespace Scalar

variable {α : Type} [Scalar α]

/-! ## Integers among scalars -/

/-- The scalar of a natural number. -/
def ofNat (n : Nat) : α := ofInt (n : Int)

/-- The natural number of a scalar, toward zero and held within sixty-four bits.  An integer part
spends one of these bits on its sign, so that the upper half is counted from its middle on. -/
def toCount (v : α) : Nat :=
  if 9223372036854775808.0 ≤ v then
    Nat.pow 2 63 + (toInt (v - 9223372036854775808.0)).toNat
  else (toInt v).toNat

/-- Is the scalar an integer small enough to be told apart from its neighbours without
doubt?  The bound is `10 ^ 15`. -/
def isInteger (v : α) : Bool :=
  isFinite v && decide (abs v < 1e15) && ofInt (toInt v) == v

/-! ## Powers -/

/-- Powers by repeated squaring: `acc · base ^ n`, for `n ≥ 1` with one squaring for each
binary digit but the last. -/
def powLoop (acc base : α) (n : Nat) : α :=
  let acc := if n % 2 = 1 then acc * base else acc
  if n / 2 = 0 then acc else powLoop acc (base * base) (n / 2)
termination_by n
decreasing_by omega

/-- An integer power: the reciprocal is taken last. -/
def powInt (base : α) (n : Int) : α :=
  let power := powLoop 1 base n.natAbs
  if n < 0 then 1 / power else power

/-- The power that formulas mean: by repeated multiplication at an integer exponent that
fits thirty-one bits, and by the general power function otherwise. -/
def power (base exponent : α) : α :=
  if isInteger exponent && decide (abs exponent ≤ 2147483647.0) then
    powInt base (toInt exponent)
  else pow base exponent

/-! ## Sums and products -/

/-- The sum of a list from the left, starting at the negative of zero, which changes no
summand and no exact sum. -/
def total (xs : List α) : α := xs.foldl (· + ·) (-0)

/-- The product of a list from the left. -/
def totalProduct (xs : List α) : α := xs.foldl (· * ·) 1

/-! ## The larger and the smaller of two -/

/-- The larger of two scalars; a scalar that is not a number gives way to the other. -/
def maxOf (a b : α) : α := if a < b then b else if a == a then a else b

/-- The smaller of two scalars; a scalar that is not a number gives way to the other. -/
def minOf (a b : α) : α := if b < a then b else if a == a then a else b

end Scalar

/-! ## Doubles -/

/-- The integer nearest to a double toward zero, within sixty-four bits. -/
def truncateDouble (x : Float) : Int :=
  (Reading.ofFloat x).toInteger fun d => d.num / d.den

/-- The double nearest to an integer. -/
def doubleOfInt (n : Int) : Float := nearestFloat (n < 0) n.natAbs 1

/-- The whole double nearest to a double, halves away from zero.  A double that rounds to zero keeps
its sign. -/
def roundDouble (x : Float) : Float :=
  match Reading.ofFloat x with
  | .finite negative d => nearestFloat negative ((2 * d.num + d.den) / (2 * d.den)) 1
  | _ => x

/-- The square of a magnitude over a common scale `2 ^ -2148`. -/
private def squareUnits (d : Dyadic) : Nat :=
  let units := d.mantissa * Nat.pow 2 (d.exponent + 1074).toNat
  units * units

/-- The length of the hypotenuse, rounded once.  The sum of the squares is exact, its root is
taken with spare binary digits, and an inexact root is marked by a last odd digit, which
keeps it off every tie. -/
def hypotDouble (x y : Float) : Float :=
  match Reading.ofFloat x, Reading.ofFloat y with
  | .infinite _, _ => 1.0 / 0.0
  | _, .infinite _ => 1.0 / 0.0
  | .nan, _ => 0.0 / 0.0
  | _, .nan => 0.0 / 0.0
  | .finite _ a, .finite _ b =>
    let square := squareUnits a + squareUnits b
    if square = 0 then 0.0
    else
      let spare := 130
      let scaled := square * Nat.pow 2 (2 * spare)
      let root := rootOf scaled
      let marked := if root * root = scaled then 2 * root else 2 * root + 1
      nearestFloat false marked (Nat.pow 2 (1075 + spare))
where
  /-- The integer square root, by Newton's iteration from above. -/
  rootOf (n : Nat) : Nat := descend n (Nat.pow 2 (n.log2 / 2 + 1)) (n.log2 + 2)
  /-- Newton's iteration while it descends. -/
  descend (n guess : Nat) : Nat → Nat
    | 0 => guess
    | fuel + 1 =>
      let next := (guess + n / guess) / 2
      if next < guess then descend n next fuel else guess

instance : Scalar Float where
  zero := 0.0
  one := 1.0
  decLT := inferInstance
  decLE := inferInstance
  ofInt := doubleOfInt
  toInt := truncateDouble
  isFinite := Float.isFinite
  abs := Float.abs
  round := roundDouble
  floor := Float.floor
  sqrt := Float.sqrt
  exp := Float.exp
  log := Float.log
  pow := Float.pow
  hypot := hypotDouble

/-- Half the circumference of the unit circle, as a double. -/
def piDouble : Float := 3.141592653589793

end SphereLab
