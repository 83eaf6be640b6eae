/-!
# Doubles as signed dyadic numbers

A finite double is a sign together with a magnitude `m · 2 ^ q`, with `m` a natural number
and `q` an integer.  This module reads that pair off the sixty-four bits, and goes back
from a rational magnitude to the nearest double, so that every question about digits can
be settled in natural-number arithmetic.

`Reading.ofFloat` decodes, `nearestFloat` encodes.  Rounding is to nearest with ties to
even, in one place: `roundHalfEven`.
-/

namespace SphereLab

/-! ## Rounding a quotient -/

/-- The natural number nearest to `num / den`, an exact tie going to the even neighbour. -/
def roundHalfEven (num den : Nat) : Nat :=
  let quotient := num / den
  let twice := 2 * (num % den)
  if twice < den then quotient
  else if den < twice then quotient + 1
  else quotient + quotient % 2

/-! ## Magnitudes -/

/-- The magnitude `mantissa · 2 ^ exponent`. -/
structure Dyadic where
  mantissa : Nat
  exponent : Int
  deriving DecidableEq, Repr

namespace Dyadic

/-- The numerator of the magnitude written as a quotient of natural numbers. -/
def num (d : Dyadic) : Nat := d.mantissa * Nat.pow 2 d.exponent.toNat

/-- The denominator that goes with `num`, a power of two. -/
def den (d : Dyadic) : Nat := Nat.pow 2 (-d.exponent).toNat

theorem den_pos (d : Dyadic) : 0 < d.den := Nat.two_pow_pos _

end Dyadic

/-! ## Reading a double -/

/-- What the bits of a double say. -/
inductive Reading where
  | nan
  | infinite (negative : Bool)
  | finite (negative : Bool) (magnitude : Dyadic)
  deriving DecidableEq, Repr

namespace Reading

/-- Decode sixty-four bits.  A zero exponent field has no hidden bit. -/
def ofBits (bits : UInt64) : Reading :=
  let negative := bits >>> 63 == 1
  let field := ((bits >>> 52) &&& 0x7FF).toNat
  let fraction := (bits &&& 0xFFFFFFFFFFFFF).toNat
  if field = 2047 then
    if fraction = 0 then .infinite negative else .nan
  else if field = 0 then .finite negative ⟨fraction, -1074⟩
  else .finite negative ⟨Nat.pow 2 52 + fraction, (field : Int) - 1075⟩

/-- Decode a double. -/
def ofFloat (x : Float) : Reading := ofBits x.toBits

end Reading

/-! ## Integers near a double -/

/-- An integer held within sixty-four bits. -/
def heldInWord (n : Int) : Int :=
  let bound : Int := (Nat.pow 2 63 : Nat)
  max (-bound) (min n (bound - 1))

/-- The bound of sixty-four bits on the side of a sign. -/
def endOfWord (negative : Bool) : Int :=
  let bound : Int := (Nat.pow 2 63 : Nat)
  if negative then -bound else bound - 1

/-- A natural number with a sign. -/
def signedBy (negative : Bool) (magnitude : Nat) : Int :=
  if negative then -(magnitude : Int) else magnitude

/-- The integer that a double amounts to when magnitudes are rounded in some way, held within
sixty-four bits; not-a-number gives zero. -/
def Reading.toInteger (rounded : Dyadic → Nat) : Reading → Int
  | .nan => 0
  | .infinite negative => endOfWord negative
  | .finite negative d => heldInWord (signedBy negative (rounded d))

/-! ## The nearest double -/

/-- The bits of a nonnegative double with the given significand and exponent, where the
significand is below `2 ^ 53`, and is at least `2 ^ 52` unless the exponent is `-1074`.
A significand of exactly `2 ^ 53` carries into the exponent, and an exponent past the
range gives infinity. -/
def packBits (significand : Nat) (exponent : Int) : UInt64 :=
  let biased := (exponent + 1074).toNat
  let packed := biased * Nat.pow 2 52 + significand
  let infinity := 2047 * Nat.pow 2 52
  if packed < infinity then packed.toUInt64 else infinity.toUInt64

/-- The double nearest to `num / den`, ties to even. -/
def nearestMagnitude (num den : Nat) : Float :=
  if num = 0 then 0.0
  else
    let guess : Int := (num.log2 : Int) - den.log2
    let below : Bool :=
      if 0 ≤ guess then decide (num < den * Nat.pow 2 guess.toNat)
      else decide (num * Nat.pow 2 (-guess).toNat < den)
    let binade := if below then guess - 1 else guess
    let exponent := max (binade - 52) (-1074)
    let significand :=
      if 0 ≤ exponent then roundHalfEven num (den * Nat.pow 2 exponent.toNat)
      else roundHalfEven (num * Nat.pow 2 (-exponent).toNat) den
    Float.ofBits (packBits significand exponent)

/-- The double nearest to `± num / den`; a zero keeps the sign. -/
def nearestFloat (negative : Bool) (num den : Nat) : Float :=
  let magnitude := nearestMagnitude num den
  if negative then -magnitude else magnitude

end SphereLab
