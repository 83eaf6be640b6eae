import SphereLab.Decimal.Style

/-!
# General notation

`generalText?` writes a double with a chosen number of significant digits, dropping
trailing fractional zeros.  It uses positional notation while the rounded value has an
exponent from `-4` up to below the precision, and otherwise exponent notation with a
signed exponent of at least two digits.

The digits are laid out twice, first to find the exponent and then, in positional notation, to
write the value; either time there may be more of them than a layout takes.  Job names, file
names and generated constants use six digits unless they say otherwise, which are never too
many: `generalText` is for such precisions.
-/

namespace SphereLab

/-- A text without its trailing zeros after a point, nor a point at its end; a text with no
point is left alone. -/
def stripZeros (cs : List Char) : List Char :=
  if cs.contains '.' then
    ((cs.reverse.dropWhile (· == '0')).dropWhile (· == '.')).reverse
  else cs

/-- At least two digits of an exponent. -/
def twoDigits (n : Nat) : List Char :=
  let digits := decimalDigits n
  List.replicate (2 - digits.length) '0' ++ digits

/-- General notation of a magnitude other than zero, with `precision ≥ 1` digits, unless a layout
does not take as many as are asked of it.  The exponent is compared with the precision as a
signed integer of thirty-two bits. -/
def generalMagnitude? (precision : Nat) (d : Dyadic) : Option (List Char) :=
  if precisionLimit < precision - 1 then none
  else
    let s := d.significant precision
    let bound := Int.bmod precision (Nat.pow 2 32)
    if s.exponent < -4 ∨ bound ≤ s.exponent then
      some (stripZeros (pointAfterFirst (s.text precision)) ++
        'e' :: (if s.exponent < 0 then '-' else '+') :: twoDigits s.exponent.natAbs)
    else
      let places := (bound - 1 - s.exponent).toNat
      if precisionLimit < places then none else some (stripZeros (fixedMagnitude places d))

/-- General notation with `precision` significant digits, unless these are too many; a precision
of zero means one. -/
def generalText? (precision : Nat) (x : Float) : Option String :=
  match Reading.ofFloat x with
  | .nan => some "nan"
  | .infinite negative => some (if negative then "-inf" else "inf")
  | .finite negative d =>
    (if d.mantissa = 0 then some ['0'] else generalMagnitude? (max precision 1) d).map fun cs =>
      String.ofList (signText negative ++ cs)

/-- General notation with a precision that is not too great for any double. -/
def generalText (precision : Nat) (x : Float) : String := (generalText? precision x).getD ""

/-- General notation with six significant digits. -/
def general (x : Float) : String := generalText 6 x

/-! ## Rounding to an integer -/

/-- The integer nearest to a double, halves away from zero, held within sixty-four bits;
not-a-number gives zero. -/
def nearestInteger (x : Float) : Int :=
  (Reading.ofFloat x).toInteger fun d => (2 * d.num + d.den) / (2 * d.den)

/-- The text of a double rounded to the nearest integer. -/
def roundedText (x : Float) : String := integerText (nearestInteger x)

end SphereLab
