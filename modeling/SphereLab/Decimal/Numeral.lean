import SphereLab.Decimal.Dyadic

/-!
# Reading numerals

The grammar of a numeral in data files, headers and arguments: an optional sign, then
`inf`, `infinity` or `nan` in any mixture of cases, or decimal digits with an optional
point, a digit on at least one side of it, and an optional exponent.  Nothing else is a
numeral, not even with blanks around it.

`Numeral.scan?` recognises the grammar and keeps the exact decimal; `Numeral.toFloat`
rounds it once, to the nearest double.
-/

namespace SphereLab

/-- An exact numeral: `± digits · 10 ^ exponent`, or one of the three words. -/
inductive Numeral where
  | nan
  | infinite (negative : Bool)
  | decimal (negative : Bool) (digits : Nat) (exponent : Int)
  deriving DecidableEq, Repr

namespace Numeral

/-! ## Pieces of the grammar -/

/-- The number written by a run of decimal digits. -/
def ofDigits (cs : List Char) : Nat :=
  cs.foldl (fun n c => 10 * n + (c.toNat - 48)) 0

/-- An optional sign, and what follows it. -/
def splitSign : List Char → Bool × List Char
  | '-' :: rest => (true, rest)
  | '+' :: rest => (false, rest)
  | cs => (false, cs)

/-- The digits behind an optional point, and what follows them. -/
def splitFraction : List Char → List Char × List Char
  | '.' :: rest => (rest.takeWhile Char.isDigit, rest.dropWhile Char.isDigit)
  | cs => ([], cs)

/-- The exponent part at the end of a numeral: nothing, or an `e` with a signed run of
digits. -/
def scanExponent? : List Char → Option Int
  | [] => some 0
  | c :: rest =>
    if c = 'e' ∨ c = 'E' then
      let (negative, digits) := splitSign rest
      if digits.isEmpty || !digits.all Char.isDigit then none
      else some (if negative then -(ofDigits digits : Int) else ofDigits digits)
    else none

/-- A numeral behind its sign. -/
def scanUnsigned? (negative : Bool) (cs : List Char) : Option Numeral :=
  let word := cs.map Char.toLower
  if word = ['n', 'a', 'n'] then some .nan
  else if word = ['i', 'n', 'f'] ∨ word = ['i', 'n', 'f', 'i', 'n', 'i', 't', 'y'] then
    some (.infinite negative)
  else
    let whole := cs.takeWhile Char.isDigit
    let (fraction, tail) := splitFraction (cs.dropWhile Char.isDigit)
    if whole.isEmpty && fraction.isEmpty then none
    else
      (scanExponent? tail).map fun e =>
        .decimal negative (ofDigits (whole ++ fraction)) (e - fraction.length)

/-- Recognise a numeral. -/
def scan? (cs : List Char) : Option Numeral :=
  let (negative, rest) := splitSign cs
  scanUnsigned? negative rest

/-! ## Values -/

/-- The double nearest to `digits · 10 ^ exponent`.  A product that is far past the range
of doubles, or far below it, is settled by the length of its digits alone. -/
def nearestDecimal (negative : Bool) (digits : Nat) (exponent : Int) : Float :=
  let size : Int := (decimalLength digits : Int) + exponent
  if digits = 0 ∨ size < -330 then nearestFloat negative 0 1
  else if 310 < size then nearestFloat negative (Nat.pow 10 310) 1
  else nearestFloat negative (digits * Nat.pow 10 exponent.toNat) (Nat.pow 10 (-exponent).toNat)
where
  /-- The number of characters in which a natural number is written. -/
  decimalLength (n : Nat) : Nat := (Nat.toDigits 10 n).length

/-- The double that a numeral stands for. -/
def toFloat : Numeral → Float
  | .nan => 0.0 / 0.0
  | .infinite negative => if negative then -1.0 / 0.0 else 1.0 / 0.0
  | .decimal negative digits exponent => nearestDecimal negative digits exponent

end Numeral

/-- The double written by a numeral, if the text is one. -/
def readDouble? (cs : List Char) : Option Float := (Numeral.scan? cs).map Numeral.toFloat

/-- The natural number below `bound` written by a run of digits, with an optional plus. -/
def readNatural? (bound : Nat) (cs : List Char) : Option Nat :=
  let digits := match cs with
    | '+' :: rest => rest
    | _ => cs
  if digits.isEmpty || !digits.all Char.isDigit then none
  else
    let n := Numeral.ofDigits digits
    if n < bound then some n else none

/-- The integer written by a run of digits, with an optional sign. -/
def readInteger? (cs : List Char) : Option Int :=
  let (negative, digits) := Numeral.splitSign cs
  if digits.isEmpty || !digits.all Char.isDigit then none
  else some (if negative then -(Numeral.ofDigits digits : Int) else Numeral.ofDigits digits)

end SphereLab
