import SphereLab.Decimal.Digits

/-!
# Texts of doubles

A text of a double is made in two steps.  `Decimal.Digits` chooses the digits; a `Style`
decides how they are laid out: which exponents are written positionally, whether a whole
number keeps a fractional zero, how a positive exponent is marked, and what stands for the
values that are not numbers.

Every output format of this library is one `Style` value, or one of the two layouts with a
set number of digits, `fixedText` and `scientificText`.  A number of digits that the user may
choose goes through `fixedText?`, since there are more than a layout takes.
-/

namespace SphereLab

/-! ## Laying out digits -/

/-- The sign of a text: a minus or nothing. -/
def signText (negative : Bool) : List Char := if negative then ['-'] else []

/-- The digits of an integer in units of `10 ^ -places`, with the point set. -/
def setPoint (places n : Nat) : List Char :=
  let digits := decimalDigits n
  let padded := List.replicate (places + 1 - digits.length) '0' ++ digits
  if places = 0 then padded
  else padded.take (padded.length - places) ++ '.' :: padded.drop (padded.length - places)

/-- A significand in scientific layout: a point after the first of several digits. -/
def pointAfterFirst : List Char → List Char
  | [] => []
  | [d] => [d]
  | d :: rest => d :: '.' :: rest

/-- An integer in decimal, with a minus sign when negative. -/
def integerDigits (n : Int) : List Char := signText (n < 0) ++ decimalDigits n.natAbs

/-- The text of an integer. -/
def integerText (n : Int) : String := String.ofList (integerDigits n)

/-- The text of a natural number. -/
def naturalText (n : Nat) : String := String.ofList (decimalDigits n)

/-! ## A set number of digits -/

/-- The digits of a magnitude with `places` digits after the point, correctly rounded. -/
def fixedMagnitude (places : Nat) (d : Dyadic) : List Char :=
  setPoint places (fixedDigits places d.num d.den)

/-- A double with `places` digits after the point. -/
def fixedText (places : Nat) (x : Float) : String :=
  match Reading.ofFloat x with
  | .nan => "NaN"
  | .infinite negative => String.ofList (signText negative ++ ['i', 'n', 'f'])
  | .finite negative d => String.ofList (signText negative ++ fixedMagnitude places d)

/-- The significand and the decimal exponent of a magnitude with `count` significant
digits.  Zero has the exponent zero. -/
def Dyadic.significant (count : Nat) (d : Dyadic) : Significant :=
  if d.mantissa = 0 then ⟨0, 0⟩ else SphereLab.significant count d.num d.den

/-- The `count` digits of a significand; those of zero are all zero. -/
def Significant.text (count : Nat) (s : Significant) : List Char :=
  let digits := decimalDigits s.digits
  digits ++ List.replicate (count - digits.length) '0'

/-- A double in scientific notation with `places` digits after the point. -/
def scientificText (places : Nat) (x : Float) : String :=
  match Reading.ofFloat x with
  | .nan => "NaN"
  | .infinite negative => String.ofList (signText negative ++ ['i', 'n', 'f'])
  | .finite negative d =>
    let s := d.significant (places + 1)
    String.ofList (signText negative ++ pointAfterFirst (s.text (places + 1)) ++
      'e' :: integerDigits s.exponent)

/-! ## Precisions known at run time -/

/-- The most digits behind a point that a layout takes when their number is known only at run
time; asked for more, the program breaks off. -/
def precisionLimit : Nat := 65535

/-- A double with `places` digits after the point, unless these are more than a layout takes. -/
def fixedText? (places : Nat) (x : Float) : Option String :=
  if precisionLimit < places then none else some (fixedText places x)

theorem fixedText?_of_le {places : Nat} (h : places ≤ precisionLimit) (x : Float) :
    fixedText? places x = some (fixedText places x) := if_neg (Nat.not_lt.mpr h)

theorem fixedText?_of_lt {places : Nat} (h : precisionLimit < places) (x : Float) :
    fixedText? places x = none := if_pos h

/-! ## Fields -/

/-- A text on the right of a field of a given width. -/
def alignRight (width : Nat) (s : String) : String :=
  String.ofList (List.replicate (width - s.length) ' ') ++ s

/-- A text filled up with zeros to a given width; a sign stays in front. -/
def fillZeros (width : Nat) (s : String) : String :=
  let zeros := List.replicate (width - s.length) '0'
  match s.toList with
  | '-' :: rest => String.ofList ('-' :: (zeros ++ rest))
  | cs => String.ofList (zeros ++ cs)

/-! ## Shortest digits, by style -/

/-- How the shortest digits of a double are laid out. -/
structure Style where
  /-- Is a value with this decimal exponent written positionally? -/
  positional : Int → Bool
  /-- Does a whole number in positional layout end in `.0`? -/
  wholePoint : Bool
  /-- Does an exponent that is not negative carry a plus sign? -/
  plusSign : Bool
  /-- Which of two equally short and equally near texts is taken. -/
  tie : Tie
  /-- The text for not-a-number. -/
  nan : String
  /-- The text for positive infinity. -/
  infinity : String
  /-- The text for negative infinity. -/
  negInfinity : String

namespace Style

/-- Positional layout of `digits`, which are `count` many and start at `10 ^ exponent`. -/
def layPositional (style : Style) (digits : List Char) (count : Nat) (exponent : Int) :
    List Char :=
  if exponent < 0 then
    '0' :: '.' :: (List.replicate (-exponent - 1).toNat '0' ++ digits)
  else
    let whole := exponent.toNat + 1
    if count ≤ whole then
      digits ++ List.replicate (whole - count) '0' ++
        (if style.wholePoint then ['.', '0'] else [])
    else digits.take whole ++ '.' :: digits.drop whole

/-- Exponent layout of the same digits. -/
def layExponent (style : Style) (digits : List Char) (exponent : Int) : List Char :=
  pointAfterFirst digits ++
    'e' :: ((if style.plusSign && decide (0 ≤ exponent) then ['+'] else []) ++
      integerDigits exponent)

/-- The layout of a magnitude. -/
def magnitude (style : Style) (d : Dyadic) : List Char :=
  if d.mantissa = 0 then style.layPositional ['0'] 1 0
  else
    let (s, count) := d.shortest style.tie
    let digits := decimalDigits s.digits
    if style.positional s.exponent then style.layPositional digits count s.exponent
    else style.layExponent digits s.exponent

/-- The text of a double in a style. -/
def text (style : Style) (x : Float) : String :=
  match Reading.ofFloat x with
  | .nan => style.nan
  | .infinite false => style.infinity
  | .infinite true => style.negInfinity
  | .finite negative d => String.ofList (signText negative ++ style.magnitude d)

/-- Shortest digits, never an exponent and no fractional zero: the style of numbers inside
messages and formulas. -/
def plain : Style := ⟨fun _ => true, false, false, .upper, "NaN", "inf", "-inf"⟩

/-- Values copied from input: positional from `10 ^ -4` up to below `10 ^ 16`, a whole
number with a fractional zero. -/
def exact : Style := ⟨fun e => -4 ≤ e && e ≤ 15, true, false, .upper, "NaN", "inf", "-inf"⟩

/-- Cells of a comma-separated table: as `exact`, but positional from `10 ^ -5`,
and of two equally near texts the even one. -/
def cell : Style := ⟨fun e => -5 ≤ e && e ≤ 15, true, false, .even, "NaN", "inf", "-inf"⟩

/-- Numbers of an exported document: a positive exponent has its sign, and what is not a
number is `null`. -/
def document : Style := ⟨fun e => -5 ≤ e && e ≤ 15, true, true, .even, "null", "null", "null"⟩

end Style

end SphereLab
