import SphereLab.Decimal.Dyadic

/-!
# Decimal digits of a positive rational

Three ways to pick decimal digits for a magnitude `num / den`, all in natural-number
arithmetic and all without a loop that searches for the exponent:

* `fixedDigits`: the magnitude in units of `10 ^ -places`, rounded half to even;
* `significant`: a chosen number of significant digits together with the decimal exponent
  of the rounded value;
* `shortest`: the fewest digits that read back as the same double.

Each result is an integer and an exponent, never a text.  Texts are made in
`Decimal.Style` and `Decimal.General`.
-/

namespace SphereLab

/-! ## Counting digits -/

/-- The number of decimal digits of `n`, and zero for zero. -/
def digitCount (n : Nat) : Nat :=
  if h : n = 0 then 0 else digitCount (n / 10) + 1
termination_by n
decreasing_by omega

/-- The decimal digits of `n`, most significant first; `0` is written with one digit. -/
def decimalDigits (n : Nat) : List Char := Nat.toDigits 10 n

/-- The integer `e` with `10 ^ e ≤ num / den < 10 ^ (e + 1)`. -/
def decimalExponent (num den : Nat) : Int :=
  if den ≤ num then (digitCount (num / den) : Int) - 1
  else -(digitCount ((den - 1) / num) : Int)

/-- `num / den · 10 ^ shift`, as a quotient of natural numbers. -/
def shiftDecimal (num den : Nat) (shift : Int) : Nat × Nat :=
  (num * Nat.pow 10 shift.toNat, den * Nat.pow 10 (-shift).toNat)

/-! ## A fixed number of places -/

/-- The magnitude in units of `10 ^ -places`. -/
def fixedDigits (places num den : Nat) : Nat :=
  roundHalfEven (num * Nat.pow 10 places) den

/-! ## Significant digits -/

/-- A decimal in scientific form: with `count` digits in `digits`, the value is
`digits · 10 ^ (exponent - count + 1)`. -/
structure Significant where
  digits : Nat
  exponent : Int
  deriving DecidableEq, Repr

/-- The magnitude rounded to `count` significant digits, half to even.  Rounding up to the
next power of ten moves the exponent. -/
def significant (count num den : Nat) : Significant :=
  let exponent := decimalExponent num den
  let scaled := shiftDecimal num den ((count : Int) - 1 - exponent)
  let digits := roundHalfEven scaled.1 scaled.2
  if digits = Nat.pow 10 count then ⟨Nat.pow 10 (count - 1), exponent + 1⟩
  else ⟨digits, exponent⟩

/-! ## The fewest digits that read back -/

/-- The reals that round to a double, scaled so that the magnitude is `twice the mantissa`
quarter units: a lower end, the magnitude and an upper end over one denominator, with the
ends included or not. -/
structure Basin where
  lower : Nat
  middle : Nat
  upper : Nat
  den : Nat
  closed : Bool

/-- The basin of a positive finite magnitude.  Below a power of two the spacing of doubles
is half as wide, except next to the smallest normal number. -/
def Dyadic.basin (d : Dyadic) : Basin :=
  let narrow := d.mantissa = Nat.pow 2 52 ∧ -1074 < d.exponent
  let scale := Nat.pow 2 d.exponent.toNat
  { lower := (if narrow then 4 * d.mantissa - 1 else 4 * d.mantissa - 2) * scale
    middle := 4 * d.mantissa * scale
    upper := (4 * d.mantissa + 2) * scale
    den := 4 * d.den
    closed := d.mantissa % 2 = 0 }

/-- Does the decimal `digits · unit / per` fall into the basin? -/
def Basin.holds (b : Basin) (digits unit per : Nat) : Bool :=
  let point := digits * unit * b.den
  if b.closed then decide (b.lower * per ≤ point) && decide (point ≤ b.upper * per)
  else decide (b.lower * per < point) && decide (point < b.upper * per)

/-- Which of two decimals that are equally near is taken. -/
inductive Tie where
  | upper
  /-- The one with the even last digit. -/
  | even
  deriving DecidableEq, Repr

/-- Is the upper one of two decimals in a row taken, if they are equally near? -/
def Tie.goesUp (tie : Tie) (below : Nat) : Bool :=
  match tie with
  | .upper => true
  | .even => below % 2 == 1

/-- The basin's point on the grid of `count` digits, if there is one: of the two neighbours
of the magnitude the nearer. -/
def Basin.onGrid (b : Basin) (tie : Tie) (exponent : Int) (count : Nat) : Option Nat :=
  let shift := exponent - count + 1
  let unit := Nat.pow 10 shift.toNat
  let per := Nat.pow 10 (-shift).toNat
  let below := b.middle * per / (b.den * unit)
  let above := below + 1
  let centre := 2 * b.middle * per
  match b.holds below unit per, b.holds above unit per with
  | false, false => none
  | true, false => some below
  | false, true => some above
  | true, true =>
    let halfway := (below + above) * unit * b.den
    if centre < halfway || (centre == halfway && !tie.goesUp below) then some below
    else some above

/-- The first grid, from `count` digits on, that has a point in the basin; `fuel` grids are
tried. -/
def Basin.search (b : Basin) (tie : Tie) (exponent : Int) (count : Nat) :
    Nat → Significant × Nat
  | 0 => (⟨0, 0⟩, 1)
  | fuel + 1 =>
    match b.onGrid tie exponent count with
    | some digits =>
      if digits = Nat.pow 10 count then (⟨1, exponent + 1⟩, 1)
      else (⟨digits, exponent⟩, count)
    | none => b.search tie exponent (count + 1) fuel

/-- The fewest digits that read back as the same double, with their number.  Seventeen
digits always do. -/
def Dyadic.shortest (tie : Tie) (d : Dyadic) : Significant × Nat :=
  d.basin.search tie (decimalExponent d.num d.den) 1 18

end SphereLab
