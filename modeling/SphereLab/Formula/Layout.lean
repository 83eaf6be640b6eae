import SphereLab.Decimal.Style
import SphereLab.Formula.Basic

/-!
# Layouts of formulas

Before a formula is written it is brought into a `Layout`: the minus signs of terms and
products stand apart from what they negate, negative powers stand below a fraction bar, and
special powers have forms of their own.  What is left for a notation is to choose its
symbols and to set parentheses.

The two notations of this library, `Formula.LaTeX` and `Formula.CSource`, share everything
but the forms of powers, which a `PowerForm` chooses from the exponent.
-/

namespace SphereLab

/-- A formula laid out for writing. -/
inductive Layout (α : Type) where
  | number (value : α)
  | name (symbol : String)
  /-- A sum; a term with a true sign is subtracted. -/
  | sum (signs : List Bool) (terms : List (Layout α))
  /-- A product of the factors above over those below, with a minus in front or not. -/
  | quotient (negative : Bool) (above below : List (Layout α))
  /-- One over a layout. -/
  | reciprocal (below : Layout α)
  | power (base exponent : Layout α)
  /-- A base multiplied by itself. -/
  | repeated (base : Layout α) (count : Nat)
  | root (base : Layout α)
  | exponential (argument : Layout α)

/-- How a notation writes a power, by its exponent. -/
inductive PowerForm where
  | reciprocal
  | root
  | repeated (count : Nat)
  | power
  deriving DecidableEq, Repr

namespace Formula

variable {α : Type} [Scalar α]

/-- Is the formula a negative constant, or a product that begins with one? -/
def isNegative : Formula α → Bool
  | .const v => decide (v < 0)
  | .product (.const v :: _) => decide (v < 0)
  | _ => false

/-- The negative of a term that is subtracted. -/
def negated : Formula α → Formula α
  | .const v => .const (-v)
  | f => -f

/-- A term as it stands behind its sign. -/
def unsigned (f : Formula α) : Formula α := if isNegative f then negated f else f

/-- A factor that belongs below the bar, without its minus: a power with a negative
constant exponent. -/
def below? : Formula α → Option (Formula α)
  | .power b (.const n) => if n < 0 then some (powConst b (-n)) else none
  | _ => none

/-- The constant that a product begins with, if it is negative. -/
def leadingMinus? : List (Formula α) → Option α
  | .const v :: _ => if v < 0 then some v else none
  | _ => none

/-- The factors of a product without a leading minus: a negative constant in front turns
positive, and a one that this leaves is dropped. -/
def unsignedFactors (fs : List (Formula α)) : List (Formula α) :=
  match leadingMinus? fs with
  | none => fs
  | some v => if v == -1 then fs.drop 1 else .const (-v) :: fs.drop 1

mutual

/-- A bound on the depth to which laying out a formula goes.  A power weighs three times its
base, which pays for the powers that come to stand inside when an integer exponent moves
into a product, and a negative exponent weighs one more than the positive one that is laid
out in its place. -/
def weight : Formula α → Nat
  | .const _ => 1
  | .symbol _ => 1
  | .sum ts => 1 + weightEach ts
  | .product fs => 1 + weightEach fs
  | .power b (.const n) => (if n < 0 then 4 else 3) + 3 * weight b
  | .power b e => 3 + 3 * weight b + weight e
  | .exponential x => 1 + weight x

/-- The weights of several formulas, with two more for each. -/
def weightEach : List (Formula α) → Nat
  | [] => 0
  | f :: fs => weight f + 2 + weightEach fs

end

/-- Lay out a formula, at most `fuel` levels deep. -/
def layoutWithin (form : α → PowerForm) : Nat → Formula α → Layout α
  | 0, _ => .number 0
  | fuel + 1, f =>
    match f with
    | .const v => .number v
    | .symbol s => .name s
    | .sum ts => .sum (ts.map isNegative) (ts.map fun t => layoutWithin form fuel (unsigned t))
    | .product fs =>
      let factors := unsignedFactors fs
      .quotient (leadingMinus? fs).isSome
        ((factors.filter (·.below?.isNone)).map (layoutWithin form fuel))
        ((factors.filterMap below?).map (layoutWithin form fuel))
    | .power b (.const n) =>
      match form n with
      | .reciprocal => .reciprocal (layoutWithin form fuel (powConst b (-n)))
      | .root => .root (layoutWithin form fuel b)
      | .repeated count => .repeated (layoutWithin form fuel b) count
      | .power => .power (layoutWithin form fuel b) (layoutWithin form fuel (.const n))
    | .power b e => .power (layoutWithin form fuel b) (layoutWithin form fuel e)
    | .exponential x => .exponential (layoutWithin form fuel x)

/-- Lay out a formula for a notation that writes powers in the given forms. -/
def layout (form : α → PowerForm) (f : Formula α) : Layout α :=
  layoutWithin form f.weight f

/-- The text of a constant: an integer without a point, any other number by `write`. -/
def constantText (write : α → String) (v : α) : String :=
  if Scalar.isInteger v then integerText (Scalar.toInt v) else write v

end Formula

end SphereLab
