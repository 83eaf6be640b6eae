import Mathlib
import SphereLab.Formula.Basic

/-!
# The operations that build formulas

An `Operation` is one way of building a formula out of formulas and constants, together with
what it is applied to.  `Operation.result` is the simplified formula that the library makes of
it.  Statements about all the ways of building a formula are statements about operations.
-/

namespace SphereLab

namespace Formula

/-- An operation on formulas, applied to its operands. -/
inductive Operation (α : Type) where
  | sum (terms : List (Formula α))
  | product (factors : List (Formula α))
  | add (f g : Formula α)
  /-- A constant behind a formula. -/
  | addConst (f : Formula α) (c : α)
  /-- A constant in front of a formula. -/
  | constAdd (c : α) (f : Formula α)
  | sub (f g : Formula α)
  | subConst (f : Formula α) (c : α)
  | mul (f g : Formula α)
  | scale (c : α) (f : Formula α)
  | div (f g : Formula α)
  | divConst (f : Formula α) (c : α)
  | neg (f : Formula α)
  | recip (f : Formula α)
  | pow (base exponent : Formula α)
  | powConst (base : Formula α) (exponent : α)
  | powInt (base : Formula α) (exponent : Int)
  | exp (argument : Formula α)

namespace Operation

variable {α : Type}

/-- The formulas that an operation is applied to. -/
def operands : Operation α → List (Formula α)
  | .sum fs | .product fs => fs
  | .add f g | .sub f g | .mul f g | .div f g | .pow f g => [f, g]
  | .addConst f _ | .constAdd _ f | .subConst f _ | .scale _ f | .divConst f _ | .neg f |
    .recip f | .powConst f _ | .powInt f _ | .exp f => [f]

/-- The simplified formula that an operation builds. -/
def result [Scalar α] : Operation α → Formula α
  | .sum fs => sumOf fs
  | .product fs => productOf fs
  | .add f g => f + g
  | .addConst f c => f + .const c
  | .constAdd c f => .const c + f
  | .sub f g => f - g
  | .subConst f c => f.subConst c
  | .mul f g => f * g
  | .scale c f => Formula.scale c f
  | .div f g => f / g
  | .divConst f c => f.divConst c
  | .neg f => -f
  | .recip f => f.recip
  | .pow f g => f.pow g
  | .powConst f c => f.powConst c
  | .powInt f n => f.powInt n
  | .exp f => f.exp

end Operation

end Formula

end SphereLab
