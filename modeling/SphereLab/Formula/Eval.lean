import SphereLab.Failure
import SphereLab.Formula.Basic

/-!
# Evaluating formulas

A formula has a value in an environment that binds its symbols.  An evaluation goes from
left to right, and the first symbol without a value ends it.
-/

namespace SphereLab

namespace Formula

variable {α : Type} [Scalar α]

/-- The evaluation met a symbol that has no value. -/
structure Unbound where
  name : String
  deriving DecidableEq, Repr

/-- The failure that a missing value amounts to. -/
def Unbound.failure (u : Unbound) : Failure :=
  .output ("No value bound for symbol `" ++ u.name ++ "`")

mutual

/-- The value of a formula. -/
def eval (env : String → Option α) : Formula α → Except Unbound α
  | .const v => .ok v
  | .symbol s =>
    match env s with
    | some v => .ok v
    | none => .error ⟨s⟩
  | .sum ts => (evalEach env ts).map fun vs => vs.foldl (· + ·) 0
  | .product fs => (evalEach env fs).map Scalar.totalProduct
  | .power b e =>
    match eval env b with
    | .error u => .error u
    | .ok base => (eval env e).map (Scalar.power base)
  | .exponential x => (eval env x).map Scalar.exp

/-- The values of several formulas. -/
def evalEach (env : String → Option α) : List (Formula α) → Except Unbound (List α)
  | [] => .ok []
  | f :: fs =>
    match eval env f with
    | .error u => .error u
    | .ok v => (evalEach env fs).map (v :: ·)

end

end Formula

end SphereLab
