import SphereLab.Formula.Eval

/-!
# Compiled formulas

A `Program` is a formula whose symbols have been resolved, once, to positions in a list of
arguments, so that evaluating it many times looks nothing up.  Small integer exponents are
resolved too.

`Formula.compile` resolves a formula against a list of argument names, and fails on the
first symbol that is not listed.  `Program.eval?` has no value when an argument that it uses
is missing.
-/

namespace SphereLab

/-- The tree of a compiled formula. -/
inductive Program.Tree (α : Type) where
  | const (value : α)
  | argument (position : Nat)
  | sum (terms : List (Program.Tree α))
  | product (factors : List (Program.Tree α))
  | powInt (base : Program.Tree α) (exponent : Int)
  | power (base exponent : Program.Tree α)
  | exponential (argument : Program.Tree α)

/-- A compiled formula of a number of arguments. -/
structure Program (α : Type) where
  arity : Nat
  tree : Program.Tree α

variable {α : Type} [Scalar α]

/-! ## Running -/

namespace Program

mutual

/-- The value of a tree at a list of arguments. -/
def Tree.eval? (args : List α) : Tree α → Option α
  | .const v => some v
  | .argument i => args[i]?
  | .sum ts => (Tree.evalEach? args ts).map Scalar.total
  | .product fs => (Tree.evalEach? args fs).map Scalar.totalProduct
  | .powInt b n => (Tree.eval? args b).map (Scalar.powInt · n)
  | .power b e =>
    match Tree.eval? args b with
    | none => none
    | some base => (Tree.eval? args e).map (Scalar.power base)
  | .exponential x => (Tree.eval? args x).map Scalar.exp

/-- The values of several trees. -/
def Tree.evalEach? (args : List α) : List (Tree α) → Option (List α)
  | [] => some []
  | t :: ts =>
    match Tree.eval? args t with
    | none => none
    | some v => (Tree.evalEach? args ts).map (v :: ·)

end

/-- The value of a compiled formula, unless an argument that it uses is missing. -/
def eval? (p : Program α) (args : List α) : Option α := p.tree.eval? args

end Program

/-! ## Compiling -/

namespace Formula

/-- The formula has a symbol that is not among the arguments. -/
structure Unlisted where
  name : String
  deriving DecidableEq, Repr

/-- The failure that an unlisted symbol amounts to. -/
def Unlisted.failure (u : Unlisted) : Failure :=
  .output ("Symbol `" ++ u.name ++ "` is not among the compiled arguments")

/-- The exponent of a power that is compiled as an integer power. -/
def smallInteger? : Formula α → Option Int
  | .const n => if Scalar.isInteger n && decide (Scalar.abs n ≤ 64.0) then some (Scalar.toInt n) else none
  | _ => none

mutual

/-- Resolve the symbols of a formula. -/
def resolve (names : List String) : Formula α → Except Unlisted (Program.Tree α)
  | .const v => .ok (.const v)
  | .symbol s =>
    match names.findIdx? (· == s) with
    | some i => .ok (.argument i)
    | none => .error ⟨s⟩
  | .sum ts => (resolveEach names ts).map .sum
  | .product fs => (resolveEach names fs).map .product
  | .power b e =>
    match resolve names b with
    | .error u => .error u
    | .ok base =>
      match smallInteger? e with
      | some n => .ok (.powInt base n)
      | none => (resolve names e).map (.power base)
  | .exponential x => (resolve names x).map .exponential

/-- Resolve the symbols of several formulas. -/
def resolveEach (names : List String) :
    List (Formula α) → Except Unlisted (List (Program.Tree α))
  | [] => .ok []
  | f :: fs =>
    match resolve names f with
    | .error u => .error u
    | .ok t => (resolveEach names fs).map (t :: ·)

end

/-- Compile a formula with its arguments in the order of `names`; unused ones are allowed,
and of a repeated name the first position counts. -/
def compile (f : Formula α) (names : List String) : Except Unlisted (Program α) :=
  (f.resolve names).map fun tree => ⟨names.length, tree⟩

end Formula

end SphereLab
