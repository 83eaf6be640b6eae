import SphereLab.Formula.Compiled

/-!
# The short-range ansatz

The pair correlation of hard spheres near contact is written as a polynomial in two small
quantities, `h_sigma = g_sigma - 1` and `zeta = (r - sigma) / sigma`, with sixteen fitted
coefficients `kappa_ij`, switched off where `h_sigma` is large:

`g_HS = 1 + (h_sigma + Σ kappa_ij h_sigma ^ i zeta ^ j) / (1 + (c h_sigma) ^ 4)`.

The ansatz is a chain of definitions, outermost first.  `unwrap` carries the definitions out
from the innermost on, so that each becomes a formula in what is not defined; `compileModel`
makes a program of the outermost one.
-/

namespace SphereLab

/-! ## Definitions -/

/-- A symbol and the formula that it stands for. -/
structure Definition (α : Type) where
  name : String
  value : Formula α

variable {α : Type} [Scalar α]

namespace Definition

/-- One definition carried out in the light of those known already, of which the newest of a
name comes first. -/
def unwrapStep (known : List (String × Formula α)) (d : Definition α) : Formula α :=
  d.value.substituteAll known

/-- Carry out definitions given innermost first. -/
def unwrapFrom (known : List (String × Formula α)) :
    List (Definition α) → List (Definition α)
  | [] => []
  | d :: ds =>
    let value := unwrapStep known d
    ⟨d.name, value⟩ :: unwrapFrom ((d.name, value) :: known) ds

/-- Carry out definitions given outermost first; the results come innermost first. -/
def unwrap (ds : List (Definition α)) : List (Definition α) := unwrapFrom [] ds.reverse

end Definition

/-! ## The chain -/

/-- The two constants of the ansatz. -/
structure Ansatz (α : Type) where
  /-- The diameter of the spheres. -/
  sigma : α
  /-- The scale of `h_sigma` in the switch. -/
  scale : α

namespace Ansatz

/-- The ansatz for spheres of radius one. -/
def standard : Ansatz α := ⟨2.0, 0.25⟩

/-- The exponents of the coefficients, row by row. -/
def exponents : List (Nat × Nat) :=
  [1, 2, 3, 4].flatMap fun i => [1, 2, 3, 4].map fun j => (i, j)

/-- The name of a coefficient. -/
def kappaName (ij : Nat × Nat) : String :=
  "kappa_" ++ naturalText ij.1 ++ naturalText ij.2

/-- The names of the coefficients, row by row. -/
def kappaNames : List String := exponents.map kappaName

/-- The name of the decay rate, which is fitted but has no effect. -/
def alphaName : String := "alpha"

/-- The names of all fitted parameters. -/
def parameterNames : List String := kappaNames ++ [alphaName]

/-- The number of fitted parameters. -/
def parameterCount : Nat := 17

/-- The symbol of the excess contact value. -/
def excess : Formula α := .symbol "h_sigma"

/-- The symbol of the reduced distance from contact. -/
def gap : Formula α := .symbol "zeta"

/-- One term of the polynomial. -/
def term (ij : Nat × Nat) : Formula α :=
  Formula.symbol (kappaName ij) * excess.powInt ij.1 * gap.powInt ij.2

/-- The polynomial that the switch multiplies. -/
def polynomial : Formula α := .sumOf (excess :: exponents.map term)

/-- The reciprocal of the switch. -/
def switchOff (scale : α) : Formula α := (Formula.const scale * excess).powInt 4 + .const 1

/-- The decay with distance; its rate is multiplied by zero. -/
def decay : Formula α := Formula.exp (.const (-0) * .symbol alphaName * gap)

/-- The pair correlation. -/
def pairCorrelation (scale : α) : Formula α :=
  Formula.const 1 + (switchOff scale).recip * polynomial * decay

/-- The chain of definitions, outermost first. -/
def definitions (a : Ansatz α) : List (Definition α) :=
  [⟨"g_HS", pairCorrelation a.scale⟩,
   ⟨"g_sigma", excess + .const 1⟩,
   ⟨"zeta", (Formula.symbol "r" - .symbol "sigma") / .symbol "sigma"⟩,
   ⟨"R", Formula.divConst (.symbol "sigma") 2.0⟩,
   ⟨"sigma", .const a.sigma⟩]

/-! ## The model -/

/-- The failure of a chain without a pair correlation. -/
def missing : Failure := .output "The definition chain has no g_HS entry"

omit [Scalar α] in
/-- The pair correlation among definitions. -/
def pairCorrelation? (ds : List (Definition α)) : Except Failure (Formula α) :=
  match ds.find? (·.name == "g_HS") with
  | some d => .ok d.value
  | none => .error missing

/-- The arguments of the model: the fitted parameters, the contact value, the distance. -/
def modelArguments : List String := parameterNames ++ ["g_sigma", "r"]

/-- The model as a program of its arguments. -/
def compileModel (pair : Formula α) : Except Failure (Program α) :=
  ((pair.substituteOne "h_sigma" (Formula.subConst (.symbol "g_sigma") 1)).compile
    modelArguments).mapError (·.failure)

/-- The model of an ansatz. -/
def model (a : Ansatz α) : Except Failure (Formula α × Program α) := do
  let pair ← pairCorrelation? (Definition.unwrap a.definitions)
  return (pair, ← compileModel pair)

/-- The value of the model; there is none with too few parameters. -/
def modelValue? (model : Program α) (params : List α) (contact r : α) : Option α :=
  if params.length < parameterCount then none
  else model.eval? (params.take parameterCount ++ [contact, r])

/-- The values of the model along a list of distances. -/
def modelCurve? (model : Program α) (params : List α) (contact : α) (rs : List α) :
    Option (List α) :=
  rs.mapM (modelValue? model params contact)

end Ansatz

end SphereLab
