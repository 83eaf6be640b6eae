import SphereLab.Formula.Layout
import SphereLab.Text.Blank

/-!
# Formulas in LaTeX

Products are written by juxtaposition, negative powers as fractions, and a symbol with an
underscore gets a subscript; the names of Greek letters stand for the letters.
-/

namespace SphereLab

/-! ## Symbols -/

namespace LaTeX

/-- The names that stand for Greek letters. -/
def greekNames : List String :=
  ["alpha", "beta", "gamma", "delta", "epsilon", "zeta", "eta", "theta", "iota", "kappa",
   "lambda", "mu", "nu", "xi", "omicron", "pi", "rho", "sigma", "tau", "upsilon", "phi",
   "chi", "psi", "omega"]

/-- A piece of a name: a Greek letter as a command, anything else as it is. -/
def letter (piece : String) : String :=
  if greekNames.contains piece then "\\" ++ piece else piece

/-- A text between braces. -/
def braced (s : String) : String := "\x7b" ++ s ++ "\x7d"

/-- A symbol: what follows the first underscore of its name becomes the subscript. -/
def symbolText (name : String) : String :=
  match splitFirst '_' name.toList with
  | (base, some sub) => letter (String.ofList base) ++ "_" ++ braced (letter (String.ofList sub))
  | (_, none) => letter name

/-- A fraction. -/
def fraction (above below : String) : String :=
  "\\frac" ++ braced above ++ braced below

/-! ## Parentheses -/

/-- Parentheses that grow with their content. -/
def parens (s : String) : String := "\\left(" ++ s ++ "\\right)"

/-- A text without its first parenthesis and its last one, if it begins and ends with
them. -/
def withoutParens (s : String) : String :=
  if s.startsWith "\\left(" && s.endsWith "\\right)" && 13 ≤ s.length then
    String.ofList ((s.toList.drop 6).take (s.length - 13))
  else s

/-- How tightly a layout holds together: a sum or a negative loosest (1), then products (2),
powers (3) and everything else (4). -/
def binding {α : Type} [Scalar α] : Layout α → Nat
  | .number v => if v < 0 then 1 else 4
  | .name _ => 4
  | .sum _ _ => 1
  | .quotient negative _ _ => if negative then 1 else 2
  | .reciprocal _ => 4
  | .power _ _ => 3
  | .repeated _ _ => 3
  | .root _ => 4
  | .exponential _ => 3

/-! ## Layouts -/

/-- The terms of a sum behind their signs.  Each comes with its bare text and with the text
that it has behind a minus. -/
def joinTerms : List (Bool × String × String) → String
  | [] => ""
  | (negative, bare, guarded) :: rest =>
    (if negative then "- " ++ guarded else bare) ++
      String.join (rest.map fun t => if t.1 then " - " ++ t.2.2 else " + " ++ t.2.1)

/-- A product over a product.  Each factor comes with its bare text and with the text that
it has beside other factors. -/
def joinQuotient (negative : Bool) (above below : List (String × String)) : String :=
  let beside (fs : List (String × String)) := " ".intercalate (fs.map (·.2))
  let body :=
    match below with
    | [] => beside above
    | _ =>
      let top :=
        match above with
        | [] => "1"
        | [f] => f.1
        | fs => beside fs
      let bottom :=
        match below with
        | [f] => withoutParens f.2
        | fs => beside fs
      fraction top bottom
  if negative then "- " ++ body else body

mutual

/-- The text of a layout, with numbers written by `number`. -/
def text {α : Type} [Scalar α] (number : α → String) : Layout α → String
  | .number v => number v
  | .name s => symbolText s
  | .sum signs ts => joinTerms (signs.zip (texts number ts))
  | .quotient negative above below =>
    joinQuotient negative (texts number above) (texts number below)
  | .reciprocal x => fraction "1" (text number x)
  | .power b e =>
    let base := text number b
    (if binding b < 4 then parens base else base) ++ "^" ++ braced (text number e)
  | .repeated b count =>
    let base := text number b
    (if binding b < 4 then parens base else base) ++ "^" ++ braced (naturalText count)
  | .root b => "\\sqrt" ++ braced (text number b)
  | .exponential x => "e^" ++ braced (text number x)

/-- The bare texts of several layouts, each with the text that it has inside a product. -/
def texts {α : Type} [Scalar α] (number : α → String) : List (Layout α) → List (String × String)
  | [] => []
  | x :: xs =>
    let bare := text number x
    (bare, if binding x < 2 then parens bare else bare) :: texts number xs

end

/-- The form of a power: fractions for negative exponents and a root sign for one half. -/
def powerForm {α : Type} [Scalar α] (exponent : α) : PowerForm :=
  if exponent < 0 then .reciprocal else if exponent == 0.5 then .root else .power

end LaTeX

/-- A formula in LaTeX. -/
def Formula.toLaTeX (f : Formula Float) : String :=
  LaTeX.text (Formula.constantText Style.plain.text) (f.layout LaTeX.powerForm)

/-- An equation in LaTeX. -/
def Formula.equationLaTeX (lhs rhs : Formula Float) : String :=
  lhs.toLaTeX ++ " = " ++ rhs.toLaTeX

end SphereLab
