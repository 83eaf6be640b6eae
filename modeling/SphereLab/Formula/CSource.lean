import SphereLab.Formula.Layout

/-!
# Formulas as C expressions

Powers with an exponent from two to five are written as repeated products, their
reciprocals as divisions, and every other power as a call of `pow` or `sqrt`.
-/

namespace SphereLab

namespace CSource

/-- A text between parentheses. -/
def parens (s : String) : String := "(" ++ s ++ ")"

/-- How tightly a layout holds together: a sum or a negative loosest (1), then products and
quotients (2), then whatever is closed by itself (4). -/
def binding {α : Type} [Scalar α] : Layout α → Nat
  | .number v => if v < 0 then 1 else 4
  | .sum _ _ => 1
  | .quotient negative _ _ => if negative then 1 else 2
  | .reciprocal _ => 2
  | _ => 4

/-! ## Layouts -/

/-- The terms of a sum behind their signs.  Each comes with its bare text and with the text
that it has behind a minus. -/
def joinTerms : List (Bool × String × String) → String
  | [] => ""
  | (negative, bare, guarded) :: rest =>
    (if negative then "-" ++ guarded else bare) ++
      String.join (rest.map fun t => if t.1 then " - " ++ t.2.2 else " + " ++ t.2.1)

/-- A product over a product, of factors that already have the parentheses they need. -/
def joinQuotient (negative : Bool) (above below : List String) : String :=
  let top := if above.isEmpty then "1" else "*".intercalate above
  let body :=
    match below with
    | [] => top
    | [d] => top ++ "/" ++ d
    | ds => top ++ "/" ++ parens ("*".intercalate ds)
  if negative then "-" ++ body else body

mutual

/-- The text of a layout, with numbers written by `number`. -/
def text {α : Type} [Scalar α] (number : α → String) : Layout α → String
  | .number v => number v
  | .name s => s
  | .sum signs ts => joinTerms (signs.zip ((texts number ts).map fun t => (t.1, t.2.1)))
  | .quotient negative above below =>
    joinQuotient negative ((texts number above).map (·.2.1)) ((texts number below).map (·.2.2))
  | .reciprocal x =>
    let bare := text number x
    "1.0/" ++ (if binding x < 3 then parens bare else bare)
  | .power b e => "pow(" ++ text number b ++ ", " ++ text number e ++ ")"
  | .repeated b count =>
    parens ("*".intercalate (List.replicate count (parens (text number b))))
  | .root b => "sqrt(" ++ text number b ++ ")"
  | .exponential x => "exp(" ++ text number x ++ ")"

/-- The bare texts of several layouts, each with the text that it has as a factor above a
fraction bar and the one that it has below. -/
def texts {α : Type} [Scalar α] (number : α → String) :
    List (Layout α) → List (String × String × String)
  | [] => []
  | x :: xs =>
    let bare := text number x
    (bare, if binding x < 2 then parens bare else bare,
      if binding x < 3 then parens bare else bare) :: texts number xs

end

/-- The form of a power: repeated products for the exponents two to five, divisions for
their negatives and for minus one, a root for one half. -/
def powerForm {α : Type} [Scalar α] (exponent : α) : PowerForm :=
  let n := Scalar.toInt exponent
  if Scalar.isInteger exponent && decide (2 ≤ n) && decide (n ≤ 5) then .repeated n.toNat
  else if Scalar.isInteger exponent && decide (-5 ≤ n) && decide (n ≤ -1) then .reciprocal
  else if exponent == 0.5 then .root
  else .power

end CSource

/-- A formula as a C expression. -/
def Formula.toC (f : Formula Float) : String :=
  CSource.text (Formula.constantText Style.plain.text) (f.layout CSource.powerForm)

end SphereLab
