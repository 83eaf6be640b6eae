import SphereLab.Decimal.Numeral
import SphereLab.Decimal.Style
import SphereLab.Shell.Token
import SphereLab.Text.Blank

/-!
# Arithmetic in the shell

Formulas over words of sixty-four bits, with the operators and the precedence of C.  A
parameter that is not set counts as zero, and a formula may set parameters on its way; only
the operands that are needed are worked out.
-/

namespace SphereLab

namespace Shell

/-! ## Numbers -/

/-- The integer that a text is, with blanks around it; none if it is none. -/
def integer? (text : String) : Option Int := readInteger? (trimWhere Char.isWhitespace text.toList)

/-- The value of a hexadecimal digit. -/
def hexValue (c : Char) : Nat :=
  if c.isDigit then c.toNat - 48 else c.toLower.toNat - 87

/-- Is a character a hexadecimal digit? -/
def isHexDigit (c : Char) : Bool := c.isDigit || ('a' ≤ c.toLower && c.toLower ≤ 'f')

/-- Is a character an octal digit? -/
def isOctalDigit (c : Char) : Bool := '0' ≤ c && c ≤ '7'

/-- The number that a text begins with, and what follows it: hexadecimal behind `0x`, octal
behind another zero, or decimal. -/
def leadingNumber (cs : List Char) : Nat × List Char :=
  match cs with
  | '0' :: x :: rest =>
    if (x == 'x' || x == 'X') && (rest.head?.map isHexDigit).getD false then
      ((rest.takeWhile isHexDigit).foldl (fun n c => 16 * n + hexValue c) 0,
        rest.dropWhile isHexDigit)
    else
      ((cs.takeWhile isOctalDigit).foldl (fun n c => 8 * n + hexValue c) 0,
        cs.dropWhile isOctalDigit)
  | _ => (Numeral.ofDigits (cs.takeWhile Char.isDigit), cs.dropWhile Char.isDigit)

/-- The number that the value of a parameter is, with a sign or not. -/
def parameterNumber? (text : String) : Option Int :=
  let (negative, digits) := Numeral.splitSign (trimWhere Char.isWhitespace text.toList)
  match digits with
  | [] => if text.isEmpty then some 0 else none
  | c :: _ =>
    if !c.isDigit then none
    else
      match leadingNumber digits with
      | (n, []) => some (if negative then -(n : Int) else n)
      | _ => none

/-! ## Tokens of a formula -/

/-- A token of a formula. -/
inductive FormulaToken where
  | number (value : Nat)
  | name (value : String)
  | operator (value : String)
  deriving DecidableEq, Repr

/-- The operators and parentheses, longest first. -/
def operatorTexts : List String :=
  ["<<=", ">>=", "||", "&&", "==", "!=", "<=", ">=", "<<", ">>", "+=", "-=", "*=", "/=", "%=",
   "&=", "|=", "^=", "+", "-", "*", "/", "%", "<", ">", "=", "!", "~", "&", "|", "^", "?", ":",
   "(", ")"]

/-- The tokens of a formula. -/
def formulaTokens : Nat → List Char → Option (List FormulaToken)
  | 0, _ => none
  | _ + 1, [] => some []
  | fuel + 1, c :: rest =>
    if c.isWhitespace then formulaTokens fuel rest
    else if c.isDigit then
      let (n, behind) := leadingNumber (c :: rest)
      (formulaTokens fuel behind).map (.number n :: ·)
    else if startsName c then
      let name := (c :: rest).takeWhile isNameChar
      (formulaTokens fuel ((c :: rest).drop name.length)).map (.name (String.ofList name) :: ·)
    else
      match operatorTexts.find? fun o => o.toList.isPrefixOf (c :: rest) with
      | some o => (formulaTokens fuel ((c :: rest).drop o.length)).map (.operator o :: ·)
      | none => none

/-! ## Formulas -/

/-- A formula. -/
inductive Arithmetic where
  | number (value : Nat)
  | parameter (name : String)
  | unary (operator : String) (operand : Arithmetic)
  | binary (operator : String) (left right : Arithmetic)
  | choice (test yes no : Arithmetic)
  /-- A parameter set to a value, or to what an operator makes of its own value and that. -/
  | assignment (name operator : String) (value : Arithmetic)

/-- What is wrong with a formula. -/
inductive FormulaFault where
  | noOperand
  | noEnd
  | noParenthesis
  | noColon
  | byZero
  | badNumber (value : String)
  deriving DecidableEq, Repr

/-- The fault in a formula as a message. -/
def FormulaFault.message (formula : String) : FormulaFault → String
  | .badNumber value => "Illegal number: " ++ value
  | fault =>
    let reason :=
      match fault with
      | .noOperand => "expecting primary"
      | .noEnd => "expecting EOF"
      | .noParenthesis => "expecting ')'"
      | .noColon => "expecting ':'"
      | _ => "division by zero"
    "arithmetic expression: " ++ reason ++ ": \"" ++ formula ++ "\""

/-- The operators between two operands, from those that bind least to those that bind most. -/
def operatorLevels : List (List String) :=
  [["||"], ["&&"], ["|"], ["^"], ["&"], ["==", "!="], ["<=", ">=", "<", ">"], ["<<", ">>"],
   ["+", "-"], ["*", "/", "%"]]

/-- The operators that set a parameter, with the operator that each of them applies. -/
def assigning : List (String × String) :=
  [("=", ""), ("+=", "+"), ("-=", "-"), ("*=", "*"), ("/=", "/"), ("%=", "%"), ("<<=", "<<"),
   (">>=", ">>"), ("&=", "&"), ("|=", "|"), ("^=", "^")]

mutual

/-- A formula, and what follows it. -/
def readFormula : Nat → List FormulaToken → Except FormulaFault (Arithmetic × List FormulaToken)
  | 0, _ => .error .noOperand
  | fuel + 1, ts => do
    match ts with
    | .name name :: .operator o :: rest =>
      match assigning.lookup o with
      | some applied =>
        let (value, rest) ← readFormula fuel rest
        return (.assignment name applied value, rest)
      | none => readChoice fuel ts
    | _ => readChoice fuel ts

/-- A formula that sets no parameter by itself, and what follows it. -/
def readChoice : Nat → List FormulaToken → Except FormulaFault (Arithmetic × List FormulaToken)
  | 0, _ => .error .noOperand
  | fuel + 1, ts => do
    let (test, rest) ← readLevel fuel operatorLevels ts
    match rest with
    | .operator "?" :: rest =>
      let (yes, rest) ← readFormula fuel rest
      match rest with
      | .operator ":" :: rest =>
        let (no, rest) ← readChoice fuel rest
        return (.choice test yes no, rest)
      | _ => .error .noColon
    | _ => return (test, rest)

/-- A formula whose operators bind at least as much as the first level, and what follows
it. -/
def readLevel : Nat → List (List String) → List FormulaToken →
    Except FormulaFault (Arithmetic × List FormulaToken)
  | 0, _, _ => .error .noOperand
  | fuel + 1, [], ts =>
    match ts with
    | .number n :: rest => .ok (.number n, rest)
    | .name name :: rest => .ok (.parameter name, rest)
    | .operator "(" :: rest => do
      let (inside, rest) ← readFormula fuel rest
      match rest with
      | .operator ")" :: rest => return (inside, rest)
      | _ => .error .noParenthesis
    | .operator o :: rest => do
      if ["-", "+", "!", "~"].contains o then
        let (operand, rest) ← readLevel fuel [] rest
        return (.unary o operand, rest)
      else .error .noOperand
    | [] => .error .noOperand
  | fuel + 1, level :: above, ts => do
    let (first, rest) ← readLevel fuel above ts
    continueLevel fuel level above first rest

/-- What a formula goes on with on a level. -/
def continueLevel : Nat → List String → List (List String) → Arithmetic → List FormulaToken →
    Except FormulaFault (Arithmetic × List FormulaToken)
  | 0, _, _, _, _ => .error .noOperand
  | fuel + 1, level, above, first, ts =>
    match ts with
    | .operator o :: rest =>
      if level.contains o then do
        let (second, rest) ← readLevel fuel above rest
        continueLevel fuel level above (.binary o first second) rest
      else .ok (first, ts)
    | _ => .ok (first, ts)

end

/-- The formula that a text is; an empty one is zero. -/
def formulaOf (text : String) : Except FormulaFault Arithmetic := do
  match formulaTokens (text.length + 1) text.toList with
  | none => .error .noOperand
  | some [] => return .number 0
  | some ts =>
    match ← readFormula (16 * ts.length + 16) ts with
    | (formula, []) => return formula
    | _ => .error .noEnd

/-! ## Values -/

/-- A truth value as a number. -/
def truth (b : Bool) : Int64 := if b then 1 else 0

/-- The value of an operator between two values. -/
def applyBinary (operator : String) (a b : Int64) : Except FormulaFault Int64 :=
  match operator with
  | "+" => .ok (a + b)
  | "-" => .ok (a - b)
  | "*" => .ok (a * b)
  | "/" => if b == 0 then .error .byZero else .ok (a / b)
  | "%" => if b == 0 then .error .byZero else .ok (a % b)
  | "<<" => .ok (a <<< b)
  | ">>" => .ok (a >>> b)
  | "&" => .ok (a &&& b)
  | "|" => .ok (a ||| b)
  | "^" => .ok (a ^^^ b)
  | "==" => .ok (truth (a == b))
  | "!=" => .ok (truth (a != b))
  | "<" => .ok (truth (a < b))
  | ">" => .ok (truth (b < a))
  | "<=" => .ok (truth (a ≤ b))
  | ">=" => .ok (truth (b ≤ a))
  | _ => .ok b

/-- The value of an operator before a value. -/
def applyUnary (operator : String) (a : Int64) : Int64 :=
  match operator with
  | "-" => -a
  | "!" => truth (a == 0)
  | "~" => ~~~a
  | _ => a

/-- The values of parameters that a formula has set so far, the latest first. -/
abbrev Assigned := List (String × Int64)

/-- The value of a parameter in a formula. -/
def parameterValue (lookup : String → Option String) (set : Assigned) (name : String) :
    Except FormulaFault Int64 :=
  match set.lookup name with
  | some v => .ok v
  | none =>
    let text := (lookup name).getD ""
    match parameterNumber? text with
    | some n => .ok (Int64.ofInt n)
    | none => .error (.badNumber text)

/-- The value of a formula, and the parameters that it sets. -/
def Arithmetic.value (lookup : String → Option String) :
    Arithmetic → Assigned → Except FormulaFault (Int64 × Assigned)
  | .number n, set => .ok (Int64.ofNat n, set)
  | .parameter name, set => (parameterValue lookup set name).map fun v => (v, set)
  | .unary o a, set => do
    let (v, set) ← a.value lookup set
    return (applyUnary o v, set)
  | .binary o a b, set => do
    let (v, set) ← a.value lookup set
    if o == "&&" && v == 0 then return (0, set)
    else if o == "||" && v != 0 then return (1, set)
    else
      let (w, set) ← b.value lookup set
      if o == "&&" || o == "||" then return (truth (w != 0), set)
      else return (← applyBinary o v w, set)
  | .choice test yes no, set => do
    let (v, set) ← test.value lookup set
    if v != 0 then yes.value lookup set else no.value lookup set
  | .assignment name o a, set => do
    let (v, set) ← a.value lookup set
    let v ← if o.isEmpty then pure v else applyBinary o (← parameterValue lookup set name) v
    return (v, (name, v) :: set)

/-- The text of a value. -/
def wordText (v : Int64) : String := integerText v.toInt

/-- The text of a formula's value, and the texts of the parameters that it sets. -/
def arithmeticText (lookup : String → Option String) (text : String) :
    Except String (String × List (String × String)) :=
  match (do (← formulaOf text).value lookup []) with
  | .ok (v, set) => .ok (wordText v, set.reverse.map fun a => (a.1, wordText a.2))
  | .error fault => .error (fault.message text)

end Shell

end SphereLab
