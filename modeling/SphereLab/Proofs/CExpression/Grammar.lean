import Mathlib
import SphereLab.Proofs.Decimal.Shortest
import SphereLab.Proofs.Formula.Value

/-!
# Arithmetic expressions of C

The part of C's expressions that formulas are written in: numerals, names, the four operators, the
minus sign, parentheses, and calls of `exp`, `sqrt` and `pow`.

A text is first cut into tokens, each as long as it can be, and the tokens are then derived in C's
grammar, whose levels give the operators their precedence and make them associate to the left.  A
tree has a value over the real numbers, where nothing is divided by zero and every power and every
root is defined.

* `tokens?`: the tokens of a text.
* `Derives`: the grammar.
* `Tree.value?`: the value of a tree, if it has one.
-/

namespace SphereLab

/-- Where the powers of real numbers are defined: at an integer exponent unless it divides by zero,
and at any other exponent over a positive base or for a positive power of zero. -/
def PowerDomain.real : PowerDomain ℝ where
  holds b e := (∃ n : ℤ, e = n ∧ (b ≠ 0 ∨ 0 ≤ n)) ∨ 0 < b ∨ b = 0 ∧ 0 < e
  holds_intCast b n := by
    constructor
    · rintro (⟨m, hm, h⟩ | hpos | ⟨_, he⟩)
      · rwa [Int.cast_inj.mp hm]
      · exact Or.inl (ne_of_gt hpos)
      · exact Or.inr (by exact_mod_cast he.le)
    · exact fun h => Or.inl ⟨n, rfl, h⟩
  holds_one _ := Or.inr (Or.inl one_pos)

namespace CExpression

/-! ## Tokens -/

/-- The tokens of an expression. -/
inductive Token where
  | number (text : List Char)
  | name (s : String)
  | plus
  | minus
  | star
  | slash
  | left
  | right
  | comma
  deriving DecidableEq

/-- A character that continues a numeral or a name. -/
def isWordChar (c : Char) : Bool := c.isAlphanum || c == '_' || c == '.'

/-- A decimal numeral without an exponent.  A zero in front stands alone or before the point, since
otherwise it would mark an octal numeral. -/
def isNumeral (w : List Char) : Bool :=
  let whole := w.takeWhile Char.isDigit
  match w.dropWhile Char.isDigit with
  | [] => whole == ['0'] || !whole.isEmpty && whole.head? != some '0'
  | c :: fraction => c == '.' && !whole.isEmpty && fraction.all Char.isDigit

/-- The words that are not names. -/
def keywords : List String :=
  ["auto", "break", "case", "char", "const", "continue", "default", "do", "double", "else", "enum",
    "extern", "float", "for", "goto", "if", "inline", "int", "long", "register", "restrict",
    "return", "short", "signed", "sizeof", "static", "struct", "switch", "typedef", "union",
    "unsigned", "void", "volatile", "while", "_Bool", "_Complex", "_Imaginary"]

/-- A letter or an underscore, and more of these or digits, but no keyword. -/
def isIdentifier (s : String) : Bool :=
  match s.toList with
  | [] => false
  | c :: cs => (c.isAlpha || c == '_') && cs.all (fun d => d.isAlphanum || d == '_') &&
      !keywords.contains s

/-- The token of a word. -/
def wordToken? (w : List Char) : Option Token :=
  if isNumeral w then some (.number w)
  else if isIdentifier (String.ofList w) then some (.name (String.ofList w))
  else none

/-- The token of a single character. -/
def punctuation? : Char → Option Token
  | '+' => some .plus
  | '-' => some .minus
  | '*' => some .star
  | '/' => some .slash
  | '(' => some .left
  | ')' => some .right
  | ',' => some .comma
  | _ => none

/-- Two characters that would be read as one token, or begin a comment. -/
def fuses : Char → Char → Bool
  | '+', d => d == '+' || d == '='
  | '-', d => d == '-' || d == '=' || d == '>'
  | '*', d => d == '='
  | '/', d => d == '/' || d == '*' || d == '='
  | _, _ => false

/-- A word in front of tokens, unless it is empty. -/
def closeWord (word : List Char) (rest : Option (List Token)) : Option (List Token) :=
  if word.isEmpty then rest
  else
    match wordToken? word with
    | some t => rest.map (t :: ·)
    | none => none

/-- The tokens of the characters that follow a word which is still being read. -/
def tokensFrom (word : List Char) : List Char → Option (List Token)
  | [] => closeWord word (some [])
  | c :: cs =>
    if isWordChar c then tokensFrom (word ++ [c]) cs
    else closeWord word <|
      if c == ' ' then tokensFrom [] cs
      else if cs.head?.any (fuses c) then none
      else
        match punctuation? c with
        | some t => (tokensFrom [] cs).map (t :: ·)
        | none => none

/-- The tokens of a text. -/
def tokens? (s : String) : Option (List Token) := tokensFrom [] s.toList

/-! ## Trees and the grammar -/

/-- The operators between two operands. -/
inductive Operator where
  | add
  | sub
  | mul
  | div
  deriving DecidableEq

/-- The functions of one argument. -/
inductive UnaryFunction where
  | exp
  | sqrt
  deriving DecidableEq

/-- The levels of the grammar, from loose to tight. -/
inductive Level where
  | additive
  | multiplicative
  | unary
  | primary
  deriving DecidableEq

/-- The level next above, at which the right operands of a level stand. -/
def Level.operand : Level → Level
  | .additive => .multiplicative
  | .multiplicative => .unary
  | .unary => .primary
  | .primary => .primary

/-- The token that an operator is written with. -/
def Operator.token : Operator → Token
  | .add => .plus
  | .sub => .minus
  | .mul => .star
  | .div => .slash

/-- The level that an operator belongs to. -/
def Operator.level : Operator → Level
  | .add | .sub => .additive
  | .mul | .div => .multiplicative

/-- The name that a function is called by. -/
def UnaryFunction.name : UnaryFunction → String
  | .exp => "exp"
  | .sqrt => "sqrt"

/-- An expression without its parentheses. -/
inductive Tree where
  | number (text : List Char)
  | name (s : String)
  | neg (x : Tree)
  | binary (op : Operator) (x y : Tree)
  | call (f : UnaryFunction) (x : Tree)
  | pow (x y : Tree)
  deriving DecidableEq

/-- The names of functions, which are no variables. -/
def functionNames : List String := ["exp", "sqrt", "pow"]

/-- The name of a variable. -/
def IsVariable (s : String) : Prop := isIdentifier s = true ∧ s ∉ functionNames

/-- C's grammar: what is derived at a level, with its tree. -/
inductive Derives : Level → List Token → Tree → Prop where
  | number (text : List Char) : Derives .primary [.number text] (.number text)
  | name (s : String) (h : s ∉ functionNames) : Derives .primary [.name s] (.name s)
  | parens {ts : List Token} {x : Tree} (h : Derives .additive ts x) :
      Derives .primary (.left :: (ts ++ [.right])) x
  | call {ts : List Token} {x : Tree} (f : UnaryFunction) (h : Derives .additive ts x) :
      Derives .primary (.name f.name :: .left :: (ts ++ [.right])) (.call f x)
  | pow {ts us : List Token} {x y : Tree} (hx : Derives .additive ts x)
      (hy : Derives .additive us y) :
      Derives .primary (.name "pow" :: .left :: (ts ++ .comma :: (us ++ [.right]))) (.pow x y)
  | neg {ts : List Token} {x : Tree} (h : Derives .unary ts x) :
      Derives .unary (.minus :: ts) (.neg x)
  /-- An operator takes what stands at its own level on the left, so it associates to the left. -/
  | binary {ts us : List Token} {x y : Tree} (op : Operator) (hx : Derives op.level ts x)
      (hy : Derives op.level.operand us y) :
      Derives op.level (ts ++ op.token :: us) (.binary op x y)
  | operand {level : Level} {ts : List Token} {x : Tree} (h : Derives level.operand ts x) :
      Derives level ts x

/-- A text is derived in the grammar, with a tree. -/
def Derivable (s : String) (x : Tree) : Prop :=
  ∃ ts, tokens? s = some ts ∧ Derives .additive ts x

/-! ## Values -/

open Classical in
/-- The value of an operator. -/
noncomputable def Operator.result? : Operator → ℝ → ℝ → Option ℝ
  | .add, a, b => some (a + b)
  | .sub, a, b => some (a - b)
  | .mul, a, b => some (a * b)
  | .div, a, b => if b = 0 then none else some (a / b)

open Classical in
/-- The value of a function of one argument. -/
noncomputable def UnaryFunction.result? : UnaryFunction → ℝ → Option ℝ
  | .exp, a => some (Real.exp a)
  | .sqrt, a => if 0 ≤ a then some (√a) else none

/-- The real number that a numeral stands for, which is that of the nearest double. -/
noncomputable def numeralValue? (text : List Char) : Option ℝ :=
  match readDouble? text with
  | some v => if v.isFinite then some (realOf v) else none
  | none => none

open Classical in
/-- The value of a tree in an environment, if it has one. -/
noncomputable def Tree.value? (env : String → Option ℝ) : Tree → Option ℝ
  | .number text => numeralValue? text
  | .name s => env s
  | .neg x => (value? env x).map (- ·)
  | .binary op x y => (value? env x).bind fun a => (value? env y).bind fun b => op.result? a b
  | .call f x => (value? env x).bind f.result?
  | .pow x y => (value? env x).bind fun a => (value? env y).bind fun b =>
      if PowerDomain.real.holds a b then some (a ^ b) else none

theorem value?_binary_iff {env : String → Option ℝ} {op : Operator} {x y : Tree} {v : ℝ} :
    (Tree.binary op x y).value? env = some v ↔
      ∃ a b, x.value? env = some a ∧ y.value? env = some b ∧ op.result? a b = some v := by
  simp only [Tree.value?, Option.bind_eq_some_iff]
  constructor
  · rintro ⟨a, ha, b, hb, hv⟩
    exact ⟨a, b, ha, hb, hv⟩
  · rintro ⟨a, b, ha, hb, hv⟩
    exact ⟨a, ha, b, hb, hv⟩

theorem result?_div_iff {a b v : ℝ} : Operator.div.result? a b = some v ↔ b ≠ 0 ∧ a / b = v := by
  rw [Operator.result?]
  split
  · rename_i hzero
    simp [hzero]
  · rename_i hne
    simp [hne]

/-! ## Numerals -/

/-- Letters do not begin a numeral. -/
theorem isDigit_eq_false_of_isAlpha {c : Char} (h : c.isAlpha = true) : c.isDigit = false := by
  by_contra hdigit
  have hdigit' := Char.isDigit_iff_toNat.mp (Bool.not_eq_false _ ▸ hdigit)
  have h9 : '9'.toNat = 57 := rfl
  have hval : c.val.toNat = c.toNat := rfl
  have hA : 'A'.val.toNat = 65 := rfl
  have ha : 'a'.val.toNat = 97 := rfl
  simp only [Char.isAlpha, Char.isUpper, Char.isLower, Bool.or_eq_true, Bool.and_eq_true,
    decide_eq_true_eq, ge_iff_le, UInt32.le_iff_toNat_le] at h
  omega

/-- A decimal is a numeral. -/
theorem isNumeral_of_decimalText {cs : List Char} {digits : Nat} {shift : Int}
    (h : DecimalText cs digits shift) : isNumeral cs = true := by
  cases h with
  | zero => decide
  | whole hne hdigits hhead =>
    obtain ⟨htake, hdrop⟩ := Numeral.takeWhile_isDigit [] hdigits fun c hc => absurd hc (by simp)
    rw [List.append_nil] at htake hdrop
    rw [isNumeral, htake, hdrop]
    simp [hne, hhead]
  | @pointed whole fraction hne hdigits hfraction =>
    obtain ⟨htake, hdrop⟩ := Numeral.takeWhile_isDigit ('.' :: fraction) hdigits (by simp)
    rw [isNumeral, htake, hdrop]
    simpa [hne, AllDigits] using hfraction

/-- The numeral of a decimal stands for the double nearest to it. -/
theorem numeralValue?_of_decimalText {cs : List Char} {digits : Nat} {shift : Int}
    (h : DecimalText cs digits shift)
    (hfinite : (Numeral.nearestDecimal false digits shift).isFinite = true) :
    numeralValue? cs = some (realOf (Numeral.nearestDecimal false digits shift)) := by
  rw [numeralValue?, h.readDouble?_eq]
  dsimp only
  rw [if_pos hfinite]

/-- The decimals of the number one stand for it. -/
theorem nearestDecimal_eq_one {digits : Nat} {shift : Int} (hone : (digits : ℝ) * 10 ^ shift = 1) :
    (Numeral.nearestDecimal false digits shift).isFinite = true ∧
      realOf (Numeral.nearestDecimal false digits shift) = 1 := by
  obtain ⟨d, hd, hpos, hvalue⟩ := exists_canonical_value_eq Nat.one_pos (by norm_num)
  rw [Nat.cast_one] at hvalue
  have hnear : d.Near (digits * 10 ^ shift) := by
    rw [hone, ← hvalue]
    exact d.near_value
  have hread := ofFloat_nearestDecimal false hd hpos hnear
  refine ⟨Reading.isFinite_iff.mpr ⟨_, _, hread⟩, ?_⟩
  rw [realOf_of_ofFloat hread, signedValue, if_neg (by decide), hvalue]

end CExpression

end SphereLab
