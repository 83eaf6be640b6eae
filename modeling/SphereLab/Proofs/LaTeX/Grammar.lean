import Mathlib
import SphereLab.Formula.LaTeX
import SphereLab.Proofs.CExpression.Grammar

/-!
# Formulas of LaTeX

The part of LaTeX's mathematics that formulas are written in: numerals, symbols with subscripts,
fractions, roots, superscripts and parentheses.  Products are written by juxtaposition, and the
letter e under a superscript is the exponential function.

A text is first cut into tokens; blanks separate them, and a subscript belongs to its symbol.  The
tokens are then derived in a grammar whose levels say what may stand beside what: a superscript
belongs to the atom in front of it, and signs stand between products.  The trees are those of
arithmetic expressions in any notation, and so are their values; a numeral stands for the double
nearest to it.

* `Nested`: brackets that match.
* `tokens?`: the tokens of a text.
* `Derives`: the grammar.
* `IsName`: the names of symbols that can be written.
* `isName_of_isAlpha`: letters, digits and underscores behind a letter are such a name.
* `Derives.nested`: the brackets of a formula match.
-/

namespace SphereLab

/-! ## Brackets -/

/-- The brackets of a sequence match and are nested.  Each kind of bracket is a pair of an opening
one and a closing one. -/
inductive Nested {α : Type} (kinds : List (α × α)) : List α → Prop where
  | nil : Nested kinds []
  | plain {x : α} {xs : List α} (hx : ∀ k ∈ kinds, x ≠ k.1 ∧ x ≠ k.2) (h : Nested kinds xs) :
      Nested kinds (x :: xs)
  | group {k : α × α} {xs ys : List α} (hk : k ∈ kinds) (hx : Nested kinds xs)
      (hy : Nested kinds ys) : Nested kinds (k.1 :: (xs ++ k.2 :: ys))

namespace Nested

variable {α : Type} {kinds : List (α × α)} {xs ys : List α}

theorem append (hx : Nested kinds xs) (hy : Nested kinds ys) : Nested kinds (xs ++ ys) := by
  induction hx with
  | nil => exact hy
  | plain hx _ ih => exact .plain hx ih
  | group hk hx _ _ ih =>
    rw [List.cons_append, List.append_assoc, List.cons_append]
    exact .group hk hx ih

theorem enclosed {k : α × α} (hk : k ∈ kinds) (h : Nested kinds xs) :
    Nested kinds (k.1 :: (xs ++ [k.2])) := .group hk h .nil

theorem of_forall_ne (h : ∀ x ∈ xs, ∀ k ∈ kinds, x ≠ k.1 ∧ x ≠ k.2) : Nested kinds xs := by
  induction xs with
  | nil => exact .nil
  | cons x xs ih =>
    obtain ⟨hx, hxs⟩ := List.forall_mem_cons.mp h
    exact .plain hx (ih hxs)

end Nested

namespace LaTeX

open CExpression (Operator Tree)

/-- The braces of a text. -/
def braces : List (Char × Char) := [('\x7b', '\x7d')]

/-! ## Tokens -/

/-- The tokens of a formula. -/
inductive Token where
  | number (text : List Char)
  | symbol (text : String)
  | plus
  | minus
  | caret
  | frac
  | sqrt
  | openGroup
  | closeGroup
  /-- The command in front of an opening parenthesis that grows with its content. -/
  | left
  | right
  | openParen
  | closeParen
  deriving DecidableEq

/-- The brackets among the tokens. -/
def brackets : List (Token × Token) := [(.openGroup, .closeGroup), (.left, .right)]

/-- A character that continues a numeral, a symbol or a command: any that has no meaning of its
own. -/
def isWordChar (c : Char) : Bool :=
  !([' ', '\\', '^', '+', '-', '(', ')', '\x7b', '\x7d'] : List Char).contains c

/-- A Greek letter, or a word that begins like a name; there may be a subscript. -/
def isSymbol : List Char → Bool
  | '\\' :: cs => greekNames.contains (String.ofList (cs.takeWhile (· != '_')))
  | c :: _ => !c.isDigit && c != '_' && c != '.'
  | [] => false

/-- The commands other than Greek letters. -/
def command? (w : List Char) : Option Token :=
  [("\\frac", .frac), ("\\sqrt", .sqrt), ("\\left", .left), ("\\right", .right)].lookup
    (String.ofList w)

/-- The token of a word. -/
def wordToken? (w : List Char) : Option Token :=
  if CExpression.isNumeral w then some (.number w)
  else if isSymbol w then some (.symbol (String.ofList w))
  else command? w

/-- The token of a single character. -/
def punctuation? : Char → Option Token
  | '+' => some .plus
  | '-' => some .minus
  | '^' => some .caret
  | '(' => some .openParen
  | ')' => some .closeParen
  | '\x7b' => some .openGroup
  | '\x7d' => some .closeGroup
  | _ => none

/-- A word in front of tokens, unless it is empty. -/
def closeWord (word : List Char) (rest : Option (List Token)) : Option (List Token) :=
  if word.isEmpty then rest
  else
    match wordToken? word with
    | some t => rest.map (t :: ·)
    | none => none

/-- The tokens of the characters that follow a word which is still being read, inside its subscript
or not. -/
def tokensFrom (inside : Bool) (word : List Char) : List Char → Option (List Token)
  | [] => if inside then none else closeWord word (some [])
  | c :: cs =>
    if inside then
      if isWordChar c || c == '\\' then tokensFrom true (word ++ [c]) cs
      else if c == '\x7d' then tokensFrom false (word ++ [c]) cs
      else none
    else if isWordChar c then tokensFrom false (word ++ [c]) cs
    else if c == '\x7b' && word.getLast? == some '_' then tokensFrom true (word ++ [c]) cs
    else closeWord word <|
      if c == '\\' then tokensFrom false ['\\'] cs
      else if c == ' ' then tokensFrom false [] cs
      else
        match punctuation? c with
        | some t => (tokensFrom false [] cs).map (t :: ·)
        | none => none

/-- The tokens of a text. -/
def tokens? (s : String) : Option (List Token) := tokensFrom false [] s.toList

/-! ## The grammar -/

/-- The levels of the grammar, from loose to tight. -/
inductive Level where
  | sum
  | product
  | factor
  | atom
  deriving DecidableEq

/-- Tokens between braces. -/
def group (ts : List Token) : List Token := .openGroup :: (ts ++ [.closeGroup])

/-- The token of a sign. -/
def signToken (negative : Bool) : Token := if negative then .minus else .plus

/-- The operator of a sign between a sum and a product. -/
def signOperator (negative : Bool) : Operator := if negative then .sub else .add

/-- The grammar: what is derived at a level, with its tree. -/
inductive Derives : Level → List Token → Tree → Prop where
  | number (text : List Char) : Derives .atom [.number text] (.number text)
  | symbol (s : String) (h : s ≠ "e") : Derives .atom [.symbol s] (.name s)
  | parens {ts : List Token} {x : Tree} (h : Derives .sum ts x) :
      Derives .atom (.left :: .openParen :: (ts ++ [.right, .closeParen])) x
  | fraction {ts us : List Token} {x y : Tree} (hx : Derives .sum ts x) (hy : Derives .sum us y) :
      Derives .atom (.frac :: (group ts ++ group us)) (.binary .div x y)
  | root {ts : List Token} {x : Tree} (h : Derives .sum ts x) :
      Derives .atom (.sqrt :: group ts) (.call .sqrt x)
  /-- A superscript belongs to the atom in front of it. -/
  | power {ts us : List Token} {x y : Tree} (hx : Derives .atom ts x) (hy : Derives .sum us y) :
      Derives .factor (ts ++ .caret :: group us) (.pow x y)
  | exponential {ts : List Token} {x : Tree} (h : Derives .sum ts x) :
      Derives .factor (.symbol "e" :: .caret :: group ts) (.call .exp x)
  | atom {ts : List Token} {x : Tree} (h : Derives .atom ts x) : Derives .factor ts x
  | juxtaposed {ts us : List Token} {x y : Tree} (hx : Derives .factor ts x)
      (hy : Derives .product us y) : Derives .product (ts ++ us) (.binary .mul x y)
  | factor {ts : List Token} {x : Tree} (h : Derives .factor ts x) : Derives .product ts x
  /-- A minus in front of a sum belongs to its first product. -/
  | minus {ts : List Token} {x : Tree} (h : Derives .product ts x) :
      Derives .sum (.minus :: ts) (.neg x)
  | product {ts : List Token} {x : Tree} (h : Derives .product ts x) : Derives .sum ts x
  | signed {ts us : List Token} {x y : Tree} (negative : Bool) (hx : Derives .sum ts x)
      (hy : Derives .product us y) :
      Derives .sum (ts ++ signToken negative :: us) (.binary (signOperator negative) x y)

/-- A text is derived in the grammar, with a tree. -/
def Derivable (s : String) (x : Tree) : Prop :=
  ∃ ts, tokens? s = some ts ∧ Derives .sum ts x

/-! ## Names -/

/-- The name of a symbol: characters without a meaning of their own, of which the first one is
neither a digit nor a mark.  The letter e is kept for the exponential function. -/
def IsName (s : String) : Prop :=
  s ≠ "e" ∧ (∀ c ∈ s.toList, isWordChar c = true) ∧
    ∃ c ∈ s.toList.head?, c.isDigit = false ∧ c ≠ '_' ∧ c ≠ '.'

/-- Letters, digits and underscores behind a letter are a name. -/
theorem isName_of_isAlpha {s : String} {c : Char} {cs : List Char} (hs : s.toList = c :: cs)
    (hc : c.isAlpha = true) (hcs : cs.all (fun d => d.isAlphanum || d == '_') = true)
    (hne : s ≠ "e") :
    IsName s := by
  have hword : ∀ d : Char, d.isAlphanum = true → isWordChar d = true := by
    intro d hd
    by_contra hreserved
    simp only [isWordChar, Bool.not_eq_true', Bool.not_eq_false, List.contains_eq_mem,
      decide_eq_true_eq, List.mem_cons, List.not_mem_nil, or_false] at hreserved
    rcases hreserved with rfl | rfl | rfl | rfl | rfl | rfl | rfl | rfl | rfl <;>
      exact absurd hd (by decide)
  refine ⟨hne, ?_, c, by rw [hs]; rfl, CExpression.isDigit_eq_false_of_isAlpha hc, ?_, ?_⟩
  · rw [hs]
    refine List.forall_mem_cons.mpr ⟨hword c (by simp [Char.isAlphanum, hc]), fun d hd => ?_⟩
    rcases Bool.or_eq_true_iff.mp (List.all_eq_true.mp hcs d hd) with halpha | hmark
    · exact hword d halpha
    · rw [beq_iff_eq.mp hmark]
      decide
  · rintro rfl
    exact absurd hc (by decide)
  · rintro rfl
    exact absurd hc (by decide)

/-! ## Matching brackets -/

theorem nested_group {ts : List Token} (h : Nested brackets ts) : Nested brackets (group ts) :=
  .enclosed (List.mem_cons_self) h

/-- The brackets of a formula match. -/
theorem Derives.nested {level : Level} {ts : List Token} {x : Tree} (h : Derives level ts x) :
    Nested brackets ts := by
  have hplain : ∀ {t : Token} {us : List Token}, (∀ k ∈ brackets, t ≠ k.1 ∧ t ≠ k.2) →
      Nested brackets us → Nested brackets (t :: us) := fun ht hus => .plain ht hus
  induction h with
  | number | symbol => exact hplain (by simp [brackets]) .nil
  | parens _ ih =>
    have hopen : Nested brackets (.openParen :: _) := hplain (by simp [brackets]) ih
    have hclose : Nested brackets [.closeParen] := hplain (by simp [brackets]) .nil
    exact .group (k := (.left, .right)) (by simp [brackets]) hopen hclose
  | fraction _ _ ihx ihy =>
    exact hplain (by simp [brackets]) ((nested_group ihx).append (nested_group ihy))
  | root _ ih => exact hplain (by simp [brackets]) (nested_group ih)
  | power _ _ ihx ihy => exact ihx.append (hplain (by simp [brackets]) (nested_group ihy))
  | exponential _ ih =>
    exact hplain (by simp [brackets]) (hplain (by simp [brackets]) (nested_group ih))
  | atom _ ih | factor _ ih | product _ ih => exact ih
  | juxtaposed _ _ ihx ihy => exact ihx.append ihy
  | minus _ ih => exact hplain (by simp [brackets]) ih
  | signed negative _ _ ihx ihy =>
    exact ihx.append (hplain (by cases negative <;> simp [brackets, signToken]) ihy)

end LaTeX

end SphereLab
