import Mathlib
import SphereLab.Proofs.LaTeX.Grammar

/-!
# Writing formulas of LaTeX

Texts that are put together from texts of formulas are texts of formulas: no two tokens run
together, the whole is derived at the level at which it is used, and its braces match.

* `Spells`: a text that is a single word.
* `Lexes`: the tokens of a text, whatever follows it.
* `Writes`: a text with its tokens, a derivation at a level, and matching braces.
-/

namespace SphereLab

namespace LaTeX

open CExpression (Tree)

/-! ## Words -/

/-- The characters do not continue a word. -/
def EndsWord (cs : List Char) : Prop := ∀ c ∈ cs.head?, isWordChar c = false

/-- The text is read as one word, whatever follows it. -/
def Spells (w : List Char) : Prop :=
  ∀ rest, tokensFrom false [] (w ++ rest) = tokensFrom false w rest

/-- The tokens of a text, whatever follows it. -/
def Lexes (cs : List Char) (ts : List Token) : Prop :=
  ∀ rest, EndsWord rest →
    tokensFrom false [] (cs ++ rest) = (tokensFrom false [] rest).map (ts ++ ·)

variable {w xs ys cs : List Char} {ts us : List Token} {t : Token} {c : Char}

theorem endsWord_cons (hc : isWordChar c = false) (cs : List Char) : EndsWord (c :: cs) := by
  intro d hd
  obtain rfl := Option.some.inj hd
  exact hc

theorem tokensFrom_word (word : List Char) (hw : ∀ c ∈ w, isWordChar c = true)
    (rest : List Char) : tokensFrom false word (w ++ rest) = tokensFrom false (word ++ w) rest := by
  induction w generalizing word with
  | nil => rw [List.nil_append, List.append_nil]
  | cons c w ih =>
    obtain ⟨hc, hw⟩ := List.forall_mem_cons.mp hw
    rw [List.cons_append, tokensFrom, if_neg Bool.false_ne_true, if_pos hc, ih (word ++ [c]) hw,
      List.append_assoc, List.singleton_append]

theorem tokensFrom_subscript (word : List Char)
    (hw : ∀ c ∈ w, isWordChar c = true ∨ c = '\\') (rest : List Char) :
    tokensFrom true word (w ++ rest) = tokensFrom true (word ++ w) rest := by
  induction w generalizing word with
  | nil => rw [List.nil_append, List.append_nil]
  | cons c w ih =>
    obtain ⟨hc, hw⟩ := List.forall_mem_cons.mp hw
    have hc' : (isWordChar c || c == '\\') = true := by
      rwa [Bool.or_eq_true, beq_iff_eq]
    rw [List.cons_append, tokensFrom, if_pos rfl, if_pos hc', ih (word ++ [c]) hw,
      List.append_assoc, List.singleton_append]

theorem tokensFrom_endsWord {word : List Char} (hlast : word.getLast? ≠ some '_')
    {rest : List Char} (h : EndsWord rest) :
    tokensFrom false word rest = closeWord word (tokensFrom false [] rest) := by
  have hempty : ∀ ts, closeWord [] ts = ts := fun _ => rfl
  cases rest with
  | nil => rw [tokensFrom, tokensFrom, if_neg Bool.false_ne_true, if_neg Bool.false_ne_true, hempty]
  | cons c cs =>
    have hc : ¬isWordChar c = true := by
      rw [h c rfl]
      exact Bool.false_ne_true
    have hbrace : ∀ {word : List Char}, word.getLast? ≠ some '_' →
        ¬(c == '\x7b' && word.getLast? == some '_') = true := by
      intro word hlast hbrace
      exact hlast (beq_iff_eq.mp (Bool.and_eq_true_iff.mp hbrace).2)
    rw [tokensFrom, tokensFrom, if_neg Bool.false_ne_true, if_neg Bool.false_ne_true, if_neg hc,
      if_neg hc, if_neg (hbrace hlast), if_neg (hbrace (by simp)), hempty]

theorem spells_word (hw : ∀ c ∈ w, isWordChar c = true) : Spells w := fun rest =>
  tokensFrom_word [] hw rest

theorem spells_command (hw : ∀ c ∈ w, isWordChar c = true) : Spells ('\\' :: w) := by
  intro rest
  exact tokensFrom_word ['\\'] hw rest

theorem Spells.subscript (h : Spells (w ++ ['_']))
    (hxs : ∀ c ∈ xs, isWordChar c = true ∨ c = '\\') :
    Spells (w ++ '_' :: '\x7b' :: (xs ++ ['\x7d'])) := by
  intro rest
  have hopen : tokensFrom false (w ++ ['_']) ('\x7b' :: (xs ++ '\x7d' :: rest)) =
      tokensFrom true (w ++ ['_'] ++ ['\x7b']) (xs ++ '\x7d' :: rest) := by
    rw [tokensFrom, if_neg Bool.false_ne_true, if_neg (by decide), if_pos (by simp)]
  have hclose : tokensFrom true (w ++ ['_'] ++ ['\x7b'] ++ xs) ('\x7d' :: rest) =
      tokensFrom false (w ++ ['_'] ++ ['\x7b'] ++ xs ++ ['\x7d']) rest := by
    rw [tokensFrom, if_pos rfl, if_neg (by decide), if_pos (by decide)]
  calc tokensFrom false [] (w ++ '_' :: '\x7b' :: (xs ++ ['\x7d']) ++ rest)
      = tokensFrom false [] (w ++ ['_'] ++ '\x7b' :: (xs ++ '\x7d' :: rest)) := by simp
    _ = tokensFrom true (w ++ ['_'] ++ ['\x7b']) (xs ++ '\x7d' :: rest) := by rw [h, hopen]
    _ = tokensFrom false (w ++ ['_'] ++ ['\x7b'] ++ xs ++ ['\x7d']) rest := by
      rw [tokensFrom_subscript _ hxs, hclose]
    _ = tokensFrom false (w ++ '_' :: '\x7b' :: (xs ++ ['\x7d'])) rest := by simp

/-! ## Tokens of joined texts -/

/-- A word is one token. -/
theorem Spells.lexes (h : Spells w) (hne : w ≠ []) (hlast : w.getLast? ≠ some '_')
    (ht : wordToken? w = some t) : Lexes w [t] := by
  intro rest hrest
  have hempty : w.isEmpty = false := by simpa using hne
  rw [h rest, tokensFrom_endsWord hlast hrest, closeWord, hempty, ht]
  rfl

theorem lexes_nil : Lexes [] [] := by
  intro rest _
  rw [List.nil_append]
  exact Option.map_id'.symm

namespace Lexes

/-- What stands behind a text, and does not continue its last word. -/
theorem append (hx : Lexes xs ts) (hy : Lexes (c :: cs) us) (hc : isWordChar c = false) :
    Lexes (xs ++ c :: cs) (ts ++ us) := by
  intro rest hrest
  rw [List.append_assoc, hx (c :: cs ++ rest) (endsWord_cons hc _), hy rest hrest, Option.map_map]
  congr 1
  funext vs
  exact (List.append_assoc ts us vs).symm

theorem punctuation (hc : punctuation? c = some t) (h : Lexes xs ts) :
    Lexes (c :: xs) (t :: ts) := by
  intro rest hrest
  have hstep : tokensFrom false [] (c :: (xs ++ rest)) =
      (tokensFrom false [] (xs ++ rest)).map (t :: ·) := by
    unfold punctuation? at hc
    split at hc <;> first | (cases hc; rfl) | exact absurd hc (by simp)
  rw [List.cons_append, hstep, h rest hrest, Option.map_map]
  rfl

theorem blank (h : Lexes xs ts) : Lexes (' ' :: xs) ts := fun rest hrest => h rest hrest

end Lexes

/-- A text between braces. -/
def bracedText (cs : List Char) : List Char := '\x7b' :: (cs ++ ['\x7d'])

theorem Lexes.braced (h : Lexes xs ts) : Lexes (bracedText xs) (group ts) :=
  .punctuation rfl (h.append (.punctuation rfl lexes_nil) rfl)

/-- The parentheses and the commands, as characters. -/
def leftText : List Char := ['\\', 'l', 'e', 'f', 't', '(']

@[inherit_doc leftText]
def rightText : List Char := ['\\', 'r', 'i', 'g', 'h', 't', ')']

@[inherit_doc leftText]
def fracText : List Char := ['\\', 'f', 'r', 'a', 'c']

@[inherit_doc leftText]
def sqrtText : List Char := ['\\', 's', 'q', 'r', 't']

/-- A command that is followed by something other than a word. -/
theorem lexes_command (hw : ∀ c ∈ w, isWordChar c = true)
    (hlast : ('\\' :: w).getLast? ≠ some '_') (ht : wordToken? ('\\' :: w) = some t)
    (hc : isWordChar c = false) (h : Lexes (c :: cs) ts) :
    Lexes ('\\' :: (w ++ c :: cs)) (t :: ts) :=
  ((spells_command hw).lexes (List.cons_ne_nil _ _) hlast ht).append h hc

/-! ## Braces -/

theorem nested_braced (h : Nested braces xs) : Nested braces (bracedText xs) :=
  .enclosed (List.mem_singleton_self _) h

theorem nested_plain (hopen : c ≠ '\x7b') (hclose : c ≠ '\x7d') (h : Nested braces xs) :
    Nested braces (c :: xs) :=
  .plain (List.forall_mem_singleton.mpr ⟨hopen, hclose⟩) h

theorem nested_word (h : ∀ c ∈ w, isWordChar c = true) : Nested braces w := by
  refine Nested.of_forall_ne fun c hc => List.forall_mem_singleton.mpr ⟨?_, ?_⟩
  · rintro rfl
    exact absurd (h _ hc) (by decide)
  · rintro rfl
    exact absurd (h _ hc) (by decide)

/-! ## Texts of formulas -/

/-- The text is derived at the level with a tree, and its braces match. -/
structure Writes (level : Level) (cs : List Char) (x : Tree) : Prop where
  derives : ∃ ts, Lexes cs ts ∧ Derives level ts x
  nested : Nested braces cs

namespace Writes

variable {level : Level} {x y : Tree}

theorem derivable {s : String} (h : Writes .sum s.toList x) : Derivable s x := by
  obtain ⟨ts, hlexes, hderives⟩ := h.derives
  refine ⟨ts, ?_, hderives⟩
  have h := hlexes [] fun c hc => absurd hc (by simp)
  rw [List.append_nil] at h
  rw [tokens?, h]
  simp [tokensFrom, closeWord]

theorem factor (h : Writes .atom xs x) : Writes .factor xs x := by
  obtain ⟨ts, hlexes, hderives⟩ := h.derives
  exact ⟨⟨ts, hlexes, .atom hderives⟩, h.nested⟩

theorem product (h : Writes .factor xs x) : Writes .product xs x := by
  obtain ⟨ts, hlexes, hderives⟩ := h.derives
  exact ⟨⟨ts, hlexes, .factor hderives⟩, h.nested⟩

theorem sum (h : Writes .product xs x) : Writes .sum xs x := by
  obtain ⟨ts, hlexes, hderives⟩ := h.derives
  exact ⟨⟨ts, hlexes, .product hderives⟩, h.nested⟩

/-- What is written at a level may stand at the loosest one. -/
theorem toSum (h : Writes level xs x) : Writes .sum xs x := by
  cases level with
  | sum => exact h
  | product => exact h.sum
  | factor => exact h.product.sum
  | atom => exact h.factor.product.sum

theorem parens (h : Writes .sum xs x) : Writes .atom (leftText ++ (xs ++ rightText)) x := by
  obtain ⟨ts, hlexes, hderives⟩ := h.derives
  have hclose : Lexes rightText [.right, .closeParen] :=
    lexes_command (w := ['r', 'i', 'g', 'h', 't']) (by simp [isWordChar]) (by simp)
      (by decide +kernel) rfl (.punctuation rfl lexes_nil)
  have hopen : Lexes (leftText ++ (xs ++ rightText))
      (.left :: .openParen :: (ts ++ [.right, .closeParen])) :=
    lexes_command (w := ['l', 'e', 'f', 't']) (by simp [isWordChar]) (by simp) (by decide +kernel)
      rfl (.punctuation rfl (hlexes.append hclose rfl))
  have hleft : Nested braces leftText := .of_forall_ne (by simp [leftText, braces])
  have hright : Nested braces rightText := .of_forall_ne (by simp [rightText, braces])
  exact ⟨⟨_, hopen, .parens hderives⟩, hleft.append (h.nested.append hright)⟩

theorem fraction (hx : Writes .sum xs x) (hy : Writes .sum ys y) :
    Writes .atom (fracText ++ (bracedText xs ++ bracedText ys)) (.binary .div x y) := by
  obtain ⟨ts, hlexes, hderives⟩ := hx.derives
  obtain ⟨us, hlexes', hderives'⟩ := hy.derives
  have hcommand : Lexes (fracText ++ (bracedText xs ++ bracedText ys))
      (.frac :: (group ts ++ group us)) :=
    lexes_command (w := ['f', 'r', 'a', 'c']) (by simp [isWordChar]) (by simp) (by decide +kernel)
      rfl (hlexes.braced.append hlexes'.braced rfl)
  have hfrac : Nested braces fracText := .of_forall_ne (by simp [fracText, braces])
  exact ⟨⟨_, hcommand, .fraction hderives hderives'⟩,
    hfrac.append ((nested_braced hx.nested).append (nested_braced hy.nested))⟩

theorem root (h : Writes .sum xs x) :
    Writes .atom (sqrtText ++ bracedText xs) (.call .sqrt x) := by
  obtain ⟨ts, hlexes, hderives⟩ := h.derives
  have hcommand : Lexes (sqrtText ++ bracedText xs) (.sqrt :: group ts) :=
    lexes_command (w := ['s', 'q', 'r', 't']) (by simp [isWordChar]) (by simp) (by decide +kernel)
      rfl hlexes.braced
  have hsqrt : Nested braces sqrtText := .of_forall_ne (by simp [sqrtText, braces])
  exact ⟨⟨_, hcommand, .root hderives⟩, hsqrt.append (nested_braced h.nested)⟩

theorem power (hx : Writes .atom xs x) (hy : Writes .sum ys y) :
    Writes .factor (xs ++ '^' :: bracedText ys) (.pow x y) := by
  obtain ⟨ts, hlexes, hderives⟩ := hx.derives
  obtain ⟨us, hlexes', hderives'⟩ := hy.derives
  exact ⟨⟨_, hlexes.append (.punctuation rfl hlexes'.braced) rfl, .power hderives hderives'⟩,
    hx.nested.append (nested_plain (by decide) (by decide) (nested_braced hy.nested))⟩

theorem exponential (h : Writes .sum xs x) :
    Writes .factor ('e' :: '^' :: bracedText xs) (.call .exp x) := by
  obtain ⟨ts, hlexes, hderives⟩ := h.derives
  have hletter : Lexes ['e'] [.symbol "e"] :=
    (spells_word (by simp [isWordChar])).lexes (by simp) (by simp) (by decide +kernel)
  exact ⟨⟨_, hletter.append (.punctuation rfl hlexes.braced) rfl, .exponential hderives⟩,
    nested_plain (by decide) (by decide)
      (nested_plain (by decide) (by decide) (nested_braced h.nested))⟩

/-- Products are written by juxtaposition. -/
theorem juxtaposed (hx : Writes .factor xs x) (hy : Writes .product ys y) :
    Writes .product (xs ++ ' ' :: ys) (.binary .mul x y) := by
  obtain ⟨ts, hlexes, hderives⟩ := hx.derives
  obtain ⟨us, hlexes', hderives'⟩ := hy.derives
  exact ⟨⟨_, hlexes.append hlexes'.blank rfl, .juxtaposed hderives hderives'⟩,
    hx.nested.append (nested_plain (by decide) (by decide) hy.nested)⟩

/-- A minus in front of a product, with a blank behind it or not. -/
theorem minus (h : Writes .product xs x) :
    Writes .sum ('-' :: xs) (.neg x) ∧ Writes .sum ('-' :: ' ' :: xs) (.neg x) := by
  obtain ⟨ts, hlexes, hderives⟩ := h.derives
  exact ⟨⟨⟨_, .punctuation rfl hlexes, .minus hderives⟩,
      nested_plain (by decide) (by decide) h.nested⟩,
    ⟨⟨_, .punctuation rfl hlexes.blank, .minus hderives⟩,
      nested_plain (by decide) (by decide) (nested_plain (by decide) (by decide) h.nested)⟩⟩

/-- A sum with another product behind a sign. -/
theorem signed (negative : Bool) (hx : Writes .sum xs x) (hy : Writes .product ys y) :
    Writes .sum (xs ++ ' ' :: (if negative then '-' else '+') :: ' ' :: ys)
      (.binary (signOperator negative) x y) := by
  obtain ⟨ts, hlexes, hderives⟩ := hx.derives
  obtain ⟨us, hlexes', hderives'⟩ := hy.derives
  have hsign : punctuation? (if negative then '-' else '+') = some (signToken negative) := by
    cases negative <;> rfl
  refine ⟨⟨_, hlexes.append (.blank (.punctuation hsign hlexes'.blank)) rfl,
    .signed negative hderives hderives'⟩, hx.nested.append ?_⟩
  refine nested_plain (by decide) (by decide) (nested_plain ?_ ?_
    (nested_plain (by decide) (by decide) hy.nested))
  · cases negative <;> decide
  · cases negative <;> decide

end Writes

end LaTeX

end SphereLab
