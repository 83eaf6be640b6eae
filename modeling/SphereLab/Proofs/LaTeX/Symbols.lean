import Mathlib
import SphereLab.Proofs.LaTeX.Writing
import SphereLab.Proofs.Text.Pieces

/-!
# Symbols in LaTeX

A symbol is written with a command for a Greek letter and with a subscript for what follows the
first underscore of its name.  Taking away the backslashes and the braces gives the name back, so
different names are written differently; and what is written is a single token.

* `symbolText_injective`: different names have different texts.
* `writes_symbol`: the text of a symbol is an atom.
-/

namespace SphereLab

namespace LaTeX

variable {s t : String} {piece : String} {tail : List Char}

/-! ## The text of a symbol -/

/-- A piece of a name is written as it is, or behind a backslash. -/
theorem toList_letter (piece : String) :
    (letter piece).toList = piece.toList ∨
      greekNames.contains piece = true ∧ (letter piece).toList = '\\' :: piece.toList := by
  rw [letter]
  split
  · rename_i h
    rw [String.toList_append]
    exact Or.inr ⟨h, rfl⟩
  · exact Or.inl rfl

theorem toList_braced (s : String) : (braced s).toList = bracedText s.toList := by
  rw [braced, String.toList_append, String.toList_append, List.append_assoc, bracedText]
  rfl

/-- The text of a symbol: its base, and its subscript if the name has an underscore. -/
theorem exists_toList_symbolText (s : String) :
    ∃ base : String, '_' ∉ base.toList ∧
      (s = base ∧ (symbolText s).toList = (letter base).toList ∨
        ∃ sub : String, s.toList = base.toList ++ '_' :: sub.toList ∧ (symbolText s).toList =
          (letter base).toList ++ '_' :: bracedText (letter sub).toList) := by
  rw [symbolText]
  rcases splitFirst_cases '_' s.toList with ⟨hsplit, hmem⟩ | ⟨before, behind, hsplit, hs, hmem⟩
  · rw [hsplit]
    exact ⟨s, hmem, Or.inl ⟨rfl, rfl⟩⟩
  · rw [hsplit]
    refine ⟨String.ofList before, by rwa [String.toList_ofList], Or.inr
      ⟨String.ofList behind, by rw [String.toList_ofList, String.toList_ofList, hs], ?_⟩⟩
    dsimp only
    rw [String.toList_append, String.toList_append, toList_braced, List.append_assoc]
    rfl

/-! ## Different symbols -/

/-- The marks that the text of a symbol has beside its name. -/
def isMark (c : Char) : Bool := c == '\\' || c == '\x7b' || c == '\x7d'

theorem isMark_of_isWordChar {c : Char} (h : isWordChar c = true) : isMark c = false := by
  by_contra hmark
  simp only [isMark, Bool.not_eq_false, Bool.or_eq_true, beq_iff_eq] at hmark
  rcases hmark with (rfl | rfl) | rfl <;> exact absurd h (by decide)

theorem filter_isMark_of_isWordChar {cs : List Char} (h : ∀ c ∈ cs, isWordChar c = true) :
    cs.filter (!isMark ·) = cs :=
  List.filter_eq_self.mpr fun c hc => by rw [isMark_of_isWordChar (h c hc), Bool.not_false]

theorem filter_isMark_letter (h : ∀ c ∈ piece.toList, isWordChar c = true) :
    (letter piece).toList.filter (!isMark ·) = piece.toList := by
  rcases toList_letter piece with htext | ⟨-, htext⟩
  · rw [htext, filter_isMark_of_isWordChar h]
  · rw [htext, List.filter_cons_of_neg (by decide), filter_isMark_of_isWordChar h]

/-- Without its marks the text of a symbol is its name. -/
theorem filter_isMark_symbolText (h : ∀ c ∈ s.toList, isWordChar c = true) :
    (symbolText s).toList.filter (!isMark ·) = s.toList := by
  obtain ⟨base, -, ⟨rfl, htext⟩ | ⟨sub, hs, htext⟩⟩ := exists_toList_symbolText s
  · rw [htext, filter_isMark_letter h]
  · rw [hs, List.forall_mem_append, List.forall_mem_cons] at h
    rw [htext, hs, List.filter_append, filter_isMark_letter h.1,
      List.filter_cons_of_pos (by decide), bracedText, List.filter_cons_of_neg (by decide),
      List.filter_append, filter_isMark_letter h.2.2, List.filter_cons_of_neg (by decide),
      List.filter_nil, List.append_nil]

/-- Different names are written differently. -/
theorem symbolText_injective (hs : ∀ c ∈ s.toList, isWordChar c = true)
    (ht : ∀ c ∈ t.toList, isWordChar c = true) (h : symbolText s = symbolText t) : s = t := by
  rw [← String.toList_inj, ← filter_isMark_symbolText hs, ← filter_isMark_symbolText ht, h]

/-! ## Symbols as tokens -/

/-- A piece of a name with more of a word behind it is read as one word. -/
theorem spells_letter (h : ∀ c ∈ piece.toList, isWordChar c = true)
    (htail : ∀ c ∈ tail, isWordChar c = true) : Spells ((letter piece).toList ++ tail) := by
  have hword : ∀ c ∈ piece.toList ++ tail, isWordChar c = true :=
    List.forall_mem_append.mpr ⟨h, htail⟩
  rcases toList_letter piece with htext | ⟨-, htext⟩
  · rw [htext]
    exact spells_word hword
  · rw [htext]
    exact spells_command hword

/-- The text of a symbol is read as one word. -/
theorem spells_symbolText (h : ∀ c ∈ s.toList, isWordChar c = true) :
    Spells (symbolText s).toList := by
  obtain ⟨base, -, ⟨rfl, htext⟩ | ⟨sub, hs, htext⟩⟩ := exists_toList_symbolText s
  · have hspells := spells_letter h (List.forall_mem_nil _)
    rw [List.append_nil] at hspells
    rwa [htext]
  · rw [hs, List.forall_mem_append, List.forall_mem_cons] at h
    rw [htext]
    refine (spells_letter h.1 (List.forall_mem_singleton.mpr h.2.1)).subscript fun c hc => ?_
    rcases toList_letter sub with htext | ⟨-, htext⟩
    · exact Or.inl (h.2.2 c (htext ▸ hc))
    · rw [htext] at hc
      exact (List.mem_cons.mp hc).elim Or.inr fun hc => Or.inl (h.2.2 c hc)

theorem isNumeral_eq_false {c : Char} (hc : c.isDigit = false) (cs : List Char) :
    CExpression.isNumeral (c :: cs) = false := by
  simp [CExpression.isNumeral, hc]

/-- The base of a name is the token of a symbol, whatever the subscript behind it. -/
theorem wordToken?_letter {c : Char} {cs : List Char} (hpiece : piece.toList = c :: cs)
    (hc : c.isDigit = false ∧ c ≠ '_' ∧ c ≠ '.') (hmark : c ≠ '\\') (hmem : '_' ∉ piece.toList)
    (htail : ∀ d ∈ tail.head?, d = '_') :
    wordToken? ((letter piece).toList ++ tail) =
      some (.symbol (String.ofList ((letter piece).toList ++ tail))) := by
  have htake : (piece.toList ++ tail).takeWhile (· != '_') = piece.toList := by
    have hpiece' : ∀ d ∈ piece.toList, (d != '_') = true := fun d hd =>
      bne_iff_ne.mpr fun heq => hmem (heq ▸ hd)
    have hnone : tail.takeWhile (· != '_') = [] := by
      cases tail with
      | nil => rfl
      | cons d tail =>
        obtain rfl := htail d rfl
        rfl
    rw [List.takeWhile_append_of_pos hpiece', hnone, List.append_nil]
  rcases toList_letter piece with htext | ⟨hgreek, htext⟩
  · have hsymbol : isSymbol (c :: (cs ++ tail)) = true := by
      have hstep : isSymbol (c :: (cs ++ tail)) = (!c.isDigit && c != '_' && c != '.') := by
        rw [isSymbol]
        exact fun heq => absurd heq hmark
      rw [hstep]
      simp [hc]
    rw [htext, hpiece, List.cons_append, wordToken?, isNumeral_eq_false hc.1,
      if_neg Bool.false_ne_true, if_pos hsymbol]
  · have hsymbol : isSymbol ('\\' :: (piece.toList ++ tail)) = true := by
      rw [isSymbol, htake, String.ofList_toList]
      exact hgreek
    rw [htext, List.cons_append, wordToken?, isNumeral_eq_false (by decide),
      if_neg Bool.false_ne_true, if_pos hsymbol]

/-- The text of a symbol is the token of a symbol. -/
theorem wordToken?_symbolText (h : IsName s) :
    wordToken? (symbolText s).toList = some (.symbol (symbolText s)) := by
  obtain ⟨-, hword, c, hhead, hc⟩ := h
  obtain ⟨cs, hs⟩ := List.head?_eq_some_iff.mp hhead
  have hmark : c ≠ '\\' := by
    rintro rfl
    exact absurd (hword _ (hs ▸ List.mem_cons_self)) (by decide)
  obtain ⟨base, hmem, htext⟩ := exists_toList_symbolText s
  obtain ⟨tail, htail, hbase, htext⟩ : ∃ tail : List Char, (∀ d ∈ tail.head?, d = '_') ∧
      (∃ rest, base.toList = c :: rest) ∧ (symbolText s).toList = (letter base).toList ++ tail := by
    rcases htext with ⟨rfl, htext⟩ | ⟨sub, hsub, htext⟩
    · exact ⟨[], by simp, ⟨cs, hs⟩, by rw [htext, List.append_nil]⟩
    · refine ⟨_, by simp, ?_, htext⟩
      rw [hs] at hsub
      cases hbase : base.toList with
      | nil =>
        rw [hbase] at hsub
        exact absurd (List.cons.inj hsub).1 hc.2.1
      | cons d rest =>
        rw [hbase] at hsub
        exact ⟨rest, by rw [(List.cons.inj hsub).1]⟩
  obtain ⟨rest, hbase⟩ := hbase
  rw [htext, wordToken?_letter hbase hc hmark hmem htail, ← htext, String.ofList_toList]

/-- The text of a symbol ends in a brace or in a character of its name other than an underscore. -/
theorem getLast?_symbolText (h : IsName s) :
    ∀ c ∈ (symbolText s).toList.getLast?, c = '\x7d' ∨ isWordChar c = true ∧ c ≠ '_' := by
  intro c hc
  obtain ⟨-, hword, d, hhead, -⟩ := h
  obtain ⟨base, hmem, ⟨rfl, htext⟩ | ⟨sub, -, htext⟩⟩ := exists_toList_symbolText s
  · -- The last character of the text is the last one of the name.
    obtain ⟨cs, hs⟩ := List.head?_eq_some_iff.mp hhead
    have hlast : c ∈ s.toList.getLast? := by
      rcases toList_letter s with hletter | ⟨-, hletter⟩
      · rwa [htext, hletter] at hc
      · rw [htext, hletter, hs, List.getLast?_cons_cons] at hc
        rwa [hs]
    have hmem' := List.mem_of_getLast? hlast
    exact Or.inr ⟨hword c hmem', fun heq => hmem (heq ▸ hmem')⟩
  · rw [htext, bracedText, ← List.cons_append, ← List.cons_append, ← List.append_assoc,
      List.getLast?_concat] at hc
    exact Or.inl (Option.some.inj hc).symm

theorem symbolText_ne (h : IsName s) : symbolText s ≠ "e" := by
  intro heq
  have hletter : symbolText "e" = "e" := by decide +kernel
  refine h.1 (symbolText_injective h.2.1 ?_ (heq.trans hletter.symm))
  exact List.forall_mem_singleton.mpr (by decide)

theorem nested_letter (h : ∀ c ∈ piece.toList, isWordChar c = true) :
    Nested braces (letter piece).toList := by
  rcases toList_letter piece with htext | ⟨-, htext⟩
  · rw [htext]
    exact nested_word h
  · rw [htext]
    exact nested_plain (by decide) (by decide) (nested_word h)

theorem nested_symbolText (h : ∀ c ∈ s.toList, isWordChar c = true) :
    Nested braces (symbolText s).toList := by
  obtain ⟨base, -, ⟨rfl, htext⟩ | ⟨sub, hs, htext⟩⟩ := exists_toList_symbolText s
  · rw [htext]
    exact nested_letter h
  · rw [hs, List.forall_mem_append, List.forall_mem_cons] at h
    rw [htext]
    exact (nested_letter h.1).append
      (nested_plain (by decide) (by decide) (nested_braced (nested_letter h.2.2)))

/-- The text of a symbol is an atom, whose value is that of the text. -/
theorem writes_symbol (h : IsName s) :
    Writes .atom (symbolText s).toList (.name (symbolText s)) := by
  have hword := wordToken?_symbolText h
  refine ⟨⟨_, (spells_symbolText h.2.1).lexes ?_ ?_ hword, .symbol _ (symbolText_ne h)⟩,
    nested_symbolText h.2.1⟩
  · intro hnil
    have hempty : wordToken? [] = none := by decide +kernel
    rw [hnil, hempty] at hword
    exact absurd hword (by simp)
  · intro hlast
    rcases getLast?_symbolText h _ hlast with heq | ⟨-, hne⟩
    · exact absurd heq (by decide)
    · exact hne rfl

end LaTeX

end SphereLab
