import Mathlib
import SphereLab.DataFile.Table
import SphereLab.Proofs.Decimal.Grammar

/-!
# Tables are rectangles of numerals

A line of a table file is cut at its first `#`, and it counts only if more than blanks is left.
The lines that remain are numbered by their places in the whole text, and either they make up a
rectangle of numerals or one of them is the first that does not fit.  A line with a word that is no
numeral and a line of another width offend alike, and whichever stands first is the one that is
named.

* `remaining`, `separated`: the lines that count, and the words of a line.
* `Outcome`: what reading lines to a width comes to, by whether one of them offends.
* `readLines_none_outcome`: the lines that remain are read to the width of the first.
* `parse_rectangular`: a text is a table just if it is rectangular, and then every entry stands at
  its place in the row-major store; otherwise the first offending line is named.
-/

namespace SphereLab

/-! ## Words -/

/-- The pieces of a line between blanks that are not empty. -/
def separated (line : List Char) : List (List Char) :=
  (line.splitOnP isBlank).filter fun piece => !piece.isEmpty

theorem separated_cons_of_isBlank {c : Char} (hc : isBlank c = true) (rest : List Char) :
    separated (c :: rest) = separated rest := by
  rw [separated, List.splitOnP_cons_eq_if_modifyHead, if_pos hc]
  rfl

/-- A character that is not blank belongs to the word that begins behind it. -/
theorem separated_cons_cons {c d : Char} (hc : isBlank c ≠ true) (hd : isBlank d ≠ true)
    (rest : List Char) : ∃ w ws, separated (d :: rest) = w :: ws ∧
      separated (c :: d :: rest) = (c :: w) :: ws := by
  obtain ⟨piece, pieces, hpieces⟩ :=
    List.exists_cons_of_ne_nil (List.splitOnP_ne_nil isBlank rest)
  have hsplit : (d :: rest).splitOnP isBlank = (d :: piece) :: pieces := by
    rw [List.splitOnP_cons_eq_if_modifyHead, if_neg hd, hpieces, List.modifyHead_cons]
  refine ⟨d :: piece, pieces.filter fun piece => !piece.isEmpty, ?_, ?_⟩
  · rw [separated, hsplit]
    rfl
  · rw [separated, List.splitOnP_cons_eq_if_modifyHead, if_neg hc, hsplit]
    rfl

theorem words_eq_separated (cs : List Char) : words cs = separated cs := by
  fun_induction words cs with
  | case1 => rfl
  | case2 c hc => rw [separated_cons_of_isBlank hc]; rfl
  | case3 c hc =>
    rw [separated, List.splitOnP_cons_eq_if_modifyHead, if_neg hc, List.splitOnP_nil]
    rfl
  | case4 c d rest hc ih => rw [separated_cons_of_isBlank hc, ih]
  | case5 c d rest hc hd ih =>
    rw [ih, separated_cons_of_isBlank hd, separated, separated,
      List.splitOnP_cons_eq_if_modifyHead, if_neg hc, List.splitOnP_cons_eq_if_modifyHead,
      if_pos hd]
    rfl
  | case6 c d rest hc hd hnone ih =>
    obtain ⟨w, ws, htail, -⟩ := separated_cons_cons hc hd rest
    rw [ih, htail] at hnone
    exact absurd hnone (List.cons_ne_nil w ws)
  | case7 c d rest hc hd w ws hwords ih =>
    obtain ⟨w', ws', htail, hwhole⟩ := separated_cons_cons hc hd rest
    rw [ih, htail] at hwords
    obtain ⟨rfl, rfl⟩ := List.cons.inj hwords
    exact hwhole.symm

/-- A line without words is blank. -/
theorem separated_eq_nil_iff (cs : List Char) : separated cs = [] ↔ cs.all isBlank = true := by
  rw [← words_eq_separated]
  fun_induction words cs with
  | case1 => simp
  | case2 c hc => simp [hc]
  | case3 c hc => simp [hc]
  | case4 c d rest hc ih => simpa [hc] using ih
  | case5 c d rest hc hd ih => simp [hc]
  | case6 c d rest hc hd hnone ih => simp [hc]
  | case7 c d rest hc hd w ws hwords ih => simp [hc]

namespace Table

/-! ## The lines that remain -/

/-- Lines that are cut at the first `#`, without those that are blank then. -/
def kept (ls : List (ℕ × List Char)) : List (ℕ × List Char) :=
  (ls.map fun line => (line.1, line.2.takeWhile (· != '#'))).filter fun line =>
    !line.2.all isBlank

/-- The lines that remain of a text, with their numbers in the text. -/
def remaining (text : String) : List (ℕ × List Char) := kept (numberedLines text)

/-- Lines that do not fit into rows of a width: with a word that is no numeral, or with too many
words or too few. -/
def Offends (width : ℕ) (line : ℕ × List Char) : Prop :=
  (∃ token ∈ separated line.2, ¬Numeral.IsNumeral token) ∨ (separated line.2).length ≠ width

instance (width : ℕ) : DecidablePred (Offends width) := fun line =>
  inferInstanceAs (Decidable
    ((∃ token ∈ separated line.2, ¬Numeral.IsNumeral token) ∨ (separated line.2).length ≠ width))

/-- The line that a fault is found in. -/
def Fault.line? : Fault → Option ℕ
  | .noRows => none
  | .badToken line _ => some line
  | .ragged line _ _ => some line

/-- The row that is read off a line. -/
def Reads (line : ℕ × List Char) (row : List Float) : Prop :=
  (separated line.2).map readDouble? = row.map some

theorem tokens_eq (line : List Char) :
    tokens line = separated (line.takeWhile (· != '#')) := words_eq_separated _

theorem kept_cons_of_tokens_eq_nil {number : ℕ} {text : List Char} (h : tokens text = [])
    (rest : List (ℕ × List Char)) : kept ((number, text) :: rest) = kept rest := by
  rw [tokens_eq, separated_eq_nil_iff] at h
  rw [kept, List.map_cons, List.filter_cons_of_neg (by simpa using h)]
  rfl

theorem kept_cons_of_tokens_ne_nil {number : ℕ} {text : List Char} (h : tokens text ≠ [])
    (rest : List (ℕ × List Char)) :
    kept ((number, text) :: rest) = (number, text.takeWhile (· != '#')) :: kept rest := by
  rw [tokens_eq, Ne, separated_eq_nil_iff] at h
  rw [kept, List.map_cons, List.filter_cons_of_pos (by simpa using h)]
  rfl

/-! ## One line -/

theorem readTokens_cases (number : ℕ) (ts : List (List Char)) :
    (∃ row, readTokens number ts = .ok row ∧ ts.map readDouble? = row.map some) ∨
    ∃ token ∈ ts, ¬Numeral.IsNumeral token ∧
      readTokens number ts = .error (.badToken number (String.ofList token)) := by
  induction ts with
  | nil => exact Or.inl ⟨[], rfl, rfl⟩
  | cons token rest ih =>
    rw [readTokens]
    cases hread : readDouble? token with
    | none =>
      refine Or.inr ⟨token, List.mem_cons_self, ?_, rfl⟩
      rw [← isSome_readDouble?_iff, hread]
      exact Bool.false_ne_true
    | some v =>
      rcases ih with ⟨row, hrow, hmap⟩ | ⟨bad, hmem, hbad, herror⟩
      · exact Or.inl ⟨v :: row, by rw [hrow]; rfl, by rw [List.map_cons, hread, hmap]; rfl⟩
      · exact Or.inr ⟨bad, List.mem_cons_of_mem _ hmem, hbad, by rw [herror]; rfl⟩

theorem Reads.length_eq {line : ℕ × List Char} {row : List Float} (h : Reads line row) :
    (separated line.2).length = row.length := by
  have hlength := congrArg List.length h
  rwa [List.length_map, List.length_map] at hlength

theorem Reads.isNumeral {line : ℕ × List Char} {row : List Float} (h : Reads line row) :
    ∀ token ∈ separated line.2, Numeral.IsNumeral token := by
  intro token hmem
  have hread : readDouble? token ∈ row.map some := h ▸ List.mem_map_of_mem hmem
  obtain ⟨v, -, hv⟩ := List.mem_map.mp hread
  rw [← isSome_readDouble?_iff, ← hv]
  rfl

/-- A line that is read to a row of the width does not offend. -/
theorem Reads.not_offends {line : ℕ × List Char} {row : List Float} {width : ℕ}
    (h : Reads line row) (hwidth : row.length = width) : ¬Offends width line := by
  rintro (⟨token, hmem, hbad⟩ | hlength)
  · exact hbad (h.isNumeral token hmem)
  · exact hlength (h.length_eq.trans hwidth)

/-! ## Rows of one width -/

/-- What it comes to that lines are read to rows of a width: rows, or the first offence. -/
inductive Outcome (width : ℕ) (ls : List (ℕ × List Char)) :
    Except Fault (List (List Float)) → Prop where
  | rows {rows : List (List Float)} (hreads : List.Forall₂ Reads ls rows)
      (hwidth : ∀ row ∈ rows, row.length = width) : Outcome width ls (.ok rows)
  | fault {before after : List (ℕ × List Char)} {line : ℕ × List Char} {e : Fault}
      (hsplit : ls = before ++ line :: after) (hbefore : ∀ other ∈ before, ¬Offends width other)
      (hline : Offends width line) (hnumber : e.line? = some line.1) : Outcome width ls (.error e)

/-- A line that is read goes in front. -/
theorem Outcome.cons {width : ℕ} {ls : List (ℕ × List Char)}
    {result : Except Fault (List (List Float))} (h : Outcome width ls result)
    {line : ℕ × List Char} {row : List Float} (hread : Reads line row)
    (hwidth : row.length = width) : Outcome width (line :: ls) (result.map (row :: ·)) := by
  cases h with
  | rows hreads hwidths =>
    exact .rows (.cons hread hreads) (List.forall_mem_cons.mpr ⟨hwidth, hwidths⟩)
  | @fault before after other e hsplit hbefore hline hnumber =>
    have hfront : line :: ls = (line :: before) ++ other :: after := by
      rw [hsplit, List.cons_append]
    exact .fault hfront (List.forall_mem_cons.mpr ⟨hread.not_offends hwidth, hbefore⟩) hline hnumber

/-- A line that offends ends the reading. -/
theorem Outcome.first {width : ℕ} {line : ℕ × List Char} {e : Fault} (hline : Offends width line)
    (hnumber : e.line? = some line.1) (rest : List (ℕ × List Char)) :
    Outcome width (line :: rest) (.error e) :=
  .fault (List.nil_append _).symm (by simp) hline hnumber

/-- One numbered line: it is skipped, or it remains and offends by a word, or it is read and its
width is compared. -/
theorem readLines_cons_cases (width : Option ℕ) (numbered : ℕ × List Char)
    (rest : List (ℕ × List Char)) :
    (kept (numbered :: rest) = kept rest ∧
      readLines width (numbered :: rest) = readLines width rest) ∨
    ∃ line, kept (numbered :: rest) = line :: kept rest ∧
      ((∃ token e, token ∈ separated line.2 ∧ ¬Numeral.IsNumeral token ∧
          e.line? = some line.1 ∧ readLines width (numbered :: rest) = .error e) ∨
        ∃ row, Reads line row ∧ readLines width (numbered :: rest) =
          match width with
          | some w =>
            if row.length = w then (readLines width rest).map (row :: ·)
            else .error (.ragged line.1 w row.length)
          | none => (readLines (some row.length) rest).map (row :: ·)) := by
  obtain ⟨number, text⟩ := numbered
  rw [readLines]
  cases htokens : tokens text with
  | nil => exact Or.inl ⟨kept_cons_of_tokens_eq_nil htokens rest, rfl⟩
  | cons token others =>
    refine Or.inr ⟨_, kept_cons_of_tokens_ne_nil (htokens ▸ List.cons_ne_nil _ _) rest, ?_⟩
    dsimp only
    rw [← htokens, tokens_eq]
    rcases readTokens_cases number (separated (text.takeWhile (· != '#')))
      with ⟨row, hrow, hreads⟩ | ⟨bad, hmem, hbad, herror⟩
    · rw [hrow]
      exact Or.inr ⟨row, hreads, rfl⟩
    · rw [herror]
      exact Or.inl ⟨bad, _, hmem, hbad, rfl, rfl⟩

theorem readLines_some_outcome (width : ℕ) (ls : List (ℕ × List Char)) :
    Outcome width (kept ls) (readLines (some width) ls) := by
  induction ls with
  | nil => exact .rows .nil (by simp)
  | cons numbered rest ih =>
    rcases readLines_cons_cases (some width) numbered rest with ⟨hkept, hlines⟩ |
      ⟨line, hkept, ⟨token, e, hmem, hbad, hnumber, hlines⟩ | ⟨row, hread, hlines⟩⟩
    · rwa [hkept, hlines]
    · rw [hkept, hlines]
      exact .first (Or.inl ⟨token, hmem, hbad⟩) hnumber _
    · rw [hkept, hlines]
      dsimp only
      split
      · rename_i hwidth
        exact ih.cons hread hwidth
      · rename_i hwidth
        exact .first (Or.inr fun hlength => hwidth (hread.length_eq.symm.trans hlength)) rfl _

/-- The first line that remains sets the width. -/
theorem readLines_none_outcome (ls : List (ℕ × List Char)) :
    (kept ls = [] ∧ readLines none ls = .ok []) ∨
    ∃ first others, kept ls = first :: others ∧
      Outcome (separated first.2).length (kept ls) (readLines none ls) := by
  induction ls with
  | nil => exact Or.inl ⟨rfl, rfl⟩
  | cons numbered rest ih =>
    rcases readLines_cons_cases none numbered rest with ⟨hkept, hlines⟩ |
      ⟨line, hkept, ⟨token, e, hmem, hbad, hnumber, hlines⟩ | ⟨row, hread, hlines⟩⟩
    · rwa [hkept, hlines]
    · rw [hkept, hlines]
      exact Or.inr ⟨line, _, rfl, .first (Or.inl ⟨token, hmem, hbad⟩) hnumber _⟩
    · rw [hkept, hlines]
      refine Or.inr ⟨line, _, rfl, ?_⟩
      rw [hread.length_eq]
      exact (readLines_some_outcome row.length rest).cons hread rfl

/-! ## Places in a table -/

section Places

variable {rows : List (List Float)} {width : ℕ}

theorem length_flatten_of_width (h : ∀ row ∈ rows, row.length = width) :
    rows.flatten.length = rows.length * width := by
  rw [List.length_flatten, List.map_congr_left h, List.map_const', List.sum_replicate,
    smul_eq_mul]

theorem getElem?_flatten_of_width (h : ∀ row ∈ rows, row.length = width) {c : ℕ} (hc : c < width)
    (r : ℕ) : rows.flatten[r * width + c]? = rows[r]?.bind (·[c]?) := by
  induction rows generalizing r with
  | nil => simp
  | cons row rest ih =>
    obtain ⟨hrow, hrest⟩ := List.forall_mem_cons.mp h
    cases r with
    | zero =>
      rw [Nat.zero_mul, Nat.zero_add, List.flatten_cons, List.getElem?_append_left (by omega)]
      rfl
    | succ r =>
      have hplace : (r + 1) * width + c = row.length + (r * width + c) := by
        rw [hrow, Nat.succ_mul]
        omega
      rw [hplace, List.flatten_cons, List.getElem?_append_right (Nat.le_add_right _ _),
        Nat.add_sub_cancel_left, ih hrest r, List.getElem?_cons_succ]

theorem column_of_width (h : ∀ row ∈ rows, row.length = width) {c : ℕ} (hc : c < width) :
    (rows.filterMap fun row => row[c]?).length = rows.length ∧
      ∀ r : ℕ, (rows.filterMap fun row => row[c]?)[r]? = rows[r]?.bind (·[c]?) := by
  induction rows with
  | nil => simp
  | cons row rest ih =>
    obtain ⟨hrow, hrest⟩ := List.forall_mem_cons.mp h
    obtain ⟨hlength, hget⟩ := ih hrest
    have hlt : c < row.length := by omega
    have hentry : row[c]? = some row[c] := List.getElem?_eq_getElem hlt
    have hcons : (List.filterMap (fun row => row[c]?) (row :: rest)) =
        row[c] :: rest.filterMap fun row => row[c]? :=
      List.filterMap_cons_some (by exact hentry)
    rw [hcons]
    refine ⟨by rw [List.length_cons, List.length_cons, hlength], fun r => ?_⟩
    cases r with
    | zero => exact hentry.symm
    | succ r => exact hget r

end Places

/-! ## The whole text -/

/-- A text is rectangular if a line remains of it, all words of the lines that remain are numerals,
and these lines have equally many. -/
structure IsRectangular (text : String) : Prop where
  nonempty : remaining text ≠ []
  numerals : ∀ line ∈ remaining text, ∀ token ∈ separated line.2, Numeral.IsNumeral token
  width : ∀ line ∈ remaining text, ∀ other ∈ remaining text,
    (separated line.2).length = (separated other.2).length

instance : DecidablePred IsRectangular := fun text =>
  decidable_of_iff (remaining text ≠ [] ∧
    (∀ line ∈ remaining text, ∀ token ∈ separated line.2, Numeral.IsNumeral token) ∧
    ∀ line ∈ remaining text, ∀ other ∈ remaining text,
      (separated line.2).length = (separated other.2).length)
    ⟨fun h => ⟨h.1, h.2.1, h.2.2⟩, fun h => ⟨h.nonempty, h.numerals, h.width⟩⟩

/-- The number at a place among the words of the lines that remain. -/
def numberAt? (text : String) (r c : ℕ) : Option Float :=
  (((remaining text)[r]?).bind fun line => (separated line.2)[c]?).bind readDouble?

/-- The entries in the order of their rows, one row behind the other. -/
def values (t : Table) : List Float := t.rows.flatten

/-- A table is what a text says, and can be asked for all of it and for nothing else. -/
structure Holds (t : Table) (text : String) : Prop where
  height : t.height = (remaining text).length
  width : ∀ line ∈ remaining text, (separated line.2).length = t.width
  stored : t.values.length = t.height * t.width
  entries : ∀ r < t.height, ∀ c < t.width, ∃ v, numberAt? text r c = some v ∧
    t.get? r c = some v ∧ t.values[r * t.width + c]? = some v
  columns : ∀ c < t.width, ∃ vs, t.column c = .ok vs ∧ vs.length = t.height ∧
    ∀ r < t.height, vs[r]? = t.get? r c
  missing : ∀ c, t.width ≤ c → ∃ e, t.column c = .error e ∧ e.failure.code = 3

/-- A failure tells where a text stops to be rectangular: at the first of its remaining lines that
does not fit to the first one, unless there is none. -/
structure Blames (f : Failure) (source text : String) : Prop where
  code : f.code = 3
  place : remaining text = [] ∨ ∃ first before line after rest,
    (remaining text).head? = some first ∧ remaining text = before ++ line :: after ∧
    (∀ other ∈ before, ¬Offends (separated first.2).length other) ∧
    Offends (separated first.2).length line ∧
    f.message = source ++ ":" ++ naturalText line.1 ++ ": " ++ rest

/-- The entry that is read at a place of a line. -/
theorem Reads.getElem? {line : ℕ × List Char} {row : List Float} (h : Reads line row) (c : ℕ) :
    ((separated line.2)[c]?).bind readDouble? = row[c]? := by
  have hplace := congrArg (·[c]?) h
  simp only [List.getElem?_map] at hplace
  cases htoken : (separated line.2)[c]? with
  | none =>
    rw [htoken] at hplace
    exact (Option.map_eq_none_iff.mp hplace.symm).symm
  | some token =>
    rw [htoken, Option.map_some] at hplace
    obtain ⟨v, hv, hread⟩ := Option.map_eq_some_iff.mp hplace.symm
    rw [hv, Option.bind_some, ← hread]

theorem numberAt?_eq {text : String} {rows : List (List Float)}
    (h : List.Forall₂ Reads (remaining text) rows) (r c : ℕ) :
    numberAt? text r c = rows[r]?.bind (·[c]?) := by
  rw [numberAt?]
  generalize remaining text = ls at h
  induction h generalizing r with
  | nil => rfl
  | cons hread _ ih =>
    cases r with
    | zero => exact hread.getElem? c
    | succ r => exact ih r

/-- Rows that are read to the width of the table make up what the text says. -/
theorem holds_of_reads {text : String} {t : Table}
    (hreads : List.Forall₂ Reads (remaining text) t.rows)
    (hwidth : ∀ row ∈ t.rows, row.length = t.width) : Holds t text := by
  have hentry : ∀ r < t.height, ∀ c < t.width, ∃ v, t.get? r c = some v := by
    intro r hr c hc
    obtain ⟨row, hrow⟩ : ∃ row, t.rows[r]? = some row := ⟨_, List.getElem?_eq_getElem hr⟩
    have hlength := hwidth row (List.mem_of_getElem? hrow)
    obtain ⟨v, hv⟩ : ∃ v, row[c]? = some v := ⟨_, List.getElem?_eq_getElem (by omega)⟩
    exact ⟨v, by rw [get?, hrow, Option.bind_some, hv]⟩
  refine ⟨hreads.length_eq.symm, fun line hmem => ?_, length_flatten_of_width hwidth,
    fun r hr c hc => ?_, fun c hc => ?_, fun c hc => ⟨⟨c, t.width⟩, ?_, rfl⟩⟩
  · obtain ⟨k, hk, rfl⟩ := List.getElem_of_mem hmem
    have hread := hreads.get hk (hreads.length_eq ▸ hk)
    exact hread.length_eq.trans (hwidth _ (List.getElem_mem _))
  · obtain ⟨v, hv⟩ := hentry r hr c hc
    exact ⟨v, (numberAt?_eq hreads r c).trans hv, hv,
      (getElem?_flatten_of_width hwidth hc r).trans hv⟩
  · obtain ⟨hlength, hget⟩ := column_of_width hwidth hc
    exact ⟨_, by rw [column, if_pos hc], hlength, fun r _ => hget r⟩
  · rw [column, if_neg (Nat.not_lt.mpr hc)]

/-- A line that offends keeps a text from being rectangular. -/
theorem not_isRectangular {text : String} {first line : ℕ × List Char}
    (hfirst : first ∈ remaining text) (hmem : line ∈ remaining text)
    (hline : Offends (separated first.2).length line) : ¬IsRectangular text := by
  intro h
  rcases hline with ⟨token, htoken, hbad⟩ | hlength
  · exact hbad (h.numerals line hmem token htoken)
  · exact hlength (h.width line hmem first hfirst)

theorem isRectangular_of_reads {text : String} {rows : List (List Float)} {width : ℕ}
    (hne : remaining text ≠ []) (hreads : List.Forall₂ Reads (remaining text) rows)
    (hwidth : ∀ row ∈ rows, row.length = width) : IsRectangular text := by
  have hread : ∀ line ∈ remaining text, ∃ row ∈ rows, Reads line row := by
    intro line hmem
    obtain ⟨k, hk, rfl⟩ := List.getElem_of_mem hmem
    exact ⟨_, List.getElem_mem (hreads.length_eq ▸ hk), hreads.get hk (hreads.length_eq ▸ hk)⟩
  have hlength : ∀ line ∈ remaining text, (separated line.2).length = width := by
    intro line hmem
    obtain ⟨row, hrow, hread⟩ := hread line hmem
    exact hread.length_eq.trans (hwidth row hrow)
  refine ⟨hne, fun line hmem => ?_, fun line hmem other hother => ?_⟩
  · obtain ⟨row, -, hread⟩ := hread line hmem
    exact hread.isNumeral
  · rw [hlength line hmem, hlength other hother]

/-- The message of a fault begins with the source and the line. -/
theorem Fault.message_eq {e : Fault} {number : ℕ} (h : e.line? = some number) (source : String) :
    ∃ rest, (e.failure source).message = source ++ ":" ++ naturalText number ++ ": " ++ rest := by
  cases e with
  | noRows => exact absurd h (by simp [Fault.line?])
  | badToken line token =>
    obtain rfl := Option.some.inj h
    have hcolon : ": could not parse `" = ": " ++ "could not parse `" := rfl
    refine ⟨"could not parse `" ++ (token ++ "` as a number"), ?_⟩
    rw [Fault.failure, Failure.data, hcolon]
    simp only [String.append_assoc]
  | ragged line expected found =>
    obtain rfl := Option.some.inj h
    have hcolon : ": expected " = ": " ++ "expected " := rfl
    refine ⟨"expected " ++ (naturalText expected ++ (" columns, found " ++ naturalText found)), ?_⟩
    rw [Fault.failure, Failure.data, hcolon]
    simp only [String.append_assoc]

/-- What parsing comes to: a table of the rows that are read, or a fault in the first line that
offends, or that no line remains. -/
theorem parse_cases (text : String) :
    (∃ t, parse text = .ok t ∧ IsRectangular text ∧ Holds t text) ∨
    ∃ e, parse text = .error e ∧ ¬IsRectangular text ∧ ∀ source,
      Blames (e.failure source) source text := by
  rw [parse]
  rcases readLines_none_outcome (numberedLines text) with ⟨hkept, hlines⟩ |
    ⟨first, others, hkept, houtcome⟩
  · rw [hlines]
    exact Or.inr ⟨.noRows, rfl, fun h => h.nonempty hkept, fun _ => ⟨rfl, Or.inl hkept⟩⟩
  · have hfirst : first ∈ remaining text := by
      rw [remaining, hkept]
      exact List.mem_cons_self
    rw [← remaining] at houtcome
    generalize readLines none (numberedLines text) = result at houtcome ⊢
    cases houtcome with
    | @rows rows hreads hwidth =>
      have hne : remaining text ≠ [] := List.ne_nil_of_mem hfirst
      cases rows with
      | nil => exact absurd (List.forall₂_nil_right_iff.mp hreads) hne
      | cons row rest =>
        refine Or.inl ⟨_, rfl, isRectangular_of_reads hne hreads hwidth, holds_of_reads hreads ?_⟩
        rw [hwidth row List.mem_cons_self]
        exact hwidth
    | @fault before after line e hsplit hbefore hline hnumber =>
      have hmem : line ∈ remaining text := by
        rw [hsplit]
        exact List.mem_append_right _ List.mem_cons_self
      refine Or.inr ⟨e, rfl, not_isRectangular hfirst hmem hline, fun source => ⟨?_, Or.inr ?_⟩⟩
      · cases e <;> rfl
      · obtain ⟨rest, hmessage⟩ := Fault.message_eq hnumber source
        exact ⟨first, before, line, after, rest, by rw [remaining, hkept]; rfl, hsplit, hbefore,
          hline, hmessage⟩

/-- **A text is a table if and only if it is rectangular.**  The table of a rectangular text has a
row for each line that remains and a column for each of its words, stores the numbers row by row,
and gives them out by row and column and by whole columns; any other text fails as bad data, and the
message begins with the line, counted in the text as it stands, where it stops to be rectangular,
unless no line remains. -/
theorem parse_rectangular (text source : String) :
    ((∃ t, parse text = .ok t) ↔ IsRectangular text) ∧
      (∀ t, parse text = .ok t → Holds t text) ∧
      ∀ e, parse text = .error e → Blames (e.failure source) source text := by
  rcases parse_cases text with ⟨t, hparse, hrectangular, hholds⟩ | ⟨e, hparse, hnot, hblames⟩
  · rw [hparse]
    refine ⟨⟨fun _ => hrectangular, fun _ => ⟨t, rfl⟩⟩, fun t' ht' => ?_, fun e he => (nomatch he)⟩
    obtain rfl := Except.ok.inj ht'
    exact hholds
  · rw [hparse]
    refine ⟨⟨fun ⟨t, ht⟩ => (nomatch ht), fun h => absurd h hnot⟩,
      fun t ht => (nomatch ht), fun e' he' => ?_⟩
    obtain rfl := Except.error.inj he'
    exact hblames source

/-- A comment, a blank line and a no-break space do not count, and a table of three rows and two
columns is left; of the other text the third line is too short, and it is named. -/
theorem parse_rectangular_commented :
    (∃ t, parse "# r n\n0.0 1.0\n\n0.5\u00a0-.2e1 # tail\r\n1.0\tnan\n" = .ok t ∧
      t.height = 3 ∧ t.width = 2 ∧ t.values.length = 6) ∧
    ∃ e rest, parse "1 2 3\n\n4 5\nx\n" = .error e ∧
      (e.failure "ragged.dat").message = "ragged.dat:3: " ++ rest := by
  constructor
  · have hlines : remaining "# r n\n0.0 1.0\n\n0.5\u00a0-.2e1 # tail\r\n1.0\tnan\n" =
        [(2, "0.0 1.0".toList), (4, "0.5\u00a0-.2e1 ".toList), (5, "1.0\tnan".toList)] := by
      decide +kernel
    obtain ⟨t, ht⟩ := (parse_rectangular _ "t.dat").1.mpr (by decide +kernel :
      IsRectangular "# r n\n0.0 1.0\n\n0.5\u00a0-.2e1 # tail\r\n1.0\tnan\n")
    have hholds := (parse_rectangular _ "t.dat").2.1 t ht
    have hheight := hholds.height
    have hwidth := hholds.width (2, "0.0 1.0".toList) (hlines ▸ List.mem_cons_self)
    rw [hlines] at hheight
    refine ⟨t, ht, hheight, hwidth.symm, ?_⟩
    rw [hholds.stored, hheight, ← hwidth]
    decide +kernel
  · have hlines : remaining "1 2 3\n\n4 5\nx\n" =
        [(1, "1 2 3".toList), (3, "4 5".toList), (4, "x".toList)] := by decide +kernel
    obtain ⟨hiff, -, hblames⟩ := parse_rectangular "1 2 3\n\n4 5\nx\n" "ragged.dat"
    cases hparse : parse "1 2 3\n\n4 5\nx\n" with
    | ok t => exact absurd (hiff.mp ⟨t, hparse⟩) (by decide +kernel)
    | error e =>
      rcases (hblames e hparse).place with hnone |
        ⟨first, before, line, after, rest, hfirst, hsplit, hbefore, hline, hmessage⟩
      · rw [hlines] at hnone
        exact absurd hnone (List.cons_ne_nil _ _)
      · refine ⟨e, rest, rfl, ?_⟩
        rw [hlines] at hfirst hsplit
        obtain rfl := Option.some.inj hfirst
        match before, hsplit with
        | [], hsplit =>
          obtain ⟨rfl, -⟩ := List.cons.inj hsplit
          exact absurd hline (by decide +kernel)
        | [_], hsplit =>
          obtain ⟨-, hsplit⟩ := List.cons.inj hsplit
          obtain ⟨rfl, -⟩ := List.cons.inj hsplit
          exact hmessage
        | _ :: other :: _, hsplit =>
          obtain ⟨-, hsplit⟩ := List.cons.inj hsplit
          obtain ⟨rfl, -⟩ := List.cons.inj hsplit
          exact absurd (hbefore _ (List.mem_cons_of_mem _ List.mem_cons_self)) (by decide +kernel)

end Table

end SphereLab
