import Mathlib
import SphereLab.DataFile.Header
import SphereLab.Proofs.Decimal.Numerals
import SphereLab.Proofs.Directory.Paths

/-!
# Headers that are written line by line

A number that is written under a key, on a line of its own, is read back under that key.

* `lines_unlines`: lines that are written with their endings are read back.
* `entryOnLine_entryLine`: a line with a key and a numeral is an entry.
* `parse_entryLines`: the header of a text with a line for each of some keys.
-/

namespace SphereLab

/-! ## Lines -/

/-- Lines with their endings. -/
def unlines (ls : List (List Char)) : List Char := ls.flatMap fun line => line ++ ['\n']

theorem splitAt_unlines (ls : List (List Char)) (h : ∀ line ∈ ls, '\n' ∉ line) :
    splitAt '\n' (unlines ls) = ls ++ [[]] := by
  induction ls with
  | nil => rfl
  | cons line rest ih =>
    have hcons : unlines (line :: rest) = line ++ '\n' :: unlines rest := by simp [unlines]
    rw [hcons, splitAt_append, splitAt_of_not_mem (h line List.mem_cons_self),
      ih fun other hmem => h other (List.mem_cons_of_mem _ hmem), List.singleton_append,
      List.cons_append]

theorem lines_unlines (ls : List (List Char)) (h : ∀ line ∈ ls, '\n' ∉ line ∧ '\r' ∉ line) :
    lines (unlines ls) = ls := by
  have hreturn : ∀ line ∈ ls, dropReturn line = line := by
    intro line hmem
    exact dropReturn_of_not_return fun hlast => (h line hmem).2 (List.mem_of_getLast? hlast)
  have hmap : ls.map dropReturn = ls := by
    rw [List.map_congr_left hreturn, List.map_id']
  rw [lines, splitAt_unlines ls fun line hmem => (h line hmem).1]
  simp [hmap]

/-! ## Entries -/

namespace Header

/-- A line with a key and a text. -/
def entryLine (key text : List Char) : List Char := '#' :: ' ' :: (key ++ ':' :: ' ' :: text)

theorem trimWhere_isMark_cons {c : Char} (hc : isMark c = true) (cs : List Char) :
    trimWhere isMark (c :: cs) = trimWhere isMark cs := by
  rw [trimWhere, List.dropWhile_cons_of_pos hc, trimWhere]

theorem isMark_of_isNumeralChar {c : Char} (h : isNumeralChar c = true) : isMark c = false := by
  by_contra hmark
  rw [Bool.not_eq_false, isMark, Bool.or_eq_true, Bool.or_eq_true, beq_iff_eq, beq_iff_eq,
    beq_iff_eq] at hmark
  rcases hmark with (rfl | rfl) | rfl
  · exact absurd h (by decide)
  · exact absurd h (by decide)
  · exact absurd h (by decide)

/-- A key as it stands on a line. -/
structure IsKey (key : List Char) : Prop where
  ne_nil : key ≠ []
  colon : ':' ∉ key
  line : '\n' ∉ key ∧ '\r' ∉ key
  head : ∀ c ∈ key.head?, isMark c = false
  last : ∀ c ∈ key.getLast?, isMark c = false

theorem isNumeralChar_of_readDouble? {text : List Char} {x : Float}
    (h : readDouble? text = some x) : ∀ c ∈ text, isNumeralChar c = true := by
  rw [readDouble?, Option.map_eq_some_iff] at h
  obtain ⟨numeral, hnumeral, _⟩ := h
  exact isNumeralChar_of_scan? (by rw [hnumeral, Option.isSome_some])

theorem entryLine_line {key text : List Char} (hkey : IsKey key) {x : Float}
    (hread : readDouble? text = some x) :
    '\n' ∉ entryLine key text ∧ '\r' ∉ entryLine key text := by
  have hchars := isNumeralChar_of_readDouble? hread
  have hfeed : '\n' ∉ text := fun hmem => absurd (hchars _ hmem) (by decide)
  have hreturn : '\r' ∉ text := fun hmem => absurd (hchars _ hmem) (by decide)
  simp [entryLine, hkey.line, hfeed, hreturn]

/-- What is written under a key is read back. -/
theorem entryOnLine_entryLine {key text : List Char} (hkey : IsKey key) {x : Float}
    (hread : readDouble? text = some x) :
    entryOnLine (entryLine key text) = some (String.ofList key, .number x) := by
  have hchars := isNumeralChar_of_readDouble? hread
  have hbefore : ':' ∉ '#' :: ' ' :: key := by simp [hkey.colon]
  have hsplit : splitFirst ':' (entryLine key text) =
      ('#' :: ' ' :: key, some (' ' :: text)) := splitFirst_append hbefore
  have hkey' : trimWhere isMark ('#' :: ' ' :: key) = key := by
    rw [trimWhere_isMark_cons (by decide), trimWhere_isMark_cons (by decide),
      trimWhere_of_ends hkey.head hkey.last]
  have htext : trimWhere isMark (' ' :: text) = text := by
    rw [trimWhere_isMark_cons (by decide), trimWhere_of_ends]
    · exact fun c hc => isMark_of_isNumeralChar (hchars c (List.mem_of_mem_head? hc))
    · exact fun c hc => isMark_of_isNumeralChar (hchars c (List.mem_of_getLast? hc))
  have hempty : key.isEmpty = false := by simpa using hkey.ne_nil
  have hline : entryLine key text = '#' :: (' ' :: key ++ ':' :: ' ' :: text) := rfl
  rw [hline] at hsplit
  rw [hline, entryOnLine]
  simp only [hsplit, hkey', htext, hempty, HeaderValue.parse, hread]
  rfl

/-- The header of a text with a line for each of some keys. -/
theorem parse_entryLines (entries : List (List Char × List Char × Float))
    (hentries : ∀ entry ∈ entries, IsKey entry.1 ∧ readDouble? entry.2.1 = some entry.2.2) :
    parse (String.ofList (unlines (entries.map fun entry => entryLine entry.1 entry.2.1))) =
      (entries.map fun entry => (String.ofList entry.1, HeaderValue.number entry.2.2)).foldl
        put ⟨[]⟩ := by
  have hlines := lines_unlines (entries.map fun entry => entryLine entry.1 entry.2.1) (by
    intro line hmem
    obtain ⟨entry, hentry, rfl⟩ := List.mem_map.mp hmem
    exact entryLine_line (hentries entry hentry).1 (hentries entry hentry).2)
  have hfilter : (entries.map fun entry => entryLine entry.1 entry.2.1).filterMap entryOnLine =
      entries.map fun entry => (String.ofList entry.1, HeaderValue.number entry.2.2) := by
    rw [List.filterMap_map, ← List.filterMap_eq_map]
    refine List.filterMap_congr fun entry hentry => ?_
    exact entryOnLine_entryLine (hentries entry hentry).1 (hentries entry hentry).2
  rw [parse, ofLines, String.toList_ofList, hlines, hfilter]

end Header

end SphereLab
