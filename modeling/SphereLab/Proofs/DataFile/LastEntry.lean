import Mathlib
import SphereLab.Proofs.DataFile.Header
import SphereLab.Proofs.Decimal.Grammar

/-!
# The last entry of a key

What a header has for a key is what the last line with an entry of that key says, and lines without
an entry say nothing.  An entry is told without reading it: its line begins with a mark and is cut
at the first colon, and key and value are what is left of the two parts when blanks, tabs and marks
are taken away at their ends.  So keys that differ in marks are one key, and a value may have more
colons.

* `IsEntry`, `entryOnLine_eq_some_iff`: the entry of a line.
* `Denotes`, `denotes_iff`: what a value is.
* `get?_ofLines`, `size_ofLines`: a header is what its lines say, from the last line on.
* `parse_last_entry_counts`: headers by their entries, and the headers of longer texts.
-/

namespace SphereLab

/-! ## Values -/

theorem mapM_eq_some_iff {β γ : Type} {f : β → Option γ} {xs : List β} {ys : List γ} :
    xs.mapM f = some ys ↔ List.Forall₂ (fun x y => f x = some y) xs ys := by
  induction xs generalizing ys with
  | nil => simp [eq_comm]
  | cons x xs ih =>
    rw [List.mapM_cons]
    simp only [Option.bind_eq_bind, Option.bind_eq_some_iff, ih, List.forall₂_cons_left_iff]
    constructor
    · rintro ⟨y, hy, zs, hzs, h⟩
      exact ⟨y, zs, hy, hzs, (Option.some.inj h).symm⟩
    · rintro ⟨y, zs, hy, hzs, rfl⟩
      exact ⟨y, hy, zs, hzs, rfl⟩

namespace HeaderValue

open Numeral

/-- A text in parentheses is a list of parts: what is not blank between its commas, trimmed. -/
def IsListOf (value : List Char) (parts : List (List Char)) : Prop :=
  ∃ raw trimmed : List (List Char), raw ≠ [] ∧ (∀ piece ∈ raw, ',' ∉ piece) ∧
    value = '(' :: (joinWith [','] raw ++ [')']) ∧ List.Forall₂ (IsTrimmed isBlank) raw trimmed ∧
    parts = trimmed.filter (!·.isEmpty)

/-- What a value is: a number if it is a numeral, else a tuple if it is a list of numerals in
parentheses, and else a text. -/
inductive Denotes (value : List Char) : HeaderValue → Prop where
  | number {x : Float} (hnumeral : IsNumeral value) (hread : readDouble? value = some x) :
      Denotes value (.number x)
  | tuple {parts : List (List Char)} {xs : List Float} (hnot : ¬IsNumeral value)
      (hlist : IsListOf value parts) (hparts : ∀ part ∈ parts, IsNumeral part)
      (hread : List.Forall₂ (fun part x => readDouble? part = some x) parts xs) :
      Denotes value (.tuple xs)
  | text (hnot : ¬IsNumeral value)
      (hlists : ∀ parts, IsListOf value parts → ∃ part ∈ parts, ¬IsNumeral part) :
      Denotes value (.text (String.ofList value))

theorem inside?_eq_some_iff {value inner : List Char} :
    inside? value = some inner ↔ value = '(' :: (inner ++ [')']) := by
  constructor
  · intro h
    unfold inside? at h
    split at h
    · rename_i rest
      split at h
      · rename_i hlast
        rw [← Option.some.inj h, List.dropLast_append_getLast? _ hlast]
      · exact absurd h (by simp)
    · exact absurd h (by simp)
  · rintro rfl
    simp [inside?]

theorem isListOf_iff {value : List Char} {parts : List (List Char)} :
    IsListOf value parts ↔ (inside? value).map members = some parts := by
  have htrim : ∀ raw trimmed : List (List Char),
      List.Forall₂ (IsTrimmed isBlank) raw trimmed ↔ raw.map trimBlank = trimmed := by
    intro raw trimmed
    rw [← List.forall₂_eq_eq_eq, List.forall₂_map_left_iff]
    exact ⟨fun h => h.imp fun _ _ => isTrimmed_iff.mp, fun h => h.imp fun _ _ => isTrimmed_iff.mpr⟩
  rw [Option.map_eq_some_iff]
  constructor
  · rintro ⟨raw, trimmed, hne, hcomma, hvalue, htrimmed, rfl⟩
    refine ⟨joinWith [','] raw, inside?_eq_some_iff.mpr hvalue, ?_⟩
    rw [members, splitAt_eq_iff.mpr ⟨hne, hcomma, rfl⟩, (htrim _ _).mp htrimmed]
  · rintro ⟨inner, hinner, rfl⟩
    obtain ⟨hne, hcomma, hjoin⟩ := splitAt_eq_iff.mp (rfl : splitAt ',' inner = _)
    exact ⟨_, _, hne, hcomma, hjoin ▸ inside?_eq_some_iff.mp hinner, (htrim _ _).mpr rfl, rfl⟩

theorem isNumeral_iff {value : List Char} : IsNumeral value ↔ ∃ x, readDouble? value = some x := by
  rw [← isSome_readDouble?_iff, Option.isSome_iff_exists]

/-- All members of a list are read if all of them are numerals. -/
theorem forall_isNumeral_iff {parts : List (List Char)} :
    (∀ part ∈ parts, IsNumeral part) ↔ ∃ xs, parts.mapM readDouble? = some xs := by
  simp only [mapM_eq_some_iff]
  induction parts with
  | nil => simp
  | cons part parts ih =>
    rw [List.forall_mem_cons, ih, isNumeral_iff]
    simp only [List.forall₂_cons_left_iff]
    constructor
    · rintro ⟨⟨x, hx⟩, xs, hxs⟩
      exact ⟨x :: xs, x, xs, hx, hxs, rfl⟩
    · rintro ⟨_, x, xs, hx, hxs, -⟩
      exact ⟨⟨x, hx⟩, xs, hxs⟩

/-- What is not a numeral is a tuple or a text. -/
theorem parse_of_not_isNumeral {value : List Char} (h : ¬IsNumeral value) :
    parse value =
      match ((inside? value).map members).bind fun parts => parts.mapM readDouble? with
      | some xs => .tuple xs
      | none => .text (String.ofList value) := by
  have hread : readDouble? value = none :=
    Option.eq_none_iff_forall_not_mem.mpr fun x hx => h (isNumeral_iff.mpr ⟨x, hx⟩)
  rw [parse, hread, Option.bind_map]
  rfl

theorem parse_of_denotes {value : List Char} {v : HeaderValue} (h : Denotes value v) :
    parse value = v := by
  cases h with
  | number hnumeral hread => rw [parse, hread]
  | tuple hnot hlist hparts hread =>
    rw [parse_of_not_isNumeral hnot, isListOf_iff.mp hlist, Option.bind_some,
      mapM_eq_some_iff.mpr hread]
  | text hnot hlists =>
    rw [parse_of_not_isNumeral hnot]
    cases hmembers : (inside? value).map members with
    | none => rfl
    | some parts =>
      obtain ⟨part, hpart, hbad⟩ := hlists parts (isListOf_iff.mpr hmembers)
      rw [Option.bind_some]
      cases hxs : parts.mapM readDouble? with
      | none => rfl
      | some xs => exact absurd (forall_isNumeral_iff.mpr ⟨xs, hxs⟩ part hpart) hbad

theorem denotes_parse (value : List Char) : Denotes value (parse value) := by
  by_cases hnumeral : IsNumeral value
  · obtain ⟨x, hread⟩ := isNumeral_iff.mp hnumeral
    rw [parse, hread]
    exact .number hnumeral hread
  · rw [parse_of_not_isNumeral hnumeral]
    split
    · rename_i xs hxs
      obtain ⟨parts, hparts, hread⟩ := Option.bind_eq_some_iff.mp hxs
      exact .tuple hnumeral (isListOf_iff.mpr hparts) (forall_isNumeral_iff.mpr ⟨xs, hread⟩)
        (mapM_eq_some_iff.mp hread)
    · rename_i hnone
      refine .text hnumeral fun parts hlist => ?_
      rw [isListOf_iff.mp hlist, Option.bind_some] at hnone
      by_contra hall
      push Not at hall
      obtain ⟨xs, hxs⟩ := forall_isNumeral_iff.mp hall
      exact absurd (hnone.symm.trans hxs) (by simp)

theorem denotes_iff {value : List Char} {v : HeaderValue} : Denotes value v ↔ parse value = v :=
  ⟨parse_of_denotes, fun h => h ▸ denotes_parse value⟩

end HeaderValue

namespace Header

/-! ## Entries -/

/-- A line with a key and a value. -/
structure IsEntry (line key value : List Char) : Prop where
  comment : line.head? = some '#'
  cut : ∃ before behind, line = before ++ ':' :: behind ∧ ':' ∉ before ∧
    IsTrimmed isMark before key ∧ IsTrimmed isMark behind value
  key_ne_nil : key ≠ []

theorem entryOnLine_eq_some_iff {line : List Char} {key : String} {v : HeaderValue} :
    entryOnLine line = some (key, v) ↔
      ∃ value, IsEntry line key.toList value ∧ HeaderValue.Denotes value v := by
  constructor
  · intro h
    unfold entryOnLine at h
    split at h
    · rename_i rest
      rcases splitFirst_cases ':' ('#' :: rest) with ⟨hsplit, -⟩ |
        ⟨before, behind, hsplit, hline, hcolon⟩
      · exact absurd h (by simp [hsplit])
      · rw [hsplit] at h
        dsimp only at h
        split at h
        · exact absurd h (by simp)
        · rename_i hkey
          obtain ⟨rfl, rfl⟩ := Prod.mk.inj (Option.some.inj h)
          rw [String.toList_ofList]
          exact ⟨_, ⟨rfl, ⟨before, behind, hline, hcolon, isTrimmed_iff.mpr rfl,
            isTrimmed_iff.mpr rfl⟩, by simpa using hkey⟩, HeaderValue.denotes_parse _⟩
    · exact absurd h (by simp)
  · rintro ⟨value, ⟨hcomment, ⟨before, behind, hline, hcolon, hkey, hvalue⟩, hne⟩, hdenotes⟩
    obtain ⟨rest, hrest⟩ := List.head?_eq_some_iff.mp hcomment
    have hsplit : splitFirst ':' ('#' :: rest) = (before, some behind) := by
      rw [← hrest, hline, splitFirst_append hcolon]
    rw [hrest, entryOnLine, hsplit]
    dsimp only
    rw [isTrimmed_iff.mp hkey, isTrimmed_iff.mp hvalue, HeaderValue.denotes_iff.mp hdenotes,
      String.ofList_toList, if_neg (by simpa using hne)]

/-- A line that says something. -/
def Speaks (line : List Char) : Prop := ∃ key value, IsEntry line key value

theorem speaks_iff {line : List Char} : Speaks line ↔ (entryOnLine line).isSome = true := by
  rw [Option.isSome_iff_exists]
  constructor
  · rintro ⟨key, value, hentry⟩
    rw [← String.toList_ofList (l := key)] at hentry
    exact ⟨_, entryOnLine_eq_some_iff.mpr ⟨value, hentry, HeaderValue.denotes_parse value⟩⟩
  · rintro ⟨⟨key, v⟩, hentry⟩
    obtain ⟨value, hvalue, -⟩ := entryOnLine_eq_some_iff.mp hentry
    exact ⟨key.toList, value, hvalue⟩

instance : DecidablePred Speaks := fun _ => decidable_of_iff _ speaks_iff.symm

/-- What a line says about a key. -/
def valueOnLine (key : String) (line : List Char) : Option HeaderValue :=
  (entryOnLine line).bind fun entry => if entry.1 = key then some entry.2 else none

variable {line : List Char} {key : String} {v : HeaderValue}

theorem valueOnLine_eq_some_iff : valueOnLine key line = some v ↔
    ∃ value, IsEntry line key.toList value ∧ HeaderValue.Denotes value v := by
  rw [valueOnLine, Option.bind_eq_some_iff, ← entryOnLine_eq_some_iff]
  constructor
  · rintro ⟨⟨key', v'⟩, hentry, h⟩
    dsimp only at h
    obtain ⟨rfl, hvalue⟩ := Option.ite_none_right_eq_some.mp h
    rw [hentry, ← Option.some.inj hvalue]
  · exact fun h => ⟨(key, v), h, if_pos rfl⟩

theorem valueOnLine_eq_none_iff :
    valueOnLine key line = none ↔ ∀ value, ¬IsEntry line key.toList value := by
  rw [Option.eq_none_iff_forall_ne_some]
  constructor
  · exact fun h value hentry =>
      h _ (valueOnLine_eq_some_iff.mpr ⟨value, hentry, HeaderValue.denotes_parse value⟩)
  · intro h v hv
    obtain ⟨value, hentry, -⟩ := valueOnLine_eq_some_iff.mp hv
    exact h value hentry

/-! ## Headers of lines -/

theorem get?_put (h : Header) (entry : String × HeaderValue) (key : String) :
    (h.put entry).get? key = if entry.1 = key then some entry.2 else h.get? key := by
  rw [get?, put, List.lookup_cons]
  by_cases hkey : entry.1 = key
  · rw [if_pos hkey, hkey, beq_self_eq_true]
  · rw [if_neg hkey, beq_eq_false_iff_ne.mpr (Ne.symm hkey),
      Directory.lookup_filter_ne (Ne.symm hkey), get?]

theorem ofLines_concat (ls : List (List Char)) (line : List Char) :
    ofLines (ls ++ [line]) =
      match entryOnLine line with
      | some entry => (ofLines ls).put entry
      | none => ofLines ls := by
  rw [ofLines, List.filterMap_append, List.foldl_append, ← ofLines]
  cases hentry : entryOnLine line with
  | none => rw [List.filterMap_cons_none hentry]; rfl
  | some entry => rw [List.filterMap_cons_some hentry]; rfl

/-- The last line that says something about a key decides. -/
theorem get?_ofLines (ls : List (List Char)) (key : String) :
    (ofLines ls).get? key = ls.reverse.findSome? (valueOnLine key) := by
  -- Lines are read from the first on, so what was put in last is found on the last line.
  induction ls using List.reverseRecOn with
  | nil => rfl
  | append_singleton ls line ih =>
    rw [List.reverse_concat, List.findSome?_cons, ofLines_concat, valueOnLine]
    cases entryOnLine line with
    | none => exact ih
    | some entry =>
      rw [get?_put, ih, Option.bind_some]
      split
      · rfl
      · rfl

/-- The last entry of a key among lines has a value. -/
def IsLastEntry (ls : List (List Char)) (key value : List Char) : Prop :=
  ∃ before line after, ls = before ++ line :: after ∧ IsEntry line key value ∧
    ∀ later ∈ after, ∀ other, ¬IsEntry later key other

theorem get?_eq_some_iff {ls : List (List Char)} : (ofLines ls).get? key = some v ↔
    ∃ value, IsLastEntry ls key.toList value ∧ HeaderValue.Denotes value v := by
  rw [get?_ofLines, List.findSome?_eq_some_iff]
  constructor
  · rintro ⟨after, line, before, hreverse, hline, hafter⟩
    obtain ⟨value, hentry, hdenotes⟩ := valueOnLine_eq_some_iff.mp hline
    refine ⟨value, ⟨before.reverse, line, after.reverse, ?_, hentry, fun later hlater => ?_⟩,
      hdenotes⟩
    · rw [← List.reverse_reverse ls, hreverse]
      simp
    · exact valueOnLine_eq_none_iff.mp (hafter later (List.mem_reverse.mp hlater))
  · rintro ⟨value, ⟨before, line, after, rfl, hentry, hafter⟩, hdenotes⟩
    refine ⟨after.reverse, line, before.reverse, by simp,
      valueOnLine_eq_some_iff.mpr ⟨value, hentry, hdenotes⟩, fun later hlater => ?_⟩
    exact valueOnLine_eq_none_iff.mpr (hafter later (List.mem_reverse.mp hlater))

theorem get?_eq_none_iff {ls : List (List Char)} : (ofLines ls).get? key = none ↔
    ∀ line ∈ ls, ∀ value, ¬IsEntry line key.toList value := by
  rw [get?_ofLines, List.findSome?_eq_none_iff]
  simp only [List.mem_reverse, valueOnLine_eq_none_iff]

/-! ## Keys -/

theorem nodup_keys (ls : List (List Char)) : ((ofLines ls).entries.map Prod.fst).Nodup := by
  induction ls using List.reverseRecOn with
  | nil => exact List.nodup_nil
  | append_singleton ls line ih =>
    rw [ofLines_concat]
    split
    · rename_i entry _
      rw [put, List.map_cons, List.nodup_cons]
      refine ⟨?_, ih.sublist (List.filter_sublist.map _)⟩
      intro hmem
      obtain ⟨kept, hkept, hkey⟩ := List.mem_map.mp hmem
      exact absurd hkey (by simpa using (List.mem_filter.mp hkept).2)
    · exact ih

theorem mem_keys_iff {h : Header} : key ∈ h.entries.map Prod.fst ↔ h.get? key ≠ none := by
  rw [get?, Option.ne_none_iff_isSome, List.lookup_isSome_iff, List.mem_map]
  refine exists_congr fun kept => and_congr_right fun _ => ?_
  rw [beq_iff_eq, eq_comm]

/-- A header has as many entries as its lines have keys. -/
theorem size_ofLines (ls : List (List Char)) : (ofLines ls).size =
    {key : String | ∃ line ∈ ls, ∃ value, IsEntry line key.toList value}.ncard := by
  have hkeys : {key : String | ∃ line ∈ ls, ∃ value, IsEntry line key.toList value} =
      ((ofLines ls).entries.map Prod.fst).toFinset := by
    ext key
    rw [Finset.mem_coe, List.mem_toFinset, mem_keys_iff, ne_eq, get?_eq_none_iff]
    push Not
    rfl
  rw [hkeys, Set.ncard_coe_finset, List.toFinset_card_of_nodup (nodup_keys ls), List.length_map,
    size]

/-! ## Lines that say nothing -/

/-- Only the lines that say something count. -/
theorem ofLines_filter (ls : List (List Char)) :
    ofLines (ls.filter fun line => decide (Speaks line)) = ofLines ls := by
  have hentries : (ls.filter fun line => decide (Speaks line)).filterMap entryOnLine =
      ls.filterMap entryOnLine := by
    rw [List.filterMap_filter]
    refine List.filterMap_congr fun line _ => ?_
    by_cases hspeaks : Speaks line
    · rw [if_pos (decide_eq_true hspeaks)]
    · rw [if_neg (by simpa using hspeaks)]
      rw [speaks_iff, Option.not_isSome_iff_eq_none] at hspeaks
      exact hspeaks.symm
  rw [ofLines, hentries, ofLines]

theorem not_speaks_of_data {line : List Char} (h : line.head? ≠ some '#' ∨ ':' ∉ line) :
    ¬Speaks line := by
  rintro ⟨key, value, hcomment, ⟨before, behind, rfl, -⟩, -⟩
  rcases h with hdata | hcolon
  · exact hdata hcomment
  · exact hcolon (by simp)

/-- A line says nothing without its carriage return if it says nothing with it. -/
theorem not_speaks_dropReturn {line : List Char} (h : ¬Speaks line) :
    ¬Speaks (dropReturn line) := by
  rintro ⟨key, value, hcomment, ⟨before, behind, hline, hcolon, hkey, hvalue⟩, hne⟩
  -- The return stands behind the colon, where it changes the value at most.
  obtain ⟨ending, hending, -⟩ := exists_eq_dropReturn_append line
  refine h ⟨key, _, ?_, ⟨before, behind ++ ending, ?_, hcolon, hkey, isTrimmed_iff.mpr rfl⟩, hne⟩
  · rw [hending, List.head?_append, hcomment]
    rfl
  · rw [hending, hline]
    simp

/-- A line that says nothing has no effect, wherever it stands. -/
theorem ofLines_skip (before after : List (List Char)) {line : List Char} (h : ¬Speaks line) :
    ofLines (before ++ line :: after) = ofLines (before ++ after) := by
  rw [← ofLines_filter, ← ofLines_filter (before ++ after), List.filter_append,
    List.filter_cons_of_neg (by simpa using h), List.filter_append]

/-! ## Texts -/

theorem toList_append_line (a b : String) :
    (a ++ "\n" ++ b).toList = a.toList ++ '\n' :: b.toList := by
  simp [String.toList_append]

theorem not_speaks_nil : ¬Speaks [] := not_speaks_of_data (Or.inl (by simp))

/-- A text that does not end with a carriage return is read in front of a line feed as it is read on
its own. -/
theorem ofLines_map_dropReturn {a : String} (h : a.toList.getLast? ≠ some '\r') :
    ofLines ((splitAt '\n' a.toList).map dropReturn) = parse a := by
  rw [parse]
  rcases map_dropReturn_splitAt h with heq | heq
  · rw [heq]
  · rw [heq, ofLines_skip _ [] not_speaks_nil, List.append_nil]

/-- The entries of a later text come before those of an earlier one. -/
theorem get?_parse_append {a : String} (ha : a.toList.getLast? ≠ some '\r') (b : String) :
    (parse (a ++ "\n" ++ b)).get? key = ((parse b).get? key).or ((parse a).get? key) := by
  rw [← ofLines_map_dropReturn ha, parse, parse, toList_append_line, lines_append, get?_ofLines,
    get?_ofLines, get?_ofLines, List.reverse_append, List.findSome?_append]

/-- A line without an entry has no effect in front of a text, between two texts and behind one. -/
theorem parse_skip {line : String} (hfeed : '\n' ∉ line.toList) (hline : ¬Speaks line.toList)
    (a b : String) :
    parse (line ++ "\n" ++ b) = parse b ∧
      parse (a ++ "\n" ++ (line ++ "\n" ++ b)) = parse (a ++ "\n" ++ b) ∧
      (a.toList.getLast? ≠ some '\r' → parse (a ++ "\n" ++ line) = parse a) := by
  have hfront : ∀ ls, ofLines (ls ++ lines (line ++ "\n" ++ b).toList) =
      ofLines (ls ++ lines b.toList) := by
    intro ls
    rw [toList_append_line, lines_append, splitAt_of_not_mem hfeed, List.map_singleton,
      List.singleton_append, ofLines_skip _ _ (not_speaks_dropReturn hline)]
  refine ⟨hfront [], ?_, fun ha => ?_⟩
  · rw [parse, parse, toList_append_line a, toList_append_line a, lines_append, lines_append,
      hfront]
  · rw [← ofLines_map_dropReturn ha, parse, toList_append_line, lines_append]
    rcases lines_of_not_mem hfeed with hempty | hone
    · rw [hempty, List.append_nil]
    · rw [hone, ofLines_skip _ [] hline, List.append_nil]

/-- **What counts is the last entry of a key.**  A header has for a key what the last line with an
entry of it says, nothing if there is none, and as many keys as there are in the lines.  Behind a
text that does not end with a carriage return a line feed and another text follow: where the second
has a key it decides, and the first where it has not.  Lines without an entry, such as data and
remarks without a colon, say nothing: texts with the same other lines have the same header. -/
theorem parse_last_entry_counts :
    (∀ text key v, (parse text).get? key = some v ↔
      ∃ value, IsLastEntry (lines text.toList) key.toList value ∧ HeaderValue.Denotes value v) ∧
    (∀ text key, (parse text).get? key = none ↔
      ∀ line ∈ lines text.toList, ∀ value, ¬IsEntry line key.toList value) ∧
    (∀ text, (parse text).size =
      {key : String | ∃ line ∈ lines text.toList, ∃ value, IsEntry line key.toList value}.ncard) ∧
    (∀ a b : String, a.toList.getLast? ≠ some '\r' → ∀ key,
      (parse (a ++ "\n" ++ b)).get? key = ((parse b).get? key).or ((parse a).get? key)) ∧
    (∀ text text' : String,
      (lines text.toList).filter (fun line => decide (Speaks line)) =
        (lines text'.toList).filter (fun line => decide (Speaks line)) →
      parse text = parse text') ∧
    (∀ line : List Char, line.head? ≠ some '#' ∨ ':' ∉ line → ¬Speaks line) ∧
    ∀ line : String, '\n' ∉ line.toList → ¬Speaks line.toList → ∀ a b : String,
      parse (line ++ "\n" ++ b) = parse b ∧
        parse (a ++ "\n" ++ (line ++ "\n" ++ b)) = parse (a ++ "\n" ++ b) ∧
        (a.toList.getLast? ≠ some '\r' → parse (a ++ "\n" ++ line) = parse a) := by
  refine ⟨fun text key v => get?_eq_some_iff, fun text key => get?_eq_none_iff,
    fun text => size_ofLines _, fun a b ha key => get?_parse_append ha b, fun text text' h => ?_,
    fun line h => not_speaks_of_data h, fun line hfeed hline a b => parse_skip hfeed hline a b⟩
  rw [parse, parse, ← ofLines_filter, h, ofLines_filter]

/-- Totals that are written again, with other marks around their key and another ending, count from
then on, also where the two texts are one behind the other; a remark has no effect. -/
theorem parse_last_entry_counts_restarted :
    (parse "# total: 3\n1 2\n#\ttotal# : 4\r\n# at: 12:30:01\n").get? "total" =
      some (.number 4.0) ∧
    (parse ("# total: 3\n1 2" ++ "\n" ++ "#total:4")).get? "total" =
      ((parse "#total:4").get? "total").or ((parse "# total: 3\n1 2").get? "total") ∧
    parse ("# total: 3" ++ "\n" ++ "# a remark") = parse "# total: 3" := by
  obtain ⟨hsome, -, -, happend, -, hdata, hskip⟩ := parse_last_entry_counts
  refine ⟨(hsome _ _ _).mpr ⟨"4".toList, ⟨["# total: 3".toList, "1 2".toList],
    "#\ttotal# : 4".toList, ["# at: 12:30:01".toList], by decide +kernel, ?_, ?_⟩, ?_⟩, ?_, ?_⟩
  · exact ⟨rfl, ⟨"#\ttotal# ".toList, " 4".toList, rfl, by decide, isTrimmed_iff.mpr (by decide),
      isTrimmed_iff.mpr (by decide)⟩, by decide⟩
  · intro later hlater
    rw [List.mem_singleton.mp hlater]
    exact valueOnLine_eq_none_iff.mp (Option.isNone_iff_eq_none.mp (by decide +kernel))
  · have hread : readDouble? "4".toList = some 4.0 := by decide +kernel
    exact .number (HeaderValue.isNumeral_iff.mpr ⟨_, hread⟩) hread
  · exact happend _ _ (by decide) _
  · exact (hskip "# a remark" (by decide) (hdata _ (Or.inr (by decide))) "# total: 3" "").2.2
      (by decide)

end Header

end SphereLab
