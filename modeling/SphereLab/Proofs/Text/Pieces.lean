import Mathlib
import SphereLab.Text.Blank

/-!
# Texts and their pieces

A text is cut in three ways: at every separator, at the first one, and at its ends, where the
characters of a class are taken away.  Each way is said here without cutting: the pieces between
separators are what the text is joined from, and a trimmed text is what stands between two runs of
the class and neither begins nor ends with it.

Lines are pieces, but for two things.  What follows the last line feed is a line only if it is not
empty, and it keeps a carriage return.  So the lines of two texts with a line feed between them are
those of the one and then those of the other, except that the first may have one more that is empty,
and only if it does not end with a carriage return.

* `splitAt_eq_iff`: the pieces between separators.
* `splitFirst_cases`: the parts before and behind the first separator.
* `isTrimmed_iff`: a text without the characters of a class at its ends.
* `lines_append`, `map_dropReturn_splitAt`: the lines of two texts.
-/

namespace SphereLab

variable {sep : Char} {cs : List Char}

/-! ## Pieces between separators -/

theorem splitAt_of_not_mem (h : sep ∉ cs) : splitAt sep cs = [cs] := by
  induction cs with
  | nil => rfl
  | cons c rest ih =>
    rw [List.mem_cons, not_or] at h
    rw [splitAt, if_neg (Ne.symm h.1), ih h.2]

theorem splitAt_append (sep : Char) (xs ys : List Char) :
    splitAt sep (xs ++ sep :: ys) = splitAt sep xs ++ splitAt sep ys := by
  induction xs with
  | nil => simp [splitAt]
  | cons c rest ih =>
    rw [List.cons_append, splitAt, splitAt, ih]
    split
    · rw [List.cons_append]
    · cases h : splitAt sep rest with
      | nil => exact absurd h (splitAt_ne_nil sep rest)
      | cons piece pieces => simp

theorem joinWith_cons {piece : List Char} {pieces : List (List Char)} (hne : pieces ≠ []) :
    joinWith [sep] (piece :: pieces) = piece ++ sep :: joinWith [sep] pieces := by
  cases pieces with
  | nil => exact absurd rfl hne
  | cons next rest => simp [joinWith]

theorem joinWith_splitAt (sep : Char) (cs : List Char) : joinWith [sep] (splitAt sep cs) = cs := by
  induction cs with
  | nil => rfl
  | cons c rest ih =>
    rw [splitAt]
    split
    · rename_i hc
      rw [joinWith_cons (splitAt_ne_nil sep rest), ih, hc, List.nil_append]
    · cases hpieces : splitAt sep rest with
      | nil => exact absurd hpieces (splitAt_ne_nil sep rest)
      | cons piece pieces =>
        rw [hpieces] at ih
        show joinWith [sep] ((c :: piece) :: pieces) = c :: rest
        rw [← ih]
        cases pieces <;> simp [joinWith]

theorem not_mem_of_mem_splitAt {piece : List Char} (h : piece ∈ splitAt sep cs) : sep ∉ piece := by
  induction cs generalizing piece with
  | nil => simp_all [splitAt]
  | cons c rest ih =>
    rw [splitAt] at h
    split at h
    · rcases List.mem_cons.mp h with rfl | hmem
      · exact List.not_mem_nil
      · exact ih hmem
    · rename_i hc
      cases hpieces : splitAt sep rest with
      | nil => exact absurd hpieces (splitAt_ne_nil sep rest)
      | cons first pieces =>
        rw [hpieces] at h ih
        rcases List.mem_cons.mp h with rfl | hmem
        · rw [List.mem_cons, not_or]
          exact ⟨Ne.symm hc, ih List.mem_cons_self⟩
        · exact ih (List.mem_cons_of_mem _ hmem)

/-- The pieces of a text are those without a separator that it is joined from. -/
theorem splitAt_eq_iff {pieces : List (List Char)} :
    splitAt sep cs = pieces ↔
      pieces ≠ [] ∧ (∀ piece ∈ pieces, sep ∉ piece) ∧ cs = joinWith [sep] pieces := by
  constructor
  · rintro rfl
    exact ⟨splitAt_ne_nil sep cs, fun _ => not_mem_of_mem_splitAt, (joinWith_splitAt sep cs).symm⟩
  · rintro ⟨hne, hnot, rfl⟩
    induction pieces with
    | nil => exact absurd rfl hne
    | cons piece rest ih =>
      have hpiece : sep ∉ piece := hnot piece List.mem_cons_self
      by_cases hrest : rest = []
      · subst hrest
        rw [joinWith, List.intersperse_singleton, List.flatten_singleton,
          splitAt_of_not_mem hpiece]
      · rw [joinWith_cons hrest, splitAt_append, splitAt_of_not_mem hpiece,
          ih hrest fun other hmem => hnot other (List.mem_cons_of_mem _ hmem),
          List.singleton_append]

/-- The last piece is what stands behind the last separator. -/
theorem exists_last_piece (sep : Char) (cs : List Char) :
    ∃ pieces last, splitAt sep cs = pieces ++ [last] ∧ last <:+ cs := by
  by_cases h : sep ∈ cs
  · obtain ⟨behind, front, hcs, hbehind⟩ :=
      List.eq_append_cons_of_mem (List.mem_reverse.mpr h)
    obtain rfl : cs = front.reverse ++ sep :: behind.reverse := by
      rw [← List.reverse_reverse cs, hcs]
      simp
    refine ⟨splitAt sep front.reverse, behind.reverse, ?_, ⟨front.reverse ++ [sep], by simp⟩⟩
    have hlast : sep ∉ behind.reverse := by rwa [List.mem_reverse]
    rw [splitAt_append, splitAt_of_not_mem hlast]
  · exact ⟨[], cs, splitAt_of_not_mem h, List.suffix_refl cs⟩

/-! ## The first separator -/

/-- A text is cut at the first separator, or has none. -/
theorem splitFirst_cases (sep : Char) (cs : List Char) :
    (splitFirst sep cs = (cs, none) ∧ sep ∉ cs) ∨
      ∃ before behind, splitFirst sep cs = (before, some behind) ∧
        cs = before ++ sep :: behind ∧ sep ∉ before := by
  have hbefore : sep ∉ cs.takeWhile (· != sep) := by
    intro hmem
    simpa using List.mem_takeWhile_imp hmem
  have hcut := List.takeWhile_append_dropWhile (p := (· != sep)) (l := cs)
  rw [splitFirst]
  split
  · rename_i hdrop
    rw [hdrop, List.append_nil] at hcut
    rw [hcut] at hbefore
    exact Or.inl ⟨rfl, hbefore⟩
  · rename_i c behind hdrop
    have hc : c = sep := by
      have hhead := List.head?_dropWhile_not (· != sep) cs
      simpa [hdrop] using hhead
    rw [hdrop, hc] at hcut
    exact Or.inr ⟨_, behind, rfl, hcut.symm, hbefore⟩

theorem splitFirst_append {before behind : List Char} (h : sep ∉ before) :
    splitFirst sep (before ++ sep :: behind) = (before, some behind) := by
  have hbefore : ∀ c ∈ before, (c != sep) = true := fun c hc => by
    rw [bne_iff_ne]
    rintro rfl
    exact h hc
  rw [splitFirst, List.dropWhile_append_of_pos hbefore, List.dropWhile_cons_of_neg (by simp),
    List.takeWhile_append_of_pos hbefore, List.takeWhile_cons_of_neg (by simp), List.append_nil]

/-! ## The ends of a text -/

section Ends

variable {p : Char → Bool} {core : List Char}

/-- What is left of a text when all characters of a class are taken away at both of its ends. -/
structure IsTrimmed (p : Char → Bool) (cs core : List Char) : Prop where
  around : ∃ front back, cs = front ++ core ++ back ∧
    (∀ c ∈ front, p c = true) ∧ ∀ c ∈ back, p c = true
  head : ∀ c ∈ core.head?, p c = false
  last : ∀ c ∈ core.getLast?, p c = false

theorem trimWhere_front {front : List Char} (h : ∀ c ∈ front, p c = true) (cs : List Char) :
    trimWhere p (front ++ cs) = trimWhere p cs := by
  rw [trimWhere, List.dropWhile_append_of_pos h, trimWhere]

theorem trimWhere_back {back : List Char} (h : ∀ c ∈ back, p c = true) (cs : List Char) :
    trimWhere p (cs ++ back) = trimWhere p cs := by
  have hback : ∀ c ∈ back.reverse, p c = true := fun c hc => h c (List.mem_reverse.mp hc)
  rw [trimWhere, trimWhere, List.dropWhile_append]
  split
  · rename_i hempty
    rw [List.isEmpty_iff.mp hempty, List.dropWhile_eq_nil_iff.mpr h]
  · rw [List.reverse_append, List.dropWhile_append_of_pos hback]

theorem dropWhile_of_head (h : ∀ c ∈ cs.head?, p c = false) : cs.dropWhile p = cs := by
  cases cs with
  | nil => rfl
  | cons c rest => exact List.dropWhile_cons_of_neg (by simp [h c rfl])

theorem head_of_dropWhile (p : Char → Bool) (cs : List Char) :
    ∀ c ∈ (cs.dropWhile p).head?, p c = false := by
  intro c hc
  have hhead := List.head?_dropWhile_not p cs
  rw [Option.mem_def.mp hc] at hhead
  exact hhead

/-- A text is trimmed where it neither begins nor ends with a character of the class. -/
theorem trimWhere_of_ends (hhead : ∀ c ∈ core.head?, p c = false)
    (hlast : ∀ c ∈ core.getLast?, p c = false) : trimWhere p core = core := by
  rw [trimWhere, dropWhile_of_head hhead, dropWhile_of_head (by simpa using hlast),
    List.reverse_reverse]

theorem isTrimmed_iff : IsTrimmed p cs core ↔ trimWhere p cs = core := by
  constructor
  · rintro ⟨⟨front, back, rfl, hfront, hback⟩, hhead, hlast⟩
    rw [trimWhere_back hback, trimWhere_front hfront, trimWhere_of_ends hhead hlast]
  · rintro rfl
    have hfront := List.takeWhile_append_dropWhile (p := p) (l := cs)
    have hback := List.takeWhile_append_dropWhile (p := p) (l := (cs.dropWhile p).reverse)
    -- What is left at the front is cut at the back.
    have hcore : cs.dropWhile p =
        trimWhere p cs ++ ((cs.dropWhile p).reverse.takeWhile p).reverse := by
      rw [trimWhere, ← List.reverse_append, hback, List.reverse_reverse]
    refine ⟨⟨cs.takeWhile p, ((cs.dropWhile p).reverse.takeWhile p).reverse, ?_, ?_, ?_⟩, ?_, ?_⟩
    · rw [List.append_assoc, ← hcore, hfront]
    · exact fun c hc => List.mem_takeWhile_imp hc
    · exact fun c hc => List.mem_takeWhile_imp (List.mem_reverse.mp hc)
    · intro c hc
      refine head_of_dropWhile p cs c ?_
      rw [hcore, Option.mem_def, List.head?_append, Option.mem_def.mp hc]
      rfl
    · intro c hc
      rw [trimWhere, List.getLast?_reverse] at hc
      exact head_of_dropWhile p _ c hc

end Ends

/-! ## Lines -/

theorem dropReturn_of_not_return {line : List Char} (h : line.getLast? ≠ some '\r') :
    dropReturn line = line := by
  unfold dropReturn
  split
  · rename_i hlast
    exact absurd hlast h
  · rfl

/-- A line with the carriage return that it may have had. -/
theorem exists_eq_dropReturn_append (line : List Char) :
    ∃ ending, line = dropReturn line ++ ending ∧ (ending = [] ∨ ending = ['\r']) := by
  unfold dropReturn
  split
  · rename_i hlast
    exact ⟨['\r'], (List.dropLast_append_getLast? _ hlast).symm, Or.inr rfl⟩
  · exact ⟨[], (List.append_nil line).symm, Or.inl rfl⟩

/-- A text without a line feed is one line, unless it is empty. -/
theorem lines_of_not_mem (h : '\n' ∉ cs) : lines cs = [] ∨ lines cs = [cs] := by
  rw [lines, splitAt_of_not_mem h]
  cases cs with
  | nil => exact Or.inl rfl
  | cons c rest => exact Or.inr rfl

/-- In front of a line feed every piece is a line, whatever follows. -/
theorem lines_append (a b : List Char) :
    lines (a ++ '\n' :: b) = (splitAt '\n' a).map dropReturn ++ lines b := by
  have hne : splitAt '\n' b ≠ [] := splitAt_ne_nil '\n' b
  rw [lines, lines, splitAt_append]
  rw [List.dropLast_append_of_ne_nil hne, List.getLast?_append_of_ne_nil _ hne, List.map_append]
  split
  · rfl
  · rw [List.append_assoc]
  · rfl

/-- The pieces of a text that does not end with a carriage return are its lines, but for an empty
one at the end. -/
theorem map_dropReturn_splitAt {a : List Char} (h : a.getLast? ≠ some '\r') :
    (splitAt '\n' a).map dropReturn = lines a ∨
      (splitAt '\n' a).map dropReturn = lines a ++ [[]] := by
  obtain ⟨pieces, last, hpieces, front, hsuffix⟩ := exists_last_piece '\n' a
  rw [lines, hpieces]
  rw [List.getLast?_concat, List.dropLast_concat, List.map_append, List.map_singleton]
  by_cases hlast : last = []
  · subst hlast
    exact Or.inr rfl
  · have hreturn : last.getLast? ≠ some '\r' := by
      rw [← hsuffix, List.getLast?_append_of_ne_nil _ hlast] at h
      exact h
    rw [dropReturn_of_not_return hreturn]
    split
    · rename_i heq
      exact absurd (Option.some.inj heq) hlast
    · rename_i heq
      rw [Option.some.inj heq]
      exact Or.inl rfl
    · rename_i heq
      exact absurd heq (by simp)

end SphereLab
