import Mathlib
import SphereLab.Proofs.LaTeX.Writing

/-!
# Numerals that meet

Blanks mean nothing in a formula, so two numerals with nothing but blanks between them are read as
one.  Whether that happens in a text is found by reading it once from left to right, and all that
has to be remembered is whether a numeral has just been read and whether blanks stand behind it.
This is why texts can be judged piece by piece: a separator, which has no digit and is not blank,
brings the reader back to where he started, and a single blank between two texts lets numerals meet
only if the first text ends in one and the second begins with one.

* `NumeralsMeet`, `EndsInNumeral`, `BeginsWithNumeral`: the properties of texts.
* `numeralsMeet_iff_meets`: reading from left to right finds the numerals that meet.
* `numeralsMeet_append`: across a separator no numerals meet.
* `numeralsMeet_beside`: across a blank they meet where the texts make them.
* `numeralsMeet_intercalate`: several texts with blanks between them.
-/

namespace SphereLab

namespace LaTeX

variable {cs ds : List Char} {c : Char}

/-! ## Properties of texts -/

/-- The last of the text is a digit, or blanks behind a digit. -/
def EndsInNumeral (cs : List Char) : Prop :=
  ∃ front d k, d.isDigit = true ∧ cs = front ++ d :: List.replicate k ' '

/-- The text begins with a digit. -/
def BeginsWithNumeral (cs : List Char) : Prop := ∃ d back, d.isDigit = true ∧ cs = d :: back

/-- Two numerals have nothing but blanks between them, so that they are at the same depth of braces
and are read as one. -/
def NumeralsMeet (cs : List Char) : Prop :=
  ∃ xs ys, cs = xs ++ ' ' :: ys ∧ EndsInNumeral xs ∧ BeginsWithNumeral ys

/-- The text begins with something that is not blank. -/
def IsTight (cs : List Char) : Prop := ∃ c back, c ≠ ' ' ∧ cs = c :: back

/-- The text begins with something that is neither blank nor a digit. -/
def StartsPlainly (cs : List Char) : Prop :=
  ∃ c back, c.isDigit = false ∧ c ≠ ' ' ∧ cs = c :: back

/-- The text has no digit and is not blank. -/
def Separates (cs : List Char) : Prop := (∀ c ∈ cs, c.isDigit = false) ∧ ∃ c ∈ cs, c ≠ ' '

instance (cs : List Char) : Decidable (Separates cs) :=
  decidable_of_iff (cs.all (!·.isDigit) = true ∧ cs.any (· != ' ') = true) (by simp [Separates])

theorem IsTight.append (h : IsTight cs) (ds : List Char) : IsTight (cs ++ ds) := by
  obtain ⟨c, back, hc, rfl⟩ := h
  exact ⟨c, back ++ ds, hc, rfl⟩

theorem beginsWithNumeral_cons : BeginsWithNumeral (c :: cs) ↔ c.isDigit = true := by
  constructor
  · rintro ⟨d, back, hd, heq⟩
    rwa [(List.cons.inj heq).1]
  · exact fun h => ⟨c, cs, h, rfl⟩

/-- How a text begins does not depend on what is written behind it. -/
theorem beginsWithNumeral_append (h : cs ≠ []) :
    BeginsWithNumeral (cs ++ ds) ↔ BeginsWithNumeral cs := by
  obtain ⟨c, back, rfl⟩ := List.exists_cons_of_ne_nil h
  rw [List.cons_append, beginsWithNumeral_cons, beginsWithNumeral_cons]

theorem BeginsWithNumeral.isTight (h : BeginsWithNumeral cs) : IsTight cs := by
  obtain ⟨d, back, hd, rfl⟩ := h
  refine ⟨d, back, ?_, rfl⟩
  rintro rfl
  exact absurd hd (by decide)

namespace StartsPlainly

theorem isTight (h : StartsPlainly cs) : IsTight cs := by
  obtain ⟨c, back, -, hblank, rfl⟩ := h
  exact ⟨c, back, hblank, rfl⟩

theorem not_beginsWithNumeral (h : StartsPlainly cs) : ¬BeginsWithNumeral cs := by
  obtain ⟨c, back, hdigit, -, rfl⟩ := h
  rw [beginsWithNumeral_cons, hdigit]
  exact Bool.false_ne_true

theorem append (h : StartsPlainly cs) (ds : List Char) : StartsPlainly (cs ++ ds) := by
  obtain ⟨c, back, hdigit, hblank, rfl⟩ := h
  exact ⟨c, back ++ ds, hdigit, hblank, rfl⟩

end StartsPlainly

/-- Without a blank no numerals meet. -/
theorem not_numeralsMeet_of_notMem (h : ' ' ∉ cs) : ¬NumeralsMeet cs := by
  rintro ⟨xs, ys, rfl, -⟩
  exact h (List.mem_append_right xs List.mem_cons_self)

/-! ## Reading from left to right -/

/-- Where a reader of a text is: in a numeral, in the blanks behind one, or elsewhere. -/
inductive Place where
  | elsewhere
  | numeral
  | behind
  deriving DecidableEq

namespace Place

variable {p : Place}

/-- Where the reader is after one more character. -/
def next (p : Place) (c : Char) : Place :=
  if c.isDigit then .numeral
  else if c = ' ' then (if p = .elsewhere then .elsewhere else .behind)
  else .elsewhere

/-- Where the reader is after a text. -/
def after (p : Place) (cs : List Char) : Place := cs.foldl next p

/-- The reader comes to a numeral while he is behind another one. -/
def Meets : Place → List Char → Prop
  | _, [] => False
  | p, c :: cs => p = .behind ∧ c.isDigit = true ∨ Meets (p.next c) cs

theorem next_of_isDigit (h : c.isDigit = true) : p.next c = .numeral := if_pos h

theorem next_blank : p.next ' ' = if p = .elsewhere then .elsewhere else .behind := rfl

theorem next_of_mark (hdigit : c.isDigit = false) (hblank : c ≠ ' ') : p.next c = .elsewhere := by
  rw [next, hdigit, if_neg Bool.false_ne_true, if_neg hblank]

/-- What is not blank leads everywhere to the same place. -/
theorem next_eq_next (h : c ≠ ' ') (p q : Place) : p.next c = q.next c := by
  rw [next, next, if_neg h, if_neg h]

theorem after_append (p : Place) (cs ds : List Char) : p.after (cs ++ ds) = (p.after cs).after ds :=
  List.foldl_append

theorem meets_append (p : Place) (cs ds : List Char) :
    p.Meets (cs ++ ds) ↔ p.Meets cs ∨ (p.after cs).Meets ds := by
  induction cs generalizing p with
  | nil => exact (or_iff_right id).symm
  | cons c cs ih =>
    rw [List.cons_append, Meets, Meets, ih, or_assoc]
    rfl

/-- Blanks do not lead away from a numeral. -/
theorem after_replicate_ne (hp : p ≠ .elsewhere) (k : Nat) :
    p.after (List.replicate k ' ') ≠ .elsewhere := by
  induction k generalizing p with
  | zero => exact hp
  | succ k ih =>
    have hnext : p.next ' ' ≠ .elsewhere := by
      rw [next_blank, if_neg hp]
      exact noConfusion
    exact ih hnext

end Place

open Place

/-- A reader is away from numerals after a text exactly if the text does not end in one. -/
theorem endsInNumeral_iff_after : EndsInNumeral cs ↔ elsewhere.after cs ≠ .elsewhere := by
  constructor
  · rintro ⟨front, d, k, hd, rfl⟩
    rw [after_append]
    refine after_replicate_ne (p := (elsewhere.after front).next d) ?_ k
    rw [next_of_isDigit hd]
    exact Place.noConfusion
  · intro h
    induction cs using List.reverseRecOn with
    | nil => exact absurd rfl h
    | append_singleton cs c ih =>
      rw [after_append] at h
      change (elsewhere.after cs).next c ≠ .elsewhere at h
      by_cases hdigit : c.isDigit = true
      · exact ⟨cs, c, 0, hdigit, rfl⟩
      · by_cases hblank : c = ' '
        · subst hblank
          have hbefore : elsewhere.after cs ≠ .elsewhere := fun heq =>
            h (by rw [next_blank, if_pos heq])
          obtain ⟨front, d, k, hd, rfl⟩ := ih hbefore
          exact ⟨front, d, k + 1, hd, by rw [List.replicate_succ', List.append_assoc]; rfl⟩
        · exact absurd (next_of_mark (Bool.eq_false_iff.mpr hdigit) hblank) h

/-- Where a reader meets a numeral, he is behind another one. -/
theorem Place.Meets.exists_split {p : Place} (h : p.Meets cs) :
    ∃ xs ys, cs = xs ++ ys ∧ p.after xs = .behind ∧ BeginsWithNumeral ys := by
  induction cs generalizing p with
  | nil => exact absurd h id
  | cons c cs ih =>
    rcases h with ⟨rfl, hc⟩ | h
    · exact ⟨[], c :: cs, rfl, rfl, c, cs, hc, rfl⟩
    · obtain ⟨xs, ys, rfl, hafter, hys⟩ := ih h
      exact ⟨c :: xs, ys, rfl, hafter, hys⟩

/-- **Reading from left to right.**  Numerals meet in a text exactly if a reader of the text comes
to a numeral while he is behind another one. -/
theorem numeralsMeet_iff_meets : NumeralsMeet cs ↔ elsewhere.Meets cs := by
  constructor
  · rintro ⟨xs, ys, rfl, hxs, d, back, hd, rfl⟩
    rw [meets_append]
    refine Or.inr (Or.inr (Or.inl ⟨?_, hd⟩))
    rw [next_blank, if_neg (endsInNumeral_iff_after.mp hxs)]
  · intro h
    obtain ⟨front, ys, rfl, hafter, hys⟩ := h.exists_split
    -- The reader is behind a numeral only by a blank.
    rcases List.eq_nil_or_concat' front with rfl | ⟨xs, c, rfl⟩
    · exact absurd hafter (by decide)
    · rw [after_append] at hafter
      change (elsewhere.after xs).next c = .behind at hafter
      have hblank : c = ' ' := by
        by_contra hne
        rw [next, if_neg hne] at hafter
        split at hafter <;> exact absurd hafter Place.noConfusion
      subst hblank
      have hbefore : elsewhere.after xs ≠ .elsewhere := by
        intro heq
        rw [heq] at hafter
        exact absurd hafter (by decide)
      exact ⟨xs, ys, by rw [List.append_assoc]; rfl, endsInNumeral_iff_after.mpr hbefore, hys⟩

/-! ## Separators -/

namespace Separates

variable {sep : List Char}

/-- Behind a separator the reader is away from numerals. -/
theorem after_eq (h : Separates sep) (p : Place) : p.after sep = .elsewhere := by
  obtain ⟨hdigit, c, hc, hblank⟩ := h
  have hstay : ∀ back : List Char, (∀ d ∈ back, d.isDigit = false) →
      elsewhere.after back = .elsewhere := by
    intro back hback
    by_contra hne
    obtain ⟨front, d, k, hd, rfl⟩ := endsInNumeral_iff_after.mpr hne
    have hmem := hback d (List.mem_append_right front List.mem_cons_self)
    exact absurd hd (by simp [hmem])
  obtain ⟨front, back, rfl⟩ := List.append_of_mem hc
  rw [List.forall_mem_append, List.forall_mem_cons] at hdigit
  rw [after_append]
  change ((p.after front).next c).after back = .elsewhere
  rw [next_of_mark hdigit.2.1 hblank]
  exact hstay back hdigit.2.2

theorem not_meets (h : Separates sep) (p : Place) : ¬p.Meets sep := by
  intro hmeets
  obtain ⟨xs, ys, rfl, -, d, back, hd, rfl⟩ := hmeets.exists_split
  have hmem := h.1 d (List.mem_append_right xs List.mem_cons_self)
  exact absurd hd (by simp [hmem])

/-- A text with a separator in front. -/
theorem meets_append_iff (h : Separates sep) (p : Place) :
    p.Meets (sep ++ cs) ↔ NumeralsMeet cs := by
  rw [meets_append, h.after_eq, numeralsMeet_iff_meets]
  exact or_iff_right (h.not_meets p)

end Separates

section Separators

variable {sep : List Char} (h : Separates sep)
include h

/-- **Separators.**  No numerals meet across a separator. -/
theorem numeralsMeet_append :
    NumeralsMeet (cs ++ (sep ++ ds)) ↔ NumeralsMeet cs ∨ NumeralsMeet ds := by
  rw [numeralsMeet_iff_meets, meets_append, h.meets_append_iff, ← numeralsMeet_iff_meets]

theorem numeralsMeet_behind : NumeralsMeet (sep ++ cs) ↔ NumeralsMeet cs := by
  rw [numeralsMeet_iff_meets, h.meets_append_iff]

theorem numeralsMeet_before : NumeralsMeet (cs ++ sep) ↔ NumeralsMeet cs := by
  have hnil : ¬NumeralsMeet [] := not_numeralsMeet_of_notMem List.not_mem_nil
  rw [← List.append_nil sep, numeralsMeet_append h, or_iff_left hnil]

theorem not_endsInNumeral_append : ¬EndsInNumeral (cs ++ sep) := by
  rw [endsInNumeral_iff_after, not_not, after_append, h.after_eq]

end Separators

/-! ## Texts beside each other -/

/-- Behind a numeral and a blank, a text begins with a numeral that meets it or holds the numerals
that meet. -/
theorem IsTight.meets_blank_iff (h : IsTight cs) (p : Place) :
    p.Meets (' ' :: cs) ↔ p ≠ .elsewhere ∧ BeginsWithNumeral cs ∨ NumeralsMeet cs := by
  obtain ⟨c, back, hc, rfl⟩ := h
  have hbehind : p.next ' ' = .behind ↔ p ≠ .elsewhere := by
    rw [next_blank]
    by_cases hp : p = .elsewhere
    · rw [if_pos hp]
      exact iff_of_false Place.noConfusion (not_not_intro hp)
    · rw [if_neg hp]
      exact iff_of_true rfl hp
  have hblank : ¬(p = .behind ∧ ' '.isDigit = true) := fun hand => absurd hand.2 (by decide)
  have hstart : ¬(elsewhere = .behind ∧ c.isDigit = true) := fun hand => Place.noConfusion hand.1
  rw [numeralsMeet_iff_meets, beginsWithNumeral_cons, Meets, Meets, Meets, hbehind,
    next_eq_next hc (p.next ' ') .elsewhere, or_iff_right hblank, or_iff_right hstart]

/-- **Texts beside each other.**  With a blank between two texts, numerals meet in one of them, or
the first one ends in a numeral and the second one begins with one. -/
theorem numeralsMeet_beside (h : IsTight ds) :
    NumeralsMeet (cs ++ ' ' :: ds) ↔
      NumeralsMeet cs ∨ EndsInNumeral cs ∧ BeginsWithNumeral ds ∨ NumeralsMeet ds := by
  rw [numeralsMeet_iff_meets, meets_append, h.meets_blank_iff, ← numeralsMeet_iff_meets,
    ← endsInNumeral_iff_after]

/-! ## Several texts -/

/-- Some neighbours in a list are so related. -/
def SomeNeighbours {α : Type} (r : α → α → Prop) (xs : List α) : Prop :=
  ∃ x y, [x, y] <:+: xs ∧ r x y

section Neighbours

variable {α β : Type} {r : α → α → Prop} {xs : List α}

theorem not_someNeighbours (h : xs.length ≤ 1) : ¬SomeNeighbours r xs := by
  rintro ⟨x, y, hpair, -⟩
  exact absurd (hpair.length_le.trans h) (by simp)

theorem someNeighbours_cons_cons {x y : α} :
    SomeNeighbours r (x :: y :: xs) ↔ r x y ∨ SomeNeighbours r (y :: xs) := by
  constructor
  · rintro ⟨a, b, hpair, hr⟩
    rcases List.infix_cons_iff.mp hpair with hfront | hbehind
    · obtain ⟨rfl, hrest⟩ := List.cons_prefix_cons.mp hfront
      obtain ⟨rfl, -⟩ := List.cons_prefix_cons.mp hrest
      exact Or.inl hr
    · exact Or.inr ⟨a, b, hbehind, hr⟩
  · rintro (hr | ⟨a, b, hpair, hr⟩)
    · exact ⟨x, y, (List.prefix_append [x, y] xs).isInfix, hr⟩
    · exact ⟨a, b, List.infix_cons hpair, hr⟩

theorem someNeighbours_map {f : β → α} {ys : List β} :
    SomeNeighbours r (ys.map f) ↔ SomeNeighbours (fun x y => r (f x) (f y)) ys := by
  induction ys with
  | nil => simp [not_someNeighbours]
  | cons x ys ih =>
    cases ys with
    | nil => exact iff_of_false (not_someNeighbours le_rfl) (not_someNeighbours le_rfl)
    | cons y ys =>
      rw [List.map_cons, List.map_cons, someNeighbours_cons_cons, someNeighbours_cons_cons]
      exact or_congr_right ih

theorem someNeighbours_congr {r' : α → α → Prop}
    (h : ∀ x ∈ xs, ∀ y ∈ xs.tail, (r x y ↔ r' x y)) :
    SomeNeighbours r xs ↔ SomeNeighbours r' xs := by
  induction xs with
  | nil => simp [not_someNeighbours]
  | cons x xs ih =>
    cases xs with
    | nil => exact iff_of_false (not_someNeighbours le_rfl) (not_someNeighbours le_rfl)
    | cons y xs =>
      rw [someNeighbours_cons_cons, someNeighbours_cons_cons]
      refine or_congr (h x List.mem_cons_self y List.mem_cons_self) (ih fun a ha b hb => ?_)
      exact h a (List.mem_cons_of_mem x ha) b (List.mem_cons_of_mem y hb)

end Neighbours

/-- **Texts with blanks between them.**  Numerals meet in one of the texts, or one text ends in a
numeral and the next one begins with one. -/
theorem numeralsMeet_intercalate {ts : List String} (h : ∀ t ∈ ts, IsTight t.toList) :
    NumeralsMeet (" ".intercalate ts).toList ↔ (∃ t ∈ ts, NumeralsMeet t.toList) ∨
      SomeNeighbours (fun s t => EndsInNumeral s.toList ∧ BeginsWithNumeral t.toList) ts := by
  induction ts with
  | nil =>
    refine iff_of_false (not_numeralsMeet_of_notMem (by simp)) ?_
    simp [not_someNeighbours]
  | cons t ts ih =>
    obtain ⟨ht, hts⟩ := List.forall_mem_cons.mp h
    cases ts with
    | nil => simp [not_someNeighbours]
    | cons u us =>
      obtain ⟨hu, -⟩ := List.forall_mem_cons.mp hts
      obtain ⟨back, hback⟩ : ∃ back, (" ".intercalate (u :: us)).toList = u.toList ++ back := by
        cases us with
        | nil => exact ⟨[], by rw [String.intercalate_singleton, List.append_nil]⟩
        | cons v us =>
          exact ⟨_, by rw [String.intercalate_cons_cons, String.toList_append,
            String.toList_append, List.append_assoc]⟩
      have hne : u.toList ≠ [] := by
        obtain ⟨c, rest, -, hcs⟩ := hu
        rw [hcs]
        exact List.cons_ne_nil c rest
      have htight : IsTight (" ".intercalate (u :: us)).toList := by
        rw [hback]
        exact hu.append back
      have hbegins : BeginsWithNumeral (" ".intercalate (u :: us)).toList ↔
          BeginsWithNumeral u.toList := by
        rw [hback, beginsWithNumeral_append hne]
      have htext : (" ".intercalate (t :: u :: us)).toList =
          t.toList ++ ' ' :: (" ".intercalate (u :: us)).toList := by
        rw [String.intercalate_cons_cons, String.toList_append, String.toList_append,
          List.append_assoc]
        rfl
      rw [htext, numeralsMeet_beside htight, hbegins, ih hts, someNeighbours_cons_cons,
        List.exists_mem_cons_iff _ t, or_assoc]
      exact or_congr_right or_left_comm

end LaTeX

end SphereLab
