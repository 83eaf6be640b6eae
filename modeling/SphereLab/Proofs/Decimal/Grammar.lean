import Mathlib
import SphereLab.Proofs.Decimal.Numerals

/-!
# The grammar of numerals

What a numeral looks like can be said without reading it: an optional sign, and behind it a word for
what is no finite number, or digits with an optional point and an optional exponent.  The grammar is
that of data files, headers and arguments alike, and reading accepts just what it derives.

* `IsNumeral`: the grammar.
* `isSome_scan?_iff`, `isSome_readDouble?_iff`: what is read is what the grammar derives.
-/

namespace SphereLab

namespace Numeral

/-! ## The grammar -/

/-- An optional sign. -/
def signs : List (List Char) := [[], ['+'], ['-']]

/-- The words for what is no finite number, in small letters. -/
def specials : List (List Char) := [['n', 'a', 'n'], ['i', 'n', 'f'],
  ['i', 'n', 'f', 'i', 'n', 'i', 't', 'y']]

/-- Digits, or digits around a point; there is a digit on at least one side of it. -/
inductive IsMantissa : List Char → Prop where
  | whole {digits : List Char} (hne : digits ≠ []) (hdigits : AllDigits digits) :
      IsMantissa digits
  | pointed {digits fraction : List Char} (hdigits : AllDigits digits)
      (hfraction : AllDigits fraction) (hne : digits ≠ [] ∨ fraction ≠ []) :
      IsMantissa (digits ++ '.' :: fraction)

/-- Nothing, or an `e` with digits that may have a sign. -/
inductive IsExponentPart : List Char → Prop where
  | nothing : IsExponentPart []
  | marked {mark : Char} {sign digits : List Char} (hmark : mark = 'e' ∨ mark = 'E')
      (hsign : sign ∈ signs) (hne : digits ≠ []) (hdigits : AllDigits digits) :
      IsExponentPart (mark :: (sign ++ digits))

/-- A numeral without its sign. -/
inductive IsUnsigned : List Char → Prop where
  | special {cs : List Char} (h : cs.map Char.toLower ∈ specials) : IsUnsigned cs
  | decimal {mantissa exponent : List Char} (hmantissa : IsMantissa mantissa)
      (hexponent : IsExponentPart exponent) : IsUnsigned (mantissa ++ exponent)

/-- A numeral: an optional sign, and a numeral without sign. -/
def IsNumeral (cs : List Char) : Prop :=
  ∃ sign ∈ signs, ∃ rest, IsUnsigned rest ∧ cs = sign ++ rest

/-! ## What is read is derived -/

theorem exists_sign (cs : List Char) : ∃ sign ∈ signs, cs = sign ++ (splitSign cs).2 := by
  unfold splitSign
  split
  · exact ⟨['-'], by decide, rfl⟩
  · exact ⟨['+'], by decide, rfl⟩
  · exact ⟨[], by decide, rfl⟩

/-- A run of digits that is not refused. -/
theorem digits_of_not_refused {cs : List Char}
    (h : ¬(cs.isEmpty || !cs.all Char.isDigit) = true) : cs ≠ [] ∧ AllDigits cs := by
  simp only [Bool.or_eq_true, List.isEmpty_iff, Bool.not_eq_true', not_or,
    Bool.not_eq_false, List.all_eq_true] at h
  exact h

theorem isExponentPart_of_scanExponent? {cs : List Char}
    (h : (scanExponent? cs).isSome = true) : IsExponentPart cs := by
  cases cs with
  | nil => exact .nothing
  | cons mark rest =>
    obtain ⟨sign, hsign, hrest⟩ := exists_sign rest
    rw [scanExponent?] at h
    dsimp only at h
    split at h
    · rename_i hmark
      by_cases hrefused :
          ((splitSign rest).2.isEmpty || !(splitSign rest).2.all Char.isDigit) = true
      · rw [if_pos hrefused] at h
        exact absurd h (by simp)
      · obtain ⟨hne, hall⟩ := digits_of_not_refused hrefused
        rw [hrest]
        exact .marked hmark hsign hne hall
    · exact absurd h (by simp)

/-- The digits in front of what is no digit. -/
theorem allDigits_takeWhile (cs : List Char) : AllDigits (cs.takeWhile Char.isDigit) :=
  fun _ hc => List.mem_takeWhile_imp hc

/-- What stands behind whole digits: a point and digits, or nothing that belongs to them. -/
theorem splitFraction_cases (cs : List Char) :
    splitFraction cs = ([], cs) ∨ AllDigits (splitFraction cs).1 ∧
      cs = '.' :: ((splitFraction cs).1 ++ (splitFraction cs).2) := by
  unfold splitFraction
  split
  · rename_i rest
    exact Or.inr ⟨allDigits_takeWhile rest, by rw [List.takeWhile_append_dropWhile]⟩
  · exact Or.inl rfl

theorem isUnsigned_of_scanUnsigned? {negative : Bool} {cs : List Char}
    (h : (scanUnsigned? negative cs).isSome = true) : IsUnsigned cs := by
  rw [scanUnsigned?] at h
  dsimp only at h
  split at h
  · rename_i hword
    exact .special (by rw [hword]; decide)
  · split at h
    · rename_i hword
      refine .special ?_
      rcases hword with hword | hword
      · rw [hword]
        decide
      · rw [hword]
        decide
    · split at h
      · exact absurd h (by simp)
      · rename_i hdigits
        rw [Option.isSome_map] at h
        have hexponent := isExponentPart_of_scanExponent? h
        have hwhole := allDigits_takeWhile cs
        have hsplit : cs = cs.takeWhile Char.isDigit ++ cs.dropWhile Char.isDigit :=
          List.takeWhile_append_dropWhile.symm
        simp only [Bool.and_eq_true, List.isEmpty_iff, not_and_or] at hdigits
        rcases splitFraction_cases (cs.dropWhile Char.isDigit) with hnone | ⟨hfraction, hpoint⟩
        · rw [hnone] at hexponent hdigits
          rw [hsplit]
          exact .decimal (.whole (hdigits.resolve_right fun hne => hne rfl) hwhole) hexponent
        · rw [hsplit, hpoint, ← List.cons_append, ← List.append_assoc]
          exact .decimal (.pointed hwhole hfraction hdigits) hexponent

/-! ## What is derived is read -/

theorem isSome_scanExponent? {cs : List Char} (h : IsExponentPart cs) :
    (scanExponent? cs).isSome = true := by
  cases h with
  | nothing => rfl
  | @marked mark sign digits hmark hsign hne hdigits =>
    obtain ⟨c, rest, rfl⟩ := List.exists_cons_of_ne_nil hne
    have hsplit : ∃ negative, splitSign (sign ++ c :: rest) = (negative, c :: rest) := by
      simp only [signs, List.mem_cons, List.not_mem_nil, or_false] at hsign
      rcases hsign with rfl | rfl | rfl
      · exact ⟨false, splitSign_of_isDigit (hdigits c List.mem_cons_self) rest⟩
      · exact ⟨false, rfl⟩
      · exact ⟨true, rfl⟩
    obtain ⟨negative, hsplit⟩ := hsplit
    have hall : (c :: rest).all Char.isDigit = true := List.all_eq_true.mpr hdigits
    rw [scanExponent?, if_pos hmark, hsplit]
    simp only [hall, List.isEmpty_cons, Bool.not_true, Bool.or_self, Bool.false_eq_true, if_false,
      Option.isSome_some]

/-- An exponent does not go on with digits, nor with a point. -/
theorem IsExponentPart.endsDigits {cs : List Char} (h : IsExponentPart cs) : EndsDigits cs := by
  intro c hc
  cases h with
  | nothing => exact absurd hc (by simp)
  | marked hmark hsign hne hdigits =>
    obtain rfl := Option.some.inj hc
    rcases hmark with rfl | rfl <;> decide

theorem isSome_scanUnsigned? {cs : List Char} (h : IsUnsigned cs) (negative : Bool) :
    (scanUnsigned? negative cs).isSome = true := by
  rw [scanUnsigned?]
  dsimp only
  split
  · rfl
  · rename_i hnan
    split
    · rfl
    · rename_i hinfinity
      cases h with
      | special hspecial =>
        simp only [specials, List.mem_cons, List.not_mem_nil, or_false] at hspecial
        exact absurd (hspecial.resolve_left hnan) hinfinity
      | @decimal mantissa exponent hmantissa hexponent =>
        have hends := hexponent.endsDigits
        have hscan := isSome_scanExponent? hexponent
        cases hmantissa with
        | whole hne hdigits =>
          obtain ⟨htake, hdrop⟩ := takeWhile_isDigit exponent hdigits fun c hc => (hends c hc).1
          have hfraction : splitFraction exponent = ([], exponent) := by
            unfold splitFraction
            split
            · exact absurd rfl (hends '.' rfl).2
            · rfl
          simp only [htake, hdrop, hfraction, List.isEmpty_iff, hne, Bool.and_eq_true, false_and,
            if_false, Option.isSome_map]
          exact hscan
        | @pointed digits fraction hdigits hfraction hne =>
          rw [List.append_assoc, List.cons_append]
          obtain ⟨htake, hdrop⟩ := takeWhile_isDigit ('.' :: (fraction ++ exponent)) hdigits
            (by simp)
          obtain ⟨htake', hdrop'⟩ := takeWhile_isDigit exponent hfraction fun c hc =>
            (hends c hc).1
          simp only [htake, hdrop, splitFraction, htake', hdrop', List.isEmpty_iff,
            Bool.and_eq_true, not_and_or.mpr hne, if_false, Option.isSome_map]
          exact hscan

/-- A numeral without its sign does not begin with one. -/
theorem IsUnsigned.head {cs : List Char} (h : IsUnsigned cs) :
    ∀ c ∈ cs.head?, c ≠ '+' ∧ c ≠ '-' := by
  intro c hc
  have hsign : ∀ d ∈ ['+', '-'], d.isDigit = false ∧ d ≠ '.' ∧ d.toLower = d := by
    simp only [List.forall_mem_cons]
    exact ⟨⟨by decide, by decide, rfl⟩, ⟨by decide, by decide, rfl⟩, by simp⟩
  suffices hnot : c ∉ ['+', '-'] by simpa using hnot
  intro hmem
  obtain ⟨hdigit, hpoint, hsmall⟩ := hsign c hmem
  cases h with
  | special hspecial =>
    have hwords : ∀ word ∈ specials, ∀ d ∈ word.head?, d ∉ ['+', '-'] := by
      simp [specials]
    refine hwords _ hspecial c ?_ hmem
    rw [List.head?_map, Option.mem_def.mp hc, Option.map_some, hsmall]
    rfl
  | decimal hmantissa hexponent =>
    cases hmantissa with
    | whole hne hdigits =>
      obtain ⟨d, rest, rfl⟩ := List.exists_cons_of_ne_nil hne
      obtain rfl := Option.some.inj hc
      exact absurd (hdigits d List.mem_cons_self) (by simp [hdigit])
    | @pointed digits fraction hdigits hfraction hne =>
      cases digits with
      | nil => exact hpoint (Option.some.inj hc).symm
      | cons d rest =>
        obtain rfl := Option.some.inj hc
        exact absurd (hdigits d List.mem_cons_self) (by simp [hdigit])

theorem splitSign_append {sign rest : List Char} (hsign : sign ∈ signs)
    (hrest : ∀ c ∈ rest.head?, c ≠ '+' ∧ c ≠ '-') : (splitSign (sign ++ rest)).2 = rest := by
  simp only [signs, List.mem_cons, List.not_mem_nil, or_false] at hsign
  rcases hsign with rfl | rfl | rfl
  · rw [List.nil_append]
    unfold splitSign
    split
    · exact absurd rfl (hrest '-' rfl).2
    · exact absurd rfl (hrest '+' rfl).1
    · rfl
  · rfl
  · rfl

/-! ## The grammar is what is read -/

/-- **What is recognised is what the grammar derives.** -/
theorem isSome_scan?_iff (cs : List Char) : (scan? cs).isSome = true ↔ IsNumeral cs := by
  constructor
  · intro h
    obtain ⟨sign, hsign, hsplit⟩ := exists_sign cs
    exact ⟨sign, hsign, _, isUnsigned_of_scanUnsigned? h, hsplit⟩
  · rintro ⟨sign, hsign, rest, hrest, rfl⟩
    have hsplit := splitSign_append hsign hrest.head
    rw [scan?]
    dsimp only
    rw [hsplit]
    exact isSome_scanUnsigned? hrest _

instance : DecidablePred IsNumeral := fun cs => decidable_of_iff _ (isSome_scan?_iff cs)

end Numeral

/-- A text is read as a double if it is a numeral. -/
theorem isSome_readDouble?_iff (cs : List Char) :
    (readDouble? cs).isSome = true ↔ Numeral.IsNumeral cs := by
  rw [readDouble?, Option.isSome_map, Numeral.isSome_scan?_iff]

end SphereLab
