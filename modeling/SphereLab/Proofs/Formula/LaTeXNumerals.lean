import Mathlib
import SphereLab.Proofs.Formula.LaTeXText
import SphereLab.Proofs.LaTeX.Numerals

/-!
# Numerals in the texts of layouts

Braces, parentheses, signs and bars separate what stands on their two sides, so numerals meet in the
text of a layout where they meet in the text of a member, or between two factors that stand beside
each other.  A factor ends in a numeral beside others only if it is a number or a symbol, since all
else ends in a bracket; and it begins with one only if it is a number or a power of a number.

* `numeralsMeet_text_sum`, `numeralsMeet_text_quotient`, `numeralsMeet_text_power`: where numerals
  meet in a text, from the texts of the members.
* `isTight_text_sum`, `isTight_text_quotient`: these texts begin with something that is not blank.
* `endsInNumeral_numberText`, `beginsWithNumeral_numberText`: numbers.
* `startsPlainly_symbolText`: symbols.
* `beginsWithNumeral_baseText`: the base of a power.
-/

namespace SphereLab

namespace LaTeX

variable {s : String} {l b e : Layout Float} {ls above below : List (Layout Float)}

/-! ## Brackets -/

section Brackets

variable {cs ds : List Char}

/-- Braces separate. -/
theorem numeralsMeet_append_braced :
    NumeralsMeet (cs ++ bracedText ds) ↔ NumeralsMeet cs ∨ NumeralsMeet ds := by
  have hopen : Separates ['\x7b'] := by decide
  have hclose : Separates ['\x7d'] := by decide
  have hsplit : NumeralsMeet (cs ++ bracedText ds) ↔
      NumeralsMeet cs ∨ NumeralsMeet (ds ++ ['\x7d']) := numeralsMeet_append hopen
  rwa [numeralsMeet_before hclose] at hsplit

theorem not_endsInNumeral_append_braced : ¬EndsInNumeral (cs ++ bracedText ds) := by
  have hclose : Separates ['\x7d'] := by decide
  rw [bracedText, ← List.cons_append, ← List.append_assoc]
  exact not_endsInNumeral_append hclose

theorem separates_leftText : Separates leftText := by decide

theorem separates_rightText : Separates rightText := by decide

/-- Parentheses separate. -/
theorem numeralsMeet_parens : NumeralsMeet (parens s).toList ↔ NumeralsMeet s.toList := by
  rw [toList_parens, numeralsMeet_behind separates_leftText,
    numeralsMeet_before separates_rightText]

theorem not_endsInNumeral_parens : ¬EndsInNumeral (parens s).toList := by
  rw [toList_parens, ← List.append_assoc]
  exact not_endsInNumeral_append separates_rightText

theorem startsPlainly_parens (s : String) : StartsPlainly (parens s).toList := by
  rw [toList_parens]
  exact ⟨'\\', _, by decide, by decide, rfl⟩

theorem startsPlainly_append {t : String} (h : StartsPlainly s.toList) :
    StartsPlainly (s ++ t).toList := by
  rw [String.toList_append]
  exact h.append _

theorem startsPlainly_fraction (s t : String) : StartsPlainly (fraction s t).toList :=
  startsPlainly_append (startsPlainly_append ⟨'\\', _, by decide, by decide, rfl⟩)

theorem not_endsInNumeral_append_braced_text {t : String} :
    ¬EndsInNumeral (s ++ braced t).toList := by
  rw [String.toList_append, toList_braced]
  exact not_endsInNumeral_append_braced

/-- A text is left alone, or it is one between parentheses, which are taken away. -/
theorem withoutParens_eq_or (s : String) : withoutParens s = s ∨ s = parens (withoutParens s) := by
  by_cases h : (s.startsWith "\\left(" && s.endsWith "\\right)" && decide (13 ≤ s.length)) = true
  · refine Or.inr ?_
    obtain ⟨t, rfl⟩ : ∃ t, s = parens t := by
      rw [Bool.and_eq_true, Bool.and_eq_true, decide_eq_true_iff] at h
      obtain ⟨⟨hstarts, hends⟩, hlong⟩ := h
      obtain ⟨rest, hrest⟩ := String.startsWith_string_iff.mp hstarts
      obtain ⟨front, hfront⟩ := endsWith_iff.mp hends
      change leftText ++ rest = s.toList at hrest
      change front ++ rightText = s.toList at hfront
      have hlength := congrArg List.length hrest
      rw [List.length_append, String.length_toList] at hlength
      have hsuffix : rightText <:+ rest := by
        refine List.suffix_of_suffix_length_le ⟨front, hfront⟩ ⟨leftText, hrest⟩ ?_
        have hleft : leftText.length = 6 := rfl
        have hright : rightText.length = 7 := rfl
        omega
      obtain ⟨middle, rfl⟩ := hsuffix
      refine ⟨String.ofList middle, String.toList_inj.mp ?_⟩
      rw [toList_parens, String.toList_ofList, hrest]
    rw [withoutParens_parens]
  · exact Or.inl (if_neg h)

theorem numeralsMeet_withoutParens :
    NumeralsMeet (withoutParens s).toList ↔ NumeralsMeet s.toList := by
  rcases withoutParens_eq_or s with heq | heq
  · rw [heq]
  · conv_rhs => rw [heq]
    exact numeralsMeet_parens.symm

theorem numeralsMeet_besideText :
    NumeralsMeet (besideText l).toList ↔ NumeralsMeet (text numberText l).toList := by
  rw [besideText]
  split
  · exact numeralsMeet_parens
  · exact Iff.rfl

theorem isTight_besideText (h : IsTight (text numberText l).toList) :
    IsTight (besideText l).toList := by
  rw [besideText]
  split
  · exact (startsPlainly_parens _).isTight
  · exact h

theorem not_endsInNumeral_besideText (h : ¬EndsInNumeral (text numberText l).toList) :
    ¬EndsInNumeral (besideText l).toList := by
  rw [besideText]
  split
  · exact not_endsInNumeral_parens
  · exact h

theorem startsPlainly_besideText (h : StartsPlainly (text numberText l).toList) :
    StartsPlainly (besideText l).toList := by
  rw [besideText]
  split
  · exact startsPlainly_parens _
  · exact h

end Brackets

/-! ## Products and sums -/

/-- The first layout ends in a numeral beside others and the second one begins with one. -/
def Touches (l m : Layout Float) : Prop :=
  EndsInNumeral (besideText l).toList ∧ BeginsWithNumeral (besideText m).toList

/-- Numerals meet in one of several layouts or between two that are beside each other. -/
def MeetAmong (ls : List (Layout Float)) : Prop :=
  (∃ l ∈ ls, NumeralsMeet (text numberText l).toList) ∨ SomeNeighbours Touches ls

theorem not_meetAmong_nil : ¬MeetAmong [] := by
  rintro (⟨l, hl, -⟩ | hneighbours)
  · exact absurd hl List.not_mem_nil
  · exact absurd hneighbours (not_someNeighbours (by simp))

theorem meetAmong_singleton : MeetAmong [l] ↔ NumeralsMeet (text numberText l).toList := by
  rw [MeetAmong, or_iff_left (not_someNeighbours le_rfl)]
  simp only [List.mem_singleton, exists_eq_left]

section Members

variable (h : ∀ l ∈ ls, IsTight (text numberText l).toList)
include h

theorem numeralsMeet_intercalate_besideText :
    NumeralsMeet (" ".intercalate (ls.map besideText)).toList ↔ MeetAmong ls := by
  have htight : ∀ t ∈ ls.map besideText, IsTight t.toList :=
    List.forall_mem_map.mpr fun l hl => isTight_besideText (h l hl)
  have hmembers : (∃ t ∈ ls.map besideText, NumeralsMeet t.toList) ↔
      ∃ l ∈ ls, NumeralsMeet (text numberText l).toList := by
    simp only [List.mem_map, exists_exists_and_eq_and]
    exact exists_congr fun l => and_congr_right fun _ => numeralsMeet_besideText
  rw [numeralsMeet_intercalate htight, hmembers, someNeighbours_map]
  rfl

/-- Above a fraction bar numerals meet as they do beside each other. -/
theorem numeralsMeet_topText : NumeralsMeet (topText ls).toList ↔ MeetAmong ls := by
  match ls with
  | [] => exact iff_of_false (not_numeralsMeet_of_notMem (by decide)) not_meetAmong_nil
  | [l] => exact meetAmong_singleton.symm
  | l :: m :: ls =>
    have htext : topText (l :: m :: ls) = " ".intercalate ((l :: m :: ls).map besideText) := by
      rw [← map_snd_texts]
      rfl
    rw [htext, numeralsMeet_intercalate_besideText h]

/-- Below a fraction bar numerals meet as they do beside each other. -/
theorem numeralsMeet_bottomText : NumeralsMeet (bottomText ls).toList ↔ MeetAmong ls := by
  match ls with
  | [] => exact iff_of_false (not_numeralsMeet_of_notMem (by decide)) not_meetAmong_nil
  | [l] =>
    have htext : bottomText [l] = withoutParens (besideText l) := rfl
    rw [htext, numeralsMeet_withoutParens, numeralsMeet_besideText, meetAmong_singleton]
  | l :: m :: ls =>
    have htext : bottomText (l :: m :: ls) = " ".intercalate ((l :: m :: ls).map besideText) := by
      rw [← map_snd_texts]
      rfl
    rw [htext, numeralsMeet_intercalate_besideText h]

end Members

theorem numeralsMeet_fraction {s t : String} :
    NumeralsMeet (fraction s t).toList ↔ NumeralsMeet s.toList ∨ NumeralsMeet t.toList := by
  have hfrac : ¬NumeralsMeet "\\frac".toList := not_numeralsMeet_of_notMem (by decide)
  rw [fraction, String.toList_append, String.toList_append, toList_braced, toList_braced,
    numeralsMeet_append_braced, numeralsMeet_append_braced, or_iff_right hfrac]

/-- **Products.**  Numerals meet in the text of a product over a product exactly if they meet among
the factors above or among those below. -/
theorem numeralsMeet_text_quotient (negative : Bool)
    (habove : ∀ l ∈ above, IsTight (text numberText l).toList)
    (hbelow : ∀ l ∈ below, IsTight (text numberText l).toList) :
    NumeralsMeet (text numberText (.quotient negative above below)).toList ↔
      MeetAmong above ∨ MeetAmong below := by
  have hminus : Separates "- ".toList := by decide
  have hbody : NumeralsMeet (bodyText above below).toList ↔ MeetAmong above ∨ MeetAmong below := by
    cases below with
    | nil =>
      rw [bodyText, numeralsMeet_intercalate_besideText habove, or_iff_left not_meetAmong_nil]
    | cons l ls =>
      rw [bodyText, numeralsMeet_fraction, numeralsMeet_topText habove,
        numeralsMeet_bottomText hbelow]
  rw [text_quotient]
  split
  · rw [String.toList_append, numeralsMeet_behind hminus, hbody]
  · exact hbody

theorem numeralsMeet_append_followingText {cs : List Char} (p : Bool × Layout Float) :
    NumeralsMeet (cs ++ (followingText p).toList) ↔
      NumeralsMeet cs ∨ NumeralsMeet (text numberText p.2).toList := by
  have hminus : Separates " - ".toList := by decide
  have hplus : Separates " + ".toList := by decide
  rw [followingText]
  split
  · rw [String.toList_append, numeralsMeet_append hminus, numeralsMeet_besideText]
  · rw [String.toList_append, numeralsMeet_append hplus]

theorem numeralsMeet_append_join {cs : List Char} (ps : List (Bool × Layout Float)) :
    NumeralsMeet (cs ++ (String.join (ps.map followingText)).toList) ↔
      NumeralsMeet cs ∨ ∃ p ∈ ps, NumeralsMeet (text numberText p.2).toList := by
  induction ps generalizing cs with
  | nil => simp
  | cons p ps ih =>
    rw [List.map_cons, String.join_cons, String.toList_append, ← List.append_assoc, ih,
      numeralsMeet_append_followingText, List.exists_mem_cons_iff, or_assoc]

/-- **Sums.**  Numerals meet in the text of a sum exactly if they meet in one of its terms. -/
theorem numeralsMeet_text_sum {signs : List Bool} (hlength : signs.length = ls.length) :
    NumeralsMeet (text numberText (.sum signs ls)).toList ↔
      ∃ l ∈ ls, NumeralsMeet (text numberText l).toList := by
  obtain ⟨ps, rfl, rfl⟩ := exists_signed_terms hlength
  simp only [text_sum, List.mem_map, exists_exists_and_eq_and]
  cases ps with
  | nil => exact iff_of_false (not_numeralsMeet_of_notMem (by decide)) (by simp)
  | cons p ps =>
    have hminus : Separates "- ".toList := by decide
    have hfirst : NumeralsMeet
        (if p.1 then "- " ++ besideText p.2 else text numberText p.2).toList ↔
          NumeralsMeet (text numberText p.2).toList := by
      split
      · rw [String.toList_append, numeralsMeet_behind hminus, numeralsMeet_besideText]
      · exact Iff.rfl
    rw [joinTerms_cons, String.toList_append, numeralsMeet_append_join, hfirst,
      List.exists_mem_cons_iff]

theorem isTight_text_sum {signs : List Bool} (hne : ls ≠ []) (hlength : signs.length = ls.length)
    (h : ∀ l ∈ ls, IsTight (text numberText l).toList) :
    IsTight (text numberText (.sum signs ls)).toList := by
  obtain ⟨ps, rfl, rfl⟩ := exists_signed_terms hlength
  obtain ⟨p, ps, rfl⟩ := List.exists_cons_of_ne_nil (mt (congrArg (List.map Prod.snd)) hne)
  rw [text_sum, joinTerms_cons, String.toList_append]
  refine IsTight.append ?_ _
  split
  · exact (startsPlainly_append ⟨'-', _, by decide, by decide, rfl⟩).isTight
  · exact h p.2 List.mem_cons_self

theorem isTight_text_quotient (negative : Bool) (hne : above ≠ [] ∨ below ≠ [])
    (h : ∀ l ∈ above, IsTight (text numberText l).toList) :
    IsTight (text numberText (.quotient negative above below)).toList := by
  rw [text_quotient]
  split
  · exact (startsPlainly_append ⟨'-', _, by decide, by decide, rfl⟩).isTight
  · cases below with
    | cons l ls => exact (startsPlainly_fraction _ _).isTight
    | nil =>
      obtain ⟨l, ls, rfl⟩ := List.exists_cons_of_ne_nil (hne.resolve_right (not_not_intro rfl))
      have hl := isTight_besideText (h l List.mem_cons_self)
      rw [bodyText]
      cases ls with
      | nil =>
        rw [List.map_singleton, String.intercalate_singleton]
        exact hl
      | cons m ls =>
        rw [List.map_cons, List.map_cons, String.intercalate_cons_cons, String.toList_append,
          String.toList_append, List.append_assoc]
        exact hl.append _

/-! ## Powers -/

/-- The text of a layout as the base of a power. -/
def baseText (l : Layout Float) : String :=
  if binding l < 4 then parens (text numberText l) else text numberText l

theorem toList_text_power (b e : Layout Float) : (text numberText (.power b e)).toList =
    ((baseText b).toList ++ ['^']) ++ bracedText (text numberText e).toList := by
  rw [text_power, String.toList_append, String.toList_append, toList_braced]
  rfl

theorem numeralsMeet_text_power : NumeralsMeet (text numberText (.power b e)).toList ↔
    NumeralsMeet (text numberText b).toList ∨ NumeralsMeet (text numberText e).toList := by
  have hcaret : Separates ['^'] := by decide
  have hbase : NumeralsMeet (baseText b).toList ↔ NumeralsMeet (text numberText b).toList := by
    rw [baseText]
    split
    · exact numeralsMeet_parens
    · exact Iff.rfl
  rw [toList_text_power, numeralsMeet_append_braced, numeralsMeet_before hcaret, hbase]

theorem isTight_baseText (h : IsTight (text numberText l).toList) :
    IsTight (baseText l).toList := by
  rw [baseText]
  split
  · exact (startsPlainly_parens _).isTight
  · exact h

theorem numeralsMeet_text_root :
    NumeralsMeet (text numberText (.root l)).toList ↔ NumeralsMeet (text numberText l).toList := by
  have hroot : ¬NumeralsMeet "\\sqrt".toList := not_numeralsMeet_of_notMem (by decide)
  rw [text_root, String.toList_append, toList_braced, numeralsMeet_append_braced,
    or_iff_right hroot]

theorem numeralsMeet_text_exponential : NumeralsMeet (text numberText (.exponential l)).toList ↔
    NumeralsMeet (text numberText l).toList := by
  have hexp : ¬NumeralsMeet "e^".toList := not_numeralsMeet_of_notMem (by decide)
  rw [text_exponential, String.toList_append, toList_braced, numeralsMeet_append_braced,
    or_iff_right hexp]

theorem numeralsMeet_text_reciprocal : NumeralsMeet (text numberText (.reciprocal l)).toList ↔
    NumeralsMeet (text numberText l).toList := by
  have hone : ¬NumeralsMeet "1".toList := not_numeralsMeet_of_notMem (by decide)
  have htext : text numberText (.reciprocal l) = fraction "1" (text numberText l) := rfl
  rw [htext, numeralsMeet_fraction, or_iff_right hone]

/-! ## Numbers and symbols -/

theorem endsInNumeral_append_digits (front : List Char) {digits : List Char} (hne : digits ≠ [])
    (hdigits : AllDigits digits) : EndsInNumeral (front ++ digits) := by
  obtain ⟨digits, d, rfl⟩ := (List.eq_nil_or_concat' digits).resolve_left hne
  exact ⟨front ++ digits, d, 0, (allDigits_append.mp hdigits).2 d (List.mem_singleton_self d),
    (List.append_assoc _ _ _).symm⟩

/-- Positional notation ends in a digit. -/
theorem endsInNumeral_layPositional {cs : List Char} (hne : cs ≠ []) (hall : AllDigits cs)
    (exponent : Int) : EndsInNumeral (Style.plain.layPositional cs cs.length exponent) := by
  have hplain : Style.plain.wholePoint = false := rfl
  rw [Style.layPositional]
  split
  · exact endsInNumeral_append_digits ('0' :: '.' :: _) hne hall
  · dsimp only
    split
    · rw [hplain, if_neg Bool.false_ne_true, List.append_nil]
      exact endsInNumeral_append_digits [] (List.append_ne_nil_of_left_ne_nil hne _)
        (allDigits_append.mpr ⟨hall, allDigits_replicate_zero _⟩)
    · rename_i hlt
      rw [← List.singleton_append, ← List.append_assoc]
      refine endsInNumeral_append_digits _ (fun hnil => ?_) fun c hc =>
        hall c (List.mem_of_mem_drop hc)
      exact hlt (List.drop_eq_nil_iff.mp hnil)

/-- The text of a finite number ends in a digit. -/
theorem endsInNumeral_numberText {v : Float} (hv : v.isFinite = true) :
    EndsInNumeral (numberText v).toList := by
  rw [numberText, Formula.constantText]
  split
  · rw [integerText, integerDigits, String.toList_ofList]
    exact endsInNumeral_append_digits _ (decimalDigits_ne_nil _) (allDigits_decimalDigits _)
  · obtain ⟨negative, d, hread⟩ := Reading.isFinite_iff.mp hv
    rw [Style.text, hread]
    dsimp only
    rw [String.toList_ofList]
    have hmagnitude : EndsInNumeral (Style.plain.magnitude d) := by
      rw [Style.magnitude]
      split
      · exact endsInNumeral_layPositional (List.cons_ne_nil _ _) (by simp [AllDigits]) 0
      · rename_i hpos
        obtain ⟨hcount, hlow, hhigh, -⟩ :=
          d.shortest_spec (Reading.canonical_of_ofFloat hread) (by omega) Style.plain.tie
        have hlength := length_decimalDigits_eq hcount hlow hhigh
        have hends := endsInNumeral_layPositional (decimalDigits_ne_nil _)
          (allDigits_decimalDigits (d.shortest Style.plain.tie).1.digits)
          (d.shortest Style.plain.tie).1.exponent
        rw [hlength] at hends
        exact hends
    obtain ⟨front, c, k, hc, heq⟩ := hmagnitude
    exact ⟨signText negative ++ front, c, k, hc, by rw [heq, List.append_assoc]⟩

/-- The text of a finite number begins with a digit unless the number is negative. -/
theorem beginsWithNumeral_numberText {v : Float} (hv : v.isFinite = true) :
    BeginsWithNumeral (numberText v).toList ↔ ¬v < (0.0 : Float) := by
  obtain ⟨negative, cs, digits, shift, htext, hdecimal, hsign, -⟩ :=
    exists_decimalText_constantText hv
  obtain ⟨c, rest, rfl, hc⟩ := hdecimal.isPositional.head
  rw [htext, lt_zero_iff_realOf hv, ← hsign]
  cases negative with
  | true => exact iff_of_false (StartsPlainly.not_beginsWithNumeral
      ⟨'-', _, by decide, by decide, rfl⟩) (not_not_intro rfl)
  | false => exact iff_of_true ⟨c, rest, hc, rfl⟩ Bool.false_ne_true

theorem isTight_numberText {v : Float} (hv : v.isFinite = true) :
    IsTight (numberText v).toList := by
  obtain ⟨negative, cs, digits, shift, htext, hdecimal, -⟩ := exists_decimalText_constantText hv
  obtain ⟨c, rest, hcs, hc⟩ := hdecimal.isPositional.head
  have hdigits : BeginsWithNumeral cs := ⟨c, rest, hc, hcs⟩
  rw [htext]
  cases negative with
  | true => exact ⟨'-', cs, by decide, rfl⟩
  | false => exact hdigits.isTight

theorem blank_notMem_numberText {v : Float} (hv : v.isFinite = true) :
    ' ' ∉ (numberText v).toList := by
  obtain ⟨negative, cs, digits, shift, htext, hdecimal, -⟩ := exists_decimalText_constantText hv
  rw [htext, List.mem_append, not_or]
  refine ⟨by cases negative <;> decide, fun hmem => ?_⟩
  exact absurd (hdecimal.isPositional.isDigit_or_point ' ' hmem) (by decide)

/-- The name begins with a letter, or with anything else that is neither blank nor a digit. -/
def HasPlainStart (name : String) : Prop := StartsPlainly name.toList

/-- The text of a symbol begins as the name does, or with a mark. -/
theorem startsPlainly_symbolText (h : HasPlainStart s) : StartsPlainly (symbolText s).toList := by
  have hletter : ∀ {base : String}, StartsPlainly base.toList →
      StartsPlainly (letter base).toList := by
    intro base hbase
    rcases toList_letter base with htext | ⟨-, htext⟩
    · rwa [htext]
    · rw [htext]
      exact ⟨'\\', _, by decide, by decide, rfl⟩
  obtain ⟨base, -, ⟨rfl, htext⟩ | ⟨sub, hs, htext⟩⟩ := exists_toList_symbolText s
  · rw [htext]
    exact hletter h
  · rw [htext]
    cases hbase : base.toList with
    | nil =>
      have hempty : base = "" := String.toList_eq_nil_iff.mp hbase
      subst hempty
      exact ⟨'_', _, by decide, by decide, rfl⟩
    | cons c back =>
      refine (hletter ?_).append _
      obtain ⟨d, rest, hdigit, hblank, heq⟩ := h
      rw [hs, hbase, List.cons_append] at heq
      obtain ⟨rfl, -⟩ := List.cons.inj heq
      exact ⟨c, back, hdigit, hblank, hbase⟩

/-- Only a number that is not negative begins with a numeral as the base of a power. -/
theorem beginsWithNumeral_baseText (h : l.Printable HasPlainStart) :
    BeginsWithNumeral (baseText l).toList ↔ ∃ v, l = .number v ∧ ¬v < (0.0 : Float) := by
  have hother : StartsPlainly (baseText l).toList → (∀ v, l ≠ .number v) →
      (BeginsWithNumeral (baseText l).toList ↔ ∃ v, l = .number v ∧ ¬v < (0.0 : Float)) :=
    fun hplain hne => iff_of_false hplain.not_beginsWithNumeral fun ⟨v, hv, _⟩ => hne v hv
  cases l with
  | number v =>
    have hbinding : binding (.number v : Layout Float) = if v < (0.0 : Float) then 1 else 4 := rfl
    rw [baseText, hbinding]
    by_cases hv : v < (0.0 : Float)
    · rw [if_pos hv, if_pos (by decide)]
      refine iff_of_false (startsPlainly_parens _).not_beginsWithNumeral ?_
      rintro ⟨w, heq, hw⟩
      exact hw (Layout.number.inj heq ▸ hv)
    · rw [if_neg hv, if_neg (by decide)]
      exact iff_of_true ((beginsWithNumeral_numberText h).mpr hv) ⟨v, rfl, hv⟩
  | name s => exact hother (startsPlainly_symbolText h) (by simp)
  | sum | power | repeated | exponential =>
    exact hother (startsPlainly_parens _) (by simp)
  | quotient negative above below =>
    refine hother ?_ (by simp)
    cases negative <;> exact startsPlainly_parens _
  | reciprocal l => exact hother (startsPlainly_fraction _ _) (by simp)
  | root l =>
    exact hother (startsPlainly_append ⟨'\\', _, by decide, by decide, rfl⟩) (by simp)

/-- Only a power of a number that is not negative begins with a numeral. -/
theorem beginsWithNumeral_text_power (h : b.Printable HasPlainStart)
    (htight : IsTight (text numberText b).toList) :
    BeginsWithNumeral (text numberText (.power b e)).toList ↔
      ∃ v, b = .number v ∧ ¬v < (0.0 : Float) := by
  obtain ⟨c, back, -, hbase⟩ := isTight_baseText htight
  have hne : (baseText b).toList ≠ [] := by
    rw [hbase]
    exact List.cons_ne_nil c back
  rw [toList_text_power, List.append_assoc, beginsWithNumeral_append hne,
    beginsWithNumeral_baseText h]

end LaTeX

end SphereLab
