import Mathlib
import SphereLab.Decimal.General
import SphereLab.Decimal.Numeral
import SphereLab.Proofs.Scalar.Word

/-!
# Texts of numbers are numerals

Every text that this library makes of a number is one that it reads as a number again, and so
it is made of letters, digits, points and signs only.

* `IsPositional`: digits, with or without more digits behind a point.
* `scan?_generalText`, `scan?_fixedText`, `scan?_naturalText`: texts of numbers are numerals.
* `generalText?_eq_some`: precisions that are never too great.
* `isNumeralChar_of_scan?`: the characters of numerals.
-/

namespace SphereLab

/-! ## Positional notation -/

/-- Only digits. -/
def AllDigits (cs : List Char) : Prop := ∀ c ∈ cs, c.isDigit = true

/-- Digits, with or without more digits behind a point. -/
inductive IsPositional : List Char → Prop where
  | whole {digits : List Char} (hne : digits ≠ []) (hdigits : AllDigits digits) :
      IsPositional digits
  | pointed {digits fraction : List Char} (hne : digits ≠ []) (hdigits : AllDigits digits)
      (hfraction : AllDigits fraction) : IsPositional (digits ++ '.' :: fraction)

theorem allDigits_append {xs ys : List Char} :
    AllDigits (xs ++ ys) ↔ AllDigits xs ∧ AllDigits ys := List.forall_mem_append

theorem allDigits_cons {c : Char} {cs : List Char} :
    AllDigits (c :: cs) ↔ c.isDigit = true ∧ AllDigits cs := List.forall_mem_cons

theorem allDigits_replicate_zero (n : Nat) : AllDigits (List.replicate n '0') := by
  intro c hc
  rw [List.eq_of_mem_replicate hc]
  rfl

theorem allDigits_decimalDigits (n : Nat) : AllDigits (decimalDigits n) :=
  fun _ hc => Nat.isDigit_of_mem_toDigits (by omega) (by omega) hc

theorem decimalDigits_ne_nil (n : Nat) : decimalDigits n ≠ [] := Nat.toDigits_ne_nil

theorem AllDigits.point_not_mem {cs : List Char} (h : AllDigits cs) : '.' ∉ cs :=
  fun hmem => absurd (h '.' hmem) (by decide)

theorem IsPositional.head {cs : List Char} (h : IsPositional cs) :
    ∃ c rest, cs = c :: rest ∧ c.isDigit = true := by
  have hdigits : ∀ digits : List Char, digits ≠ [] → AllDigits digits → ∀ tail,
      ∃ c rest, digits ++ tail = c :: rest ∧ c.isDigit = true := by
    intro digits hne hdigits tail
    obtain ⟨c, rest, rfl⟩ := List.exists_cons_of_ne_nil hne
    exact ⟨c, rest ++ tail, rfl, hdigits c List.mem_cons_self⟩
  cases h with
  | whole hne hall => simpa using hdigits _ hne hall []
  | pointed hne hall _ => exact hdigits _ hne hall _

theorem IsPositional.isDigit_or_point {cs : List Char} (h : IsPositional cs) :
    ∀ c ∈ cs, c.isDigit = true ∨ c = '.' := by
  cases h with
  | whole hne hdigits => exact fun c hc => Or.inl (hdigits c hc)
  | pointed hne hdigits hfraction =>
    intro c hc
    rcases List.mem_append.mp hc with hc | hc
    · exact Or.inl (hdigits c hc)
    · exact (List.mem_cons.mp hc).elim Or.inr fun hc => Or.inl (hfraction c hc)

theorem isPositional_setPoint (places n : Nat) : IsPositional (setPoint places n) := by
  have hpadded : AllDigits
      (List.replicate (places + 1 - (decimalDigits n).length) '0' ++ decimalDigits n) :=
    allDigits_append.mpr ⟨allDigits_replicate_zero _, allDigits_decimalDigits n⟩
  have hlength : places + 1 ≤
      (List.replicate (places + 1 - (decimalDigits n).length) '0' ++ decimalDigits n).length := by
    rw [List.length_append, List.length_replicate]
    omega
  unfold setPoint
  simp only
  generalize List.replicate (places + 1 - (decimalDigits n).length) '0' ++ decimalDigits n =
    padded at hpadded hlength ⊢
  split
  · refine .whole ?_ hpadded
    rintro rfl
    simp at hlength
  · refine .pointed ?_ (fun c hc => hpadded c (List.mem_of_mem_take hc))
      (fun c hc => hpadded c (List.mem_of_mem_drop hc))
    intro hempty
    have := congrArg List.length hempty
    rw [List.length_take, List.length_nil] at this
    omega

theorem isPositional_pointAfterFirst {digits : List Char} (hne : digits ≠ [])
    (hdigits : AllDigits digits) : IsPositional (pointAfterFirst digits) := by
  cases digits with
  | nil => exact absurd rfl hne
  | cons d rest =>
    cases rest with
    | nil => exact .whole hne hdigits
    | cons e rest =>
      obtain ⟨hd, hrest⟩ := allDigits_cons.mp hdigits
      exact .pointed (List.cons_ne_nil d []) (by simpa [AllDigits] using hd) hrest

/-- Digits behind a point, or nothing if there are none. -/
def withPoint : List Char → List Char
  | [] => []
  | c :: cs => '.' :: c :: cs

/-- Dropping the zeros at the end of a fraction, and its point if nothing else is left. -/
theorem stripZeros_pointed {digits fraction : List Char} (hdigits : AllDigits digits)
    (hfraction : AllDigits fraction) :
    stripZeros (digits ++ '.' :: fraction) =
      digits ++ withPoint (fraction.rdropWhile (· == '0')) := by
  have hpoint : (digits ++ '.' :: fraction).contains '.' = true := by simp
  have hreverse : (digits ++ '.' :: fraction).reverse =
      fraction.reverse ++ '.' :: digits.reverse := by simp
  rw [stripZeros, if_pos hpoint, hreverse, List.dropWhile_append, List.rdropWhile]
  split
  · -- Nothing but zeros: the point goes too, and the digits before it stay.
    rename_i hempty
    have hdrop : List.dropWhile (fun c => c == '.') digits.reverse = digits.reverse := by
      rw [List.dropWhile_eq_self_iff]
      intro hpos
      have hmem := List.mem_reverse.mp (List.getElem_mem hpos)
      rw [beq_iff_eq]
      intro heq
      exact hdigits.point_not_mem (heq ▸ hmem)
    rw [List.isEmpty_iff.mp hempty, List.dropWhile_cons_of_neg (by decide),
      List.dropWhile_cons_of_pos (by decide), hdrop, List.reverse_reverse, List.reverse_nil,
      withPoint, List.append_nil]
  · rename_i hleft
    generalize hkept : fraction.reverse.dropWhile (fun c => c == '0') = kept at hleft
    cases kept with
    | nil => exact absurd rfl hleft
    | cons c rest =>
      have hc : ¬(c == '.') = true := by
        have hmem : c ∈ fraction.reverse.dropWhile (fun c => c == '0') := by simp [hkept]
        rw [beq_iff_eq]
        rintro rfl
        exact hfraction.point_not_mem (List.mem_reverse.mp (List.dropWhile_subset _ hmem))
      have hpointed : withPoint (c :: rest).reverse = '.' :: (c :: rest).reverse := by
        obtain ⟨e, tail, htail⟩ := List.exists_cons_of_ne_nil
          (List.reverse_ne_nil_iff.mpr (List.cons_ne_nil c rest))
        rw [htail, withPoint]
      have hdrop : (c :: rest ++ '.' :: digits.reverse).dropWhile (fun c => c == '.') =
          c :: (rest ++ '.' :: digits.reverse) := List.dropWhile_cons_of_neg hc
      rw [hdrop, hpointed]
      simp

theorem isPositional_stripZeros {cs : List Char} (h : IsPositional cs) :
    IsPositional (stripZeros cs) := by
  cases h with
  | whole hne hdigits =>
    rw [stripZeros, if_neg (by simpa using hdigits.point_not_mem)]
    exact .whole hne hdigits
  | @pointed digits fraction hne hdigits hfraction =>
    rw [stripZeros_pointed hdigits hfraction]
    have hkept : AllDigits (fraction.rdropWhile (· == '0')) := fun c hc =>
      hfraction c ((List.rdropWhile_prefix _ _).subset hc)
    generalize fraction.rdropWhile (· == '0') = kept at hkept
    cases kept with
    | nil =>
      rw [withPoint, List.append_nil]
      exact .whole hne hdigits
    | cons c rest => exact .pointed hne hdigits hkept

theorem isPositional_fixedMagnitude (places : Nat) (d : Dyadic) :
    IsPositional (fixedMagnitude places d) := isPositional_setPoint _ _

/-! ## Recognising texts of numbers -/

namespace Numeral

theorem toLower_of_isDigit {c : Char} (h : c.isDigit = true) : c.toLower = c := by
  have hdigit := Char.isDigit_iff_toNat.mp h
  have hupper : ¬('A'.val ≤ c.val ∧ c.val ≤ 'Z'.val) := by
    intro hc
    have hle := UInt32.le_iff_toNat_le.mp hc.1
    have hval : c.val.toNat = c.toNat := rfl
    have h9 : '9'.toNat = 57 := rfl
    have hA : 'A'.val.toNat = 65 := rfl
    omega
  rw [Char.toLower]
  exact dif_neg hupper

/-- What follows the digits of a numeral starts with neither a digit nor a point. -/
def EndsDigits (tail : List Char) : Prop := ∀ c ∈ tail.head?, c.isDigit = false ∧ c ≠ '.'

theorem takeWhile_isDigit {digits : List Char} (tail : List Char) (hdigits : AllDigits digits)
    (htail : ∀ c ∈ tail.head?, c.isDigit = false) :
    (digits ++ tail).takeWhile Char.isDigit = digits ∧
      (digits ++ tail).dropWhile Char.isDigit = tail := by
  rw [List.takeWhile_append_of_pos hdigits, List.dropWhile_append_of_pos hdigits]
  cases tail with
  | nil => simp
  | cons c rest =>
    have hc : ¬c.isDigit = true := by simp [htail c rfl]
    rw [List.takeWhile_cons_of_neg hc, List.dropWhile_cons_of_neg hc, List.append_nil]
    exact ⟨rfl, rfl⟩

/-- Digits do not begin a word. -/
theorem not_word {digits tail : List Char} (hne : digits ≠ []) (hdigits : AllDigits digits)
    {c : Char} {rest : List Char} (hc : c.isDigit = false) :
    (digits ++ tail).map Char.toLower ≠ c :: rest := by
  cases digits with
  | nil => exact absurd rfl hne
  | cons d digits =>
    have hd : d.isDigit = true := hdigits d List.mem_cons_self
    rw [List.cons_append, List.map_cons, toLower_of_isDigit hd]
    intro h
    rw [List.cons.injEq] at h
    rw [h.1, hc] at hd
    exact absurd hd (by decide)

theorem scanUnsigned?_whole (negative : Bool) {digits tail : List Char} (hne : digits ≠ [])
    (hdigits : AllDigits digits) (htail : EndsDigits tail) :
    scanUnsigned? negative (digits ++ tail) =
      (scanExponent? tail).map fun e => .decimal negative (ofDigits digits) e := by
  obtain ⟨htake, hdrop⟩ := takeWhile_isDigit tail hdigits fun c hc => (htail c hc).1
  have hfraction : splitFraction tail = ([], tail) := by
    cases tail with
    | nil => rfl
    | cons c rest =>
      have hc : c ≠ '.' := (htail c rfl).2
      unfold splitFraction
      split
      · rename_i heq
        exact absurd (List.cons.inj heq).1 hc
      · rfl
  have hempty : digits.isEmpty = false := by simpa using hne
  rw [scanUnsigned?]
  simp only [not_word hne hdigits (show 'n'.isDigit = false by decide),
    not_word hne hdigits (show 'i'.isDigit = false by decide), if_false, or_self, htake, hdrop,
    hfraction, hempty, Bool.false_and, Bool.false_eq_true, List.append_nil, List.length_nil,
    Int.natCast_zero, Int.sub_zero]

theorem scanUnsigned?_pointed (negative : Bool) {digits fraction tail : List Char}
    (hne : digits ≠ []) (hdigits : AllDigits digits) (hfraction : AllDigits fraction)
    (htail : EndsDigits tail) :
    scanUnsigned? negative (digits ++ '.' :: fraction ++ tail) =
      (scanExponent? tail).map fun e =>
        .decimal negative (ofDigits (digits ++ fraction)) (e - fraction.length) := by
  have hassoc : digits ++ '.' :: fraction ++ tail = digits ++ '.' :: (fraction ++ tail) := by simp
  obtain ⟨htake, hdrop⟩ := takeWhile_isDigit ('.' :: (fraction ++ tail)) hdigits
    (by simp)
  obtain ⟨htake', hdrop'⟩ := takeWhile_isDigit tail hfraction fun c hc => (htail c hc).1
  have hempty : digits.isEmpty = false := by simpa using hne
  rw [scanUnsigned?, hassoc]
  simp only [not_word hne hdigits (show 'n'.isDigit = false by decide),
    not_word hne hdigits (show 'i'.isDigit = false by decide), if_false, or_self, htake, hdrop,
    splitFraction, htake', hdrop', hempty, Bool.false_and, Bool.false_eq_true]

/-- Positional notation with an exponent, or with none, is a numeral. -/
theorem scanUnsigned?_positional (negative : Bool) {cs tail : List Char} (h : IsPositional cs)
    (htail : EndsDigits tail) (hexponent : (scanExponent? tail).isSome = true) :
    (scanUnsigned? negative (cs ++ tail)).isSome = true := by
  cases h with
  | whole hne hdigits =>
    rw [scanUnsigned?_whole negative hne hdigits htail, Option.isSome_map]
    exact hexponent
  | pointed hne hdigits hfraction =>
    rw [scanUnsigned?_pointed negative hne hdigits hfraction htail, Option.isSome_map]
    exact hexponent

theorem splitSign_of_isDigit {c : Char} (hc : c.isDigit = true) (rest : List Char) :
    splitSign (c :: rest) = (false, c :: rest) := by
  unfold splitSign
  split
  · rename_i heq
    rw [(List.cons.inj heq).1] at hc
    exact absurd hc (by decide)
  · rename_i heq
    rw [(List.cons.inj heq).1] at hc
    exact absurd hc (by decide)
  · rfl

theorem scan?_signText (negative : Bool) {c : Char} (hc : c.isDigit = true) (rest : List Char) :
    scan? (signText negative ++ c :: rest) = scanUnsigned? negative (c :: rest) := by
  cases negative with
  | true => rfl
  | false =>
    rw [signText, if_neg (by decide), List.nil_append, scan?, splitSign_of_isDigit hc]

/-- Positional notation with a sign and an exponent, or without them, is a numeral. -/
theorem scan?_positional (negative : Bool) {cs : List Char} (h : IsPositional cs)
    (tail : List Char) (htail : EndsDigits tail) (hexponent : (scanExponent? tail).isSome = true) :
    (scan? (signText negative ++ (cs ++ tail))).isSome = true := by
  obtain ⟨c, rest, rfl, hc⟩ := h.head
  rw [List.cons_append, scan?_signText negative hc]
  exact scanUnsigned?_positional negative h htail hexponent

theorem scanExponent?_digits {digits : List Char} (hne : digits ≠ []) (hdigits : AllDigits digits)
    (negative : Bool) :
    (scanExponent? ('e' :: (if negative then '-' else '+') :: digits)).isSome = true := by
  have hempty : digits.isEmpty = false := by simpa using hne
  have hall : digits.all Char.isDigit = true := List.all_eq_true.mpr hdigits
  cases negative <;> simp [scanExponent?, splitSign, hempty, hall]

end Numeral

theorem allDigits_significant_text (count : Nat) (s : Significant) :
    AllDigits (s.text count) ∧ s.text count ≠ [] := by
  refine ⟨allDigits_append.mpr ⟨allDigits_decimalDigits _, allDigits_replicate_zero _⟩, ?_⟩
  exact List.append_ne_nil_of_left_ne_nil (decimalDigits_ne_nil _) _

theorem scan?_naturalText (n : Nat) : (Numeral.scan? (naturalText n).toList).isSome = true := by
  have h := Numeral.scan?_positional false
    (.whole (decimalDigits_ne_nil n) (allDigits_decimalDigits n)) []
    (fun _ hc => absurd hc (by simp)) rfl
  rw [naturalText, String.toList_ofList]
  rwa [List.append_nil] at h

theorem scan?_fixedText (places : Nat) (x : Float) :
    (Numeral.scan? (fixedText places x).toList).isSome = true := by
  rw [fixedText]
  split
  · rfl
  · rename_i negative _
    cases negative <;> rfl
  · rename_i negative d _
    have h := Numeral.scan?_positional negative (isPositional_fixedMagnitude places d) []
      (fun _ hc => absurd hc (by simp)) rfl
    rw [String.toList_ofList]
    rwa [List.append_nil] at h

/-! ## General notation -/

/-- A precision that a layout takes is the same as a signed integer of thirty-two bits, so general
notation can be looked at without that reading of it. -/
theorem generalMagnitude?_eq (precision : Nat) (d : Dyadic) : generalMagnitude? precision d =
    if precisionLimit < precision - 1 then none
    else if (d.significant precision).exponent < -4 ∨
        (precision : Int) ≤ (d.significant precision).exponent then
      some (stripZeros (pointAfterFirst ((d.significant precision).text precision)) ++
        'e' :: (if (d.significant precision).exponent < 0 then '-' else '+') ::
          twoDigits (d.significant precision).exponent.natAbs)
    else if precisionLimit < ((precision : Int) - 1 - (d.significant precision).exponent).toNat then
      none
    else some (stripZeros
      (fixedMagnitude ((precision : Int) - 1 - (d.significant precision).exponent).toNat d)) := by
  rw [generalMagnitude?]
  split
  · rfl
  · rename_i htaken
    rw [precisionLimit, Nat.not_lt] at htaken
    have hcast : Int.bmod precision (Nat.pow 2 32) = precision :=
      (bmod_natCast_eq_iff precision).mpr (by omega)
    rw [hcast]

/-- A magnitude in general notation is in positional notation, with an exponent or without. -/
theorem eq_append_of_generalMagnitude? {precision : Nat} {d : Dyadic} {text : List Char}
    (h : generalMagnitude? precision d = some text) :
    ∃ cs tail, text = cs ++ tail ∧ IsPositional cs ∧ Numeral.EndsDigits tail ∧
      (Numeral.scanExponent? tail).isSome = true := by
  rw [generalMagnitude?_eq] at h
  generalize d.significant precision = s at h
  obtain ⟨hdigits, hne⟩ := allDigits_significant_text precision s
  have hexponent : AllDigits (twoDigits s.exponent.natAbs) :=
    allDigits_append.mpr ⟨allDigits_replicate_zero _, allDigits_decimalDigits _⟩
  have htwo : twoDigits s.exponent.natAbs ≠ [] :=
    List.append_ne_nil_of_right_ne_nil _ (decimalDigits_ne_nil _)
  split at h
  · exact absurd h (by simp)
  · split at h
    · rw [← Option.some.inj h]
      refine ⟨_, _, rfl, isPositional_stripZeros (isPositional_pointAfterFirst hne hdigits),
        fun c hc => ?_, ?_⟩
      · cases hc
        decide
      · have hsign := Numeral.scanExponent?_digits htwo hexponent (decide (s.exponent < 0))
        simpa only [decide_eq_true_eq] using hsign
    · split at h
      · exact absurd h (by simp)
      · rw [← Option.some.inj h]
        exact ⟨_, [], (List.append_nil _).symm,
          isPositional_stripZeros (isPositional_fixedMagnitude _ d),
          fun _ hc => absurd hc (by simp), rfl⟩

/-- A precision is not too great for any magnitude if there is room for the zeros that positional
notation may have behind the point. -/
theorem exists_generalMagnitude? {precision : Nat} (hone : 1 ≤ precision)
    (h : precision + 3 ≤ precisionLimit) (d : Dyadic) :
    ∃ cs, generalMagnitude? precision d = some cs := by
  rw [generalMagnitude?_eq, if_neg (by omega)]
  split
  · exact ⟨_, rfl⟩
  · rename_i hin
    rw [if_neg (by omega)]
    exact ⟨_, rfl⟩

theorem generalText?_eq_some {precision : Nat} (h : precision + 3 ≤ precisionLimit) (x : Float) :
    generalText? precision x = some (generalText precision x) := by
  obtain ⟨text, htext⟩ : ∃ text, generalText? precision x = some text := by
    rw [generalText?]
    split
    · exact ⟨_, rfl⟩
    · exact ⟨_, rfl⟩
    · rename_i negative d _
      split
      · exact ⟨_, rfl⟩
      · have hlimit : max precision 1 + 3 ≤ precisionLimit := by
          rw [precisionLimit] at h ⊢
          omega
        obtain ⟨cs, hcs⟩ := exists_generalMagnitude? (le_max_right precision 1) hlimit d
        exact ⟨_, by rw [hcs, Option.map_some]⟩
  rw [generalText, htext, Option.getD_some]

/-- A number in general notation is a numeral. -/
theorem scan?_of_generalText? {precision : Nat} {x : Float} {text : String}
    (h : generalText? precision x = some text) : (Numeral.scan? text.toList).isSome = true := by
  rw [generalText?] at h
  split at h
  · rw [← Option.some.inj h]
    rfl
  · rename_i negative _
    rw [← Option.some.inj h]
    cases negative <;> rfl
  · rename_i negative d _
    obtain ⟨cs, hcs, rfl⟩ := Option.map_eq_some_iff.mp h
    rw [String.toList_ofList]
    split at hcs
    · rw [← Option.some.inj hcs]
      cases negative <;> rfl
    · obtain ⟨front, tail, rfl, hfront, htail, hexponent⟩ := eq_append_of_generalMagnitude? hcs
      exact Numeral.scan?_positional negative hfront tail htail hexponent

theorem scan?_generalText {precision : Nat} (h : precision + 3 ≤ precisionLimit) (x : Float) :
    (Numeral.scan? (generalText precision x).toList).isSome = true :=
  scan?_of_generalText? (generalText?_eq_some h x)

theorem scan?_general (x : Float) : (Numeral.scan? (general x).toList).isSome = true :=
  scan?_generalText (by decide) x

/-! ## Characters of numerals -/

/-- A character that a numeral may have. -/
def isNumeralChar (c : Char) : Bool := c.isAlphanum || c == '+' || c == '-' || c == '.'

namespace Numeral

theorem isNumeralChar_of_isDigit {c : Char} (h : c.isDigit = true) : isNumeralChar c = true := by
  simp [isNumeralChar, Char.isAlphanum, h]

/-- A character is a letter if its small form is. -/
theorem isNumeralChar_of_toLower {c : Char} (h : c.toLower.isLower = true) :
    isNumeralChar c = true := by
  by_cases hc : c.isUpper = true
  · simp [isNumeralChar, Char.isAlphanum, Char.isAlpha, hc]
  · have hsame : c.toLower = c := by
      rw [Char.toLower]
      exact dif_neg (by simpa [Char.isUpper] using hc)
    rw [hsame] at h
    simp [isNumeralChar, Char.isAlphanum, Char.isAlpha, h]

theorem isNumeralChar_of_map_toLower {cs word : List Char} (h : cs.map Char.toLower = word)
    (hword : word.all Char.isLower = true) : ∀ c ∈ cs, isNumeralChar c = true :=
  fun _ hc => isNumeralChar_of_toLower
    (List.all_eq_true.mp hword _ (h ▸ List.mem_map_of_mem hc))

/-- The characters of a sign, and of what follows it. -/
theorem isNumeralChar_of_splitSign {cs : List Char}
    (h : ∀ c ∈ (splitSign cs).2, isNumeralChar c = true) : ∀ c ∈ cs, isNumeralChar c = true := by
  unfold splitSign at h
  split at h
  · exact List.forall_mem_cons.mpr ⟨by decide, h⟩
  · exact List.forall_mem_cons.mpr ⟨by decide, h⟩
  · exact h

theorem isNumeralChar_of_scanExponent? {cs : List Char} {e : Int}
    (h : scanExponent? cs = some e) : ∀ c ∈ cs, isNumeralChar c = true := by
  cases cs with
  | nil => simp
  | cons c rest =>
    rw [scanExponent?] at h
    split at h
    · rename_i hc
      simp only at h
      split at h
      · exact absurd h (by simp)
      · rename_i hdigits
        simp only [Bool.or_eq_true, not_or, Bool.not_eq_true', Bool.not_eq_false] at hdigits
        have hall := List.all_eq_true.mp hdigits.2
        refine List.forall_mem_cons.mpr ⟨?_, isNumeralChar_of_splitSign ?_⟩
        · rcases hc with rfl | rfl <;> decide
        · intro d hd
          exact isNumeralChar_of_isDigit (hall d hd)
    · exact absurd h (by simp)

/-- The characters of a point with digits behind it, and of what follows them. -/
theorem isNumeralChar_of_splitFraction {cs : List Char}
    (h : ∀ c ∈ (splitFraction cs).2, isNumeralChar c = true) :
    ∀ c ∈ cs, isNumeralChar c = true := by
  unfold splitFraction at h
  split at h
  · rename_i rest
    intro c hc
    rcases List.mem_cons.mp hc with rfl | hc
    · decide
    · rw [← List.takeWhile_append_dropWhile (p := Char.isDigit) (l := rest)] at hc
      rcases List.mem_append.mp hc with hc | hc
      · exact isNumeralChar_of_isDigit (List.mem_takeWhile_imp hc)
      · exact h c hc
  · exact h

theorem isNumeralChar_of_scanUnsigned? {negative : Bool} {cs : List Char}
    (h : (scanUnsigned? negative cs).isSome = true) : ∀ c ∈ cs, isNumeralChar c = true := by
  rw [scanUnsigned?] at h
  split at h
  · rename_i hword
    exact isNumeralChar_of_map_toLower hword rfl
  · split at h
    · rename_i hword
      rcases hword with hword | hword <;> exact isNumeralChar_of_map_toLower hword rfl
    · split at h
      rename_i tail hsplit
      dsimp only at h
      split at h
      · exact absurd h (by simp)
      · rw [Option.isSome_map, Option.isSome_iff_exists] at h
        obtain ⟨e, he⟩ := h
        have htail : ∀ c ∈ (splitFraction (cs.dropWhile Char.isDigit)).2,
            isNumeralChar c = true := by
          rw [hsplit]
          exact isNumeralChar_of_scanExponent? he
        intro c hc
        rw [← List.takeWhile_append_dropWhile (p := Char.isDigit) (l := cs)] at hc
        rcases List.mem_append.mp hc with hc | hc
        · exact isNumeralChar_of_isDigit (List.mem_takeWhile_imp hc)
        · exact isNumeralChar_of_splitFraction htail c hc

end Numeral

/-- A numeral has only letters, digits, points and signs. -/
theorem isNumeralChar_of_scan? {cs : List Char} (h : (Numeral.scan? cs).isSome = true) :
    ∀ c ∈ cs, isNumeralChar c = true :=
  Numeral.isNumeralChar_of_splitSign (Numeral.isNumeralChar_of_scanUnsigned? h)

end SphereLab
