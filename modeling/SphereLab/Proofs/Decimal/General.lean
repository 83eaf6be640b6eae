import Mathlib
import SphereLab.Proofs.Decimal.HalfEven

/-!
# General notation

The text of a finite double in general notation stands for the double rounded to its significant
digits, in fixed or in exponent notation by the exponent of the rounded number, and has no zero at
the end of a fraction.  Fixed notation is rounded for itself, to the places that are left behind the
point, and comes out at the same number.

* `Denotes`: the real number that a text stands for.
* `IsGeneral`: the two forms of general notation.
* `denotes_setPoint`, `denotes_significant`: digits behind a sign, with the point set.
* `IsOverlong`: when there are more digits behind a point than a layout takes.
* `generalText_spec`: texts in general notation.
-/

namespace SphereLab

open Numeral

/-! ## What texts stand for -/

/-- A real number with a sign. -/
def signedReal (negative : Bool) (r : ℝ) : ℝ := if negative then -r else r

theorem abs_signedReal (negative : Bool) (r : ℝ) : |signedReal negative r| = |r| := by
  cases negative with
  | true => exact abs_neg r
  | false => rfl

theorem IsNearestMultiple.signed {count : ℕ} {x w : ℝ}
    (h : IsNearestMultiple (digitUnit count x) x w) (negative : Bool) :
    IsNearestMultiple (digitUnit count (signedReal negative x)) (signedReal negative x)
      (signedReal negative w) := by
  rw [digitUnit, abs_signedReal]
  cases negative with
  | true => exact h.neg
  | false => exact h

/-- A text is a numeral for a real number. -/
def Denotes (cs : List Char) (r : ℝ) : Prop :=
  ∃ (negative : Bool) (digits : ℕ) (exponent : ℤ),
    Numeral.scan? cs = some (.decimal negative digits exponent) ∧
      r = signedReal negative (decimalValue digits exponent)

/-- Digits, with or without more digits behind a point, and an exponent are a numeral. -/
theorem denotes_withPoint (negative : Bool) {whole fraction tail : List Char} {e : ℤ}
    (hne : whole ≠ []) (hwhole : AllDigits whole) (hfraction : AllDigits fraction)
    (htail : EndsDigits tail) (hexponent : scanExponent? tail = some e) :
    Denotes (signText negative ++ (whole ++ withPoint fraction ++ tail))
      (signedReal negative
        (decimalValue (ofDigits (whole ++ fraction)) (e - fraction.length))) := by
  refine ⟨negative, ofDigits (whole ++ fraction), e - fraction.length, ?_, rfl⟩
  obtain ⟨c, rest, rfl⟩ := List.exists_cons_of_ne_nil hne
  rw [List.cons_append, List.cons_append, scan?_signText negative (hwhole c List.mem_cons_self),
    ← List.cons_append, ← List.cons_append]
  cases fraction with
  | nil =>
    rw [withPoint, List.append_nil, scanUnsigned?_whole negative hne hwhole htail, hexponent,
      Option.map_some, List.length_nil, Nat.cast_zero, sub_zero]
  | cons d fraction =>
    rw [withPoint, scanUnsigned?_pointed negative hne hwhole hfraction htail, hexponent,
      Option.map_some]

/-- Zeros at the end of a fraction do not count. -/
theorem ofDigits_rdropWhile (whole fraction : List Char) :
    decimalValue (ofDigits (whole ++ fraction.rdropWhile (· == '0')))
        (-((fraction.rdropWhile (· == '0')).length : ℤ)) =
      decimalValue (ofDigits (whole ++ fraction)) (-(fraction.length : ℤ)) := by
  have hsplit : fraction.rdropWhile (· == '0') ++ fraction.rtakeWhile (· == '0') = fraction :=
    List.rdropWhile_append_rtakeWhile ..
  have hzeros : fraction.rtakeWhile (· == '0') =
      List.replicate (fraction.rtakeWhile (· == '0')).length '0' :=
    List.eq_replicate_of_mem fun c hc =>
      beq_iff_eq.mp (List.mem_rtakeWhile_imp (p := (· == '0')) hc)
  generalize fraction.rtakeWhile (· == '0') = dropped at hsplit hzeros
  generalize fraction.rdropWhile (· == '0') = kept at hsplit
  have hdigits : (ofDigits (whole ++ fraction) : ℝ) =
      ofDigits (whole ++ kept) * 10 ^ (dropped.length : ℤ) := by
    rw [← hsplit, hzeros, ← List.append_assoc, ofDigits_append (whole ++ kept),
      ofDigits_replicate_zero, List.length_replicate, zpow_natCast]
    push_cast
    rw [add_zero]
  have hexponent : -(kept.length : ℤ) = dropped.length + -(fraction.length : ℤ) := by
    rw [← hsplit, List.length_append]
    omega
  rw [decimalValue, decimalValue, hdigits, hexponent, zpow_add₀ (by norm_num), mul_assoc]

/-! ## The two forms -/

/-- Digits without a superfluous zero in front. -/
structure IsWhole (cs : List Char) : Prop where
  ne_nil : cs ≠ []
  allDigits : AllDigits cs
  head : cs.head? = some '0' → cs = ['0']

/-- Digits without a zero at the end. -/
structure IsFraction (cs : List Char) : Prop where
  allDigits : AllDigits cs
  last : cs.getLast? ≠ some '0'

/-- At least two digits, and no zero in front of more than two. -/
structure IsExponent (cs : List Char) (n : ℕ) : Prop where
  allDigits : AllDigits cs
  two_le : 2 ≤ cs.length
  head : 2 < cs.length → cs.head? ≠ some '0'
  value : ofDigits cs = n

/-- General notation of a number with a decimal exponent: in fixed notation from the exponent `-4`
on and below the precision, otherwise one digit before the point and a signed exponent of at least
two digits. -/
inductive IsGeneral (precision : ℕ) (exponent : ℤ) : List Char → Prop where
  | fixed {whole fraction : List Char} (hlow : -4 ≤ exponent) (hhigh : exponent < precision)
      (hwhole : IsWhole whole) (hfraction : IsFraction fraction) :
      IsGeneral precision exponent (whole ++ withPoint fraction)
  | scientific {c : Char} {fraction digits : List Char}
      (hout : exponent < -4 ∨ precision ≤ exponent) (hc : c.isDigit = true) (hne : c ≠ '0')
      (hfraction : IsFraction fraction) (hdigits : IsExponent digits exponent.natAbs) :
      IsGeneral precision exponent
        (c :: withPoint fraction ++ 'e' :: (if exponent < 0 then '-' else '+') :: digits)

theorem isFraction_rdropWhile {fraction : List Char} (h : AllDigits fraction) :
    IsFraction (fraction.rdropWhile (· == '0')) := by
  refine ⟨fun c hc => h c ((List.rdropWhile_prefix _ _).subset hc), fun hlast => ?_⟩
  have hne : fraction.rdropWhile (· == '0') ≠ [] := by
    intro hnil
    rw [hnil] at hlast
    cases hlast
  rw [List.getLast?_eq_getLast_of_ne_nil hne, Option.some_inj] at hlast
  exact List.rdropWhile_last_not (· == '0') fraction hne (beq_iff_eq.mpr hlast)

theorem stripZeros_withPoint {whole fraction : List Char} (hwhole : AllDigits whole)
    (hfraction : AllDigits fraction) :
    stripZeros (whole ++ withPoint fraction) =
      whole ++ withPoint (fraction.rdropWhile (· == '0')) := by
  cases fraction with
  | nil =>
    rw [List.rdropWhile_nil, withPoint, List.append_nil, stripZeros,
      if_neg (by simpa using hwhole.point_not_mem)]
  | cons c fraction => exact stripZeros_pointed hwhole hfraction

theorem isExponent_twoDigits (n : ℕ) : IsExponent (twoDigits n) n := by
  have hlength : 0 < (decimalDigits n).length := Nat.length_toDigits_pos
  refine ⟨allDigits_append.mpr ⟨allDigits_replicate_zero _, allDigits_decimalDigits n⟩, ?_,
    fun htwo => ?_, ?_⟩
  · rw [twoDigits, List.length_append, List.length_replicate]
    omega
  · rw [twoDigits, List.length_append, List.length_replicate] at htwo
    have hnone : 2 - (decimalDigits n).length = 0 := by omega
    have hpos : 0 < n := by
      by_contra hzero
      have hn : n = 0 := by omega
      rw [hn] at htwo
      exact absurd htwo (by decide)
    rw [twoDigits, hnone]
    exact head?_decimalDigits_ne hpos
  · rw [twoDigits, ofDigits_append, ofDigits_replicate_zero, Nat.zero_mul, Nat.zero_add,
      ofDigits_decimalDigits]

/-! ## Digits with the point set -/

theorem scanExponent?_digits_eq {digits : List Char} (hne : digits ≠ [])
    (hdigits : AllDigits digits) {exponent : ℤ} (hvalue : ofDigits digits = exponent.natAbs) :
    scanExponent? ('e' :: (if exponent < 0 then '-' else '+') :: digits) = some exponent ∧
      scanExponent? ('e' :: (signText (exponent < 0) ++ digits)) = some exponent := by
  have hempty : digits.isEmpty = false := by simpa using hne
  have hall : digits.all Char.isDigit = true := List.all_eq_true.mpr hdigits
  obtain ⟨c, rest, hcons⟩ := List.exists_cons_of_ne_nil hne
  have hc : c.isDigit = true := hdigits c (by rw [hcons]; exact List.mem_cons_self)
  have hsplit : splitSign digits = (false, digits) := by
    rw [hcons]
    exact splitSign_of_isDigit hc rest
  by_cases hneg : exponent < 0
  · have habs : -((ofDigits digits : ℕ) : ℤ) = exponent := by
      rw [hvalue]
      omega
    simp [scanExponent?, signText, splitSign, hneg, hempty, hall, habs]
  · have habs : ((ofDigits digits : ℕ) : ℤ) = exponent := by
      rw [hvalue]
      omega
    constructor
    · simp [scanExponent?, splitSign, hneg, hempty, hall, habs]
    · simp [scanExponent?, signText, hsplit, hneg, hempty, hall, habs]

/-- The digits before the point are those of the number, or a single zero. -/
theorem isWhole_take (places n : ℕ) {padded : List Char}
    (hpadded : padded =
      List.replicate (places + 1 - (decimalDigits n).length) '0' ++ decimalDigits n) :
    IsWhole (padded.take (padded.length - places)) := by
  have hall : AllDigits padded := by
    rw [hpadded]
    exact allDigits_append.mpr ⟨allDigits_replicate_zero _, allDigits_decimalDigits n⟩
  have hlength : padded.length = places + 1 - (decimalDigits n).length +
      (decimalDigits n).length := by
    rw [hpadded, List.length_append, List.length_replicate]
  refine ⟨?_, fun c hc => hall c (List.mem_of_mem_take hc), fun hhead => ?_⟩
  · refine List.ne_nil_of_length_pos ?_
    rw [List.length_take]
    omega
  · rcases Nat.lt_or_ge places (decimalDigits n).length with hlong | hshort
    · -- No zeros are put in front, so only zero begins with one.
      have hnone : places + 1 - (decimalDigits n).length = 0 := by omega
      rw [hnone, List.replicate_zero, List.nil_append] at hpadded
      rw [hpadded, List.head?_take, if_neg (by omega)] at hhead
      have hzero : n = 0 := by
        by_contra hpos
        exact head?_decimalDigits_ne (Nat.pos_of_ne_zero hpos) hhead
      have hdigits : decimalDigits 0 = ['0'] := by decide
      rw [hzero, hdigits, List.length_singleton] at hlong
      rw [hpadded, hzero, hdigits, List.length_singleton, show 1 - places = 1 by omega]
      rfl
    · obtain ⟨k, hk⟩ : ∃ k, places + 1 - (decimalDigits n).length = k + 1 :=
        ⟨places - (decimalDigits n).length, by omega⟩
      have hone : padded.length - places = 1 := by omega
      rw [hone, hpadded, hk, List.replicate_succ, List.cons_append, List.take_succ_cons,
        List.take_zero]

/-- Digits with the point set are whole digits and as many behind the point as there are places. -/
theorem exists_setPoint_eq (places n : ℕ) :
    ∃ whole fraction, setPoint places n = whole ++ withPoint fraction ∧ IsWhole whole ∧
      AllDigits fraction ∧ fraction.length = places ∧ ofDigits (whole ++ fraction) = n := by
  have hall : AllDigits
      (List.replicate (places + 1 - (decimalDigits n).length) '0' ++ decimalDigits n) :=
    allDigits_append.mpr ⟨allDigits_replicate_zero _, allDigits_decimalDigits n⟩
  have hvalue : ofDigits
      (List.replicate (places + 1 - (decimalDigits n).length) '0' ++ decimalDigits n) = n := by
    rw [ofDigits_append, ofDigits_replicate_zero, Nat.zero_mul, Nat.zero_add,
      ofDigits_decimalDigits]
  have hlength : places < (List.replicate (places + 1 - (decimalDigits n).length) '0' ++
      decimalDigits n).length := by
    rw [List.length_append, List.length_replicate]
    omega
  rw [setPoint]
  generalize hpadded : List.replicate (places + 1 - (decimalDigits n).length) '0' ++
    decimalDigits n = padded at hall hvalue hlength ⊢
  have hdrop : (padded.drop (padded.length - places)).length = places := by
    rw [List.length_drop]
    omega
  refine ⟨padded.take (padded.length - places), padded.drop (padded.length - places), ?_,
    isWhole_take places n hpadded.symm, fun c hc => hall c (List.mem_of_mem_drop hc), hdrop, ?_⟩
  · split
    · rename_i hplaces
      rw [hplaces, Nat.sub_zero, List.take_length, List.drop_length, withPoint, List.append_nil]
    · rename_i hplaces
      obtain ⟨c, rest, hcons⟩ := List.exists_cons_of_length_pos (hdrop ▸ Nat.pos_of_ne_zero hplaces)
      rw [hcons, withPoint]
  · rw [List.take_append_drop, hvalue]

theorem endsDigits_nil : EndsDigits [] := fun _ hc => absurd hc (by simp)

theorem endsDigits_exponent (cs : List Char) : EndsDigits ('e' :: cs) := by
  intro c hc
  cases hc
  decide

/-- Digits with the point set stand for the number of units of the last place. -/
theorem denotes_setPoint (negative : Bool) (places n : ℕ) :
    Denotes (signText negative ++ setPoint places n)
      (signedReal negative (decimalValue n (-(places : ℤ)))) := by
  obtain ⟨whole, fraction, heq, hwhole, hfraction, hlength, hvalue⟩ := exists_setPoint_eq places n
  have h := denotes_withPoint negative hwhole.ne_nil hwhole.allDigits hfraction endsDigits_nil rfl
  rw [List.append_nil, hvalue, hlength, zero_sub] at h
  rwa [heq]

/-- So they do without the zeros at the end. -/
theorem exists_stripZeros_setPoint (places n : ℕ) :
    ∃ whole fraction, stripZeros (setPoint places n) = whole ++ withPoint fraction ∧
      IsWhole whole ∧ IsFraction fraction ∧
      ∀ negative, Denotes (signText negative ++ stripZeros (setPoint places n))
        (signedReal negative (decimalValue n (-(places : ℤ)))) := by
  obtain ⟨whole, fraction, heq, hwhole, hfraction, hlength, hvalue⟩ := exists_setPoint_eq places n
  have hkept := isFraction_rdropWhile hfraction
  have hstrip := stripZeros_withPoint hwhole.allDigits hfraction
  refine ⟨whole, _, by rw [heq, hstrip], hwhole, hkept, fun negative => ?_⟩
  have h := denotes_withPoint negative hwhole.ne_nil hwhole.allDigits hkept.allDigits
    endsDigits_nil rfl
  rw [List.append_nil, zero_sub, ofDigits_rdropWhile, hvalue, hlength] at h
  rwa [heq, hstrip]

/-! ## Significant digits in exponent notation -/

/-- The text of significant digits has as many digits, and begins with a zero only for zero. -/
theorem exists_significant_text_eq {count : ℕ} (hcount : 1 ≤ count) (d : Dyadic) :
    ∃ c rest, (d.significant count).text count = c :: rest ∧ AllDigits (c :: rest) ∧
      rest.length = count - 1 ∧ ofDigits (c :: rest) = (d.significant count).digits ∧
      (0 < d.mantissa → c ≠ '0') := by
  obtain ⟨hall, -⟩ := allDigits_significant_text count (d.significant count)
  rcases Nat.eq_zero_or_pos d.mantissa with hzero | hpos
  · rw [Dyadic.significant, if_pos hzero] at hall ⊢
    have htext : (⟨0, 0⟩ : Significant).text count =
        '0' :: List.replicate (count - 1) '0' := rfl
    rw [htext] at hall ⊢
    refine ⟨_, _, rfl, hall, List.length_replicate, ?_, fun h => absurd hzero h.ne'⟩
    rw [← List.replicate_succ, ofDigits_replicate_zero]
  · obtain ⟨hlow, hhigh, -⟩ := Dyadic.significant_spec_of_pos hcount hpos
    generalize d.significant count = s at hall hlow hhigh ⊢
    have hlength := length_decimalDigits_eq hcount hlow hhigh
    have htext : s.text count = decimalDigits s.digits := by
      rw [Significant.text, hlength, Nat.sub_self, List.replicate_zero, List.append_nil]
    have hdigits : 0 < s.digits := (Nat.pow_pos (by decide)).trans_le hlow
    have hhead := head?_decimalDigits_ne hdigits
    have hvalue := ofDigits_decimalDigits s.digits
    rw [htext] at hall ⊢
    generalize decimalDigits s.digits = cs at hall hlength hhead hvalue
    obtain ⟨c, rest, rfl⟩ := List.exists_cons_of_length_pos (hlength ▸ hcount)
    refine ⟨c, rest, rfl, hall, ?_, hvalue, fun _ hc => hhead (by rw [hc, List.head?_cons])⟩
    rw [List.length_cons] at hlength
    omega

theorem pointAfterFirst_cons (c : Char) (rest : List Char) :
    pointAfterFirst (c :: rest) = [c] ++ withPoint rest := by
  cases rest with
  | nil => rfl
  | cons d rest => rfl

/-- The digits of a magnitude in exponent notation stand for it rounded. -/
theorem denotes_significant {count : ℕ} (hcount : 1 ≤ count) (negative : Bool) (d : Dyadic)
    {tail : List Char} (htail : EndsDigits tail)
    (hexponent : scanExponent? tail = some (d.significant count).exponent) :
    Denotes (signText negative ++ (pointAfterFirst ((d.significant count).text count) ++ tail))
        (signedReal negative ((d.significant count).value count)) ∧
      Denotes (signText negative ++
          (stripZeros (pointAfterFirst ((d.significant count).text count)) ++ tail))
        (signedReal negative ((d.significant count).value count)) := by
  obtain ⟨c, rest, htext, hall, hlength, hvalue, -⟩ := exists_significant_text_eq hcount d
  obtain ⟨hc, hrest⟩ := allDigits_cons.mp hall
  have hwhole : AllDigits [c] := allDigits_cons.mpr ⟨hc, fun _ h => absurd h List.not_mem_nil⟩
  have hshift : (d.significant count).exponent - (rest.length : ℤ) =
      (d.significant count).exponent + 1 - count := by
    rw [hlength]
    omega
  have hdecimal : decimalValue (ofDigits ([c] ++ rest))
      ((d.significant count).exponent - (rest.length : ℤ)) = (d.significant count).value count := by
    rw [List.singleton_append, hvalue, hshift, Significant.value]
  rw [htext, pointAfterFirst_cons]
  constructor
  · have h := denotes_withPoint negative (List.cons_ne_nil c []) hwhole hrest htail hexponent
    rwa [hdecimal] at h
  · have hkept := (isFraction_rdropWhile hrest).allDigits
    have h := denotes_withPoint negative (List.cons_ne_nil c []) hwhole hkept htail hexponent
    rw [sub_eq_neg_add, decimalValue_add, ofDigits_rdropWhile, ← decimalValue_add, neg_add_eq_sub,
      hdecimal] at h
    rwa [stripZeros_withPoint hwhole hrest]

/-! ## The second rounding -/

/-- Fixed notation, rounded to the places that significant digits leave, stands for the same
decimal. -/
theorem fixedDigits_eq_significant {count : ℕ} (hcount : 1 ≤ count) (d : Dyadic) {places : ℕ}
    (hplaces : (places : ℤ) = count - 1 - (d.significant count).exponent) :
    decimalValue (fixedDigits places d.num d.den) (-(places : ℤ)) =
      (d.significant count).value count := by
  obtain ⟨hround, hlog⟩ := Dyadic.significant_spec hcount d
  have hagain := hround.again hcount d.value_nonneg
  have hunit : digitUnit count ((d.significant count).value count) = 10 ^ (-(places : ℤ)) := by
    rw [digitUnit, abs_of_nonneg (Significant.value_nonneg _ _), hlog]
    congr 1
    omega
  rw [hunit] at hagain
  exact (d.isNearestMultiple_fixedDigits places).unique (zpow_pos (by norm_num) _) hagain

/-! ## General notation -/

/-- The text of a magnitude in general notation has the form of the exponent after rounding, and
stands for the rounded magnitude. -/
theorem isGeneral_of_generalMagnitude? {precision : ℕ} (hprecision : 1 ≤ precision) {d : Dyadic}
    (hpos : 0 < d.mantissa) {cs : List Char} (h : generalMagnitude? precision d = some cs) :
    IsGeneral precision (d.significant precision).exponent cs ∧
      ∀ negative, Denotes (signText negative ++ cs)
        (signedReal negative ((d.significant precision).value precision)) := by
  rw [generalMagnitude?_eq] at h
  split at h
  · exact absurd h (by simp)
  split at h
  · rename_i hout
    rw [← Option.some.inj h]
    have hdigits := isExponent_twoDigits (d.significant precision).exponent.natAbs
    have hne : twoDigits (d.significant precision).exponent.natAbs ≠ [] :=
      List.ne_nil_of_length_pos (by have := hdigits.two_le; omega)
    obtain ⟨hexponent, -⟩ := scanExponent?_digits_eq hne hdigits.allDigits hdigits.value
    refine ⟨?_, fun negative =>
      (denotes_significant hprecision negative d (endsDigits_exponent _) hexponent).2⟩
    obtain ⟨c, rest, htext, hall, -, -, hnonzero⟩ := exists_significant_text_eq hprecision d
    obtain ⟨hc, hrest⟩ := allDigits_cons.mp hall
    rw [htext, pointAfterFirst_cons, stripZeros_withPoint
      (allDigits_cons.mpr ⟨hc, fun _ h => absurd h List.not_mem_nil⟩) hrest]
    exact .scientific hout hc (hnonzero hpos) (isFraction_rdropWhile hrest) hdigits
  · rename_i hin
    rw [not_or, not_lt, not_le] at hin
    obtain ⟨hlow, hhigh⟩ := hin
    split at h
    · exact absurd h (by simp)
    rw [← Option.some.inj h]
    obtain ⟨whole, fraction, heq, hwhole, hfraction, hdenotes⟩ := exists_stripZeros_setPoint
      ((precision : ℤ) - 1 - (d.significant precision).exponent).toNat
      (fixedDigits ((precision : ℤ) - 1 - (d.significant precision).exponent).toNat d.num d.den)
    rw [fixedDigits_eq_significant hprecision d (Int.toNat_of_nonneg (by omega))] at hdenotes
    refine ⟨?_, hdenotes⟩
    rw [fixedMagnitude, heq]
    exact .fixed hlow hhigh hwhole hfraction

/-- A number with a decimal exponent is written with more digits behind a point than a layout takes:
those behind the first significant digit, or, in fixed notation, those behind the point. -/
def IsOverlong (precision : ℕ) (exponent : ℤ) : Prop :=
  precisionLimit < precision - 1 ∨
    -4 ≤ exponent ∧ exponent < precision ∧ (precisionLimit : ℤ) < precision - 1 - exponent

theorem generalMagnitude?_eq_none_iff {precision : ℕ} {d : Dyadic} :
    generalMagnitude? precision d = none ↔
      IsOverlong precision (d.significant precision).exponent := by
  rw [generalMagnitude?_eq, IsOverlong]
  split
  · rename_i hlong
    simp [hlong]
  · rename_i hlong
    rw [or_iff_right hlong]
    split
    · rename_i hout
      simp only [reduceCtorEq, false_iff]
      omega
    · rename_i hin
      split
      · simp only [true_iff]
        omega
      · simp only [reduceCtorEq, false_iff]
        omega

/-- The same of zero. -/
theorem isGeneral_zero {precision : ℕ} (hprecision : 1 ≤ precision) :
    IsGeneral precision 0 ['0'] ∧ ∀ negative, Denotes (signText negative ++ ['0'])
      (signedReal negative 0) := by
  have hwhole : IsWhole ['0'] :=
    ⟨List.cons_ne_nil _ _, allDigits_replicate_zero 1, fun _ => rfl⟩
  have hfraction : IsFraction [] := ⟨fun _ h => absurd h List.not_mem_nil, by simp⟩
  refine ⟨.fixed (by omega) (by omega) hwhole hfraction, fun negative => ?_⟩
  have h := denotes_withPoint negative hwhole.ne_nil hwhole.allDigits hfraction.allDigits
    endsDigits_nil rfl
  have hvalue : ofDigits (['0'] ++ []) = 0 := rfl
  rwa [hvalue, decimalValue_zero] at h

section Doubles

variable {x : Float} {negative : Bool} {d : Dyadic}

theorem isGeneral_of_generalText? (h : Reading.ofFloat x = .finite negative d) {precision : ℕ}
    {text : String} (htext : generalText? precision x = some text) :
    ∃ cs, text.toList = signText negative ++ cs ∧
      IsGeneral (max precision 1) (d.significant (max precision 1)).exponent cs ∧
      Denotes (signText negative ++ cs)
        (signedReal negative ((d.significant (max precision 1)).value (max precision 1))) := by
  have hprecision : 1 ≤ max precision 1 := le_max_right precision 1
  rw [generalText?, h] at htext
  obtain ⟨cs, hcs, rfl⟩ := Option.map_eq_some_iff.mp htext
  refine ⟨cs, String.toList_ofList, ?_⟩
  split at hcs
  · rename_i hzero
    rw [← Option.some.inj hcs, Dyadic.significant, if_pos hzero, Significant.value_zero]
    exact ⟨(isGeneral_zero hprecision).1, (isGeneral_zero hprecision).2 negative⟩
  · rename_i hpos
    have hmagnitude := isGeneral_of_generalMagnitude? hprecision (Nat.pos_of_ne_zero hpos) hcs
    exact ⟨hmagnitude.1, hmagnitude.2 negative⟩

theorem generalText?_eq_none_iff (h : Reading.ofFloat x = .finite negative d) (precision : ℕ) :
    generalText? precision x = none ↔
      0 < d.mantissa ∧ IsOverlong (max precision 1) (d.significant (max precision 1)).exponent := by
  rw [generalText?, h]
  dsimp only
  rw [Option.map_eq_none_iff]
  split
  · rename_i hzero
    simp [hzero]
  · rename_i hpos
    rw [generalMagnitude?_eq_none_iff, and_iff_right (Nat.pos_of_ne_zero hpos)]

theorem denotes_scientificText (h : Reading.ofFloat x = .finite negative d) (places : ℕ) :
    Denotes (scientificText places x).toList
      (signedReal negative ((d.significant (places + 1)).value (places + 1))) := by
  obtain ⟨-, hexponent⟩ := scanExponent?_digits_eq (decimalDigits_ne_nil _)
    (allDigits_decimalDigits _)
    (ofDigits_decimalDigits (d.significant (places + 1)).exponent.natAbs)
  have hdenotes :=
    (denotes_significant places.succ_pos negative d (endsDigits_exponent _) hexponent).1
  rw [scientificText, h]
  dsimp only
  rw [String.toList_ofList, List.append_assoc]
  exact hdenotes

theorem denotes_fixedText (h : Reading.ofFloat x = .finite negative d) (places : ℕ) :
    Denotes (fixedText places x).toList
      (signedReal negative (decimalValue (fixedDigits places d.num d.den) (-(places : ℤ)))) := by
  rw [fixedText, h]
  dsimp only
  rw [String.toList_ofList]
  exact denotes_setPoint negative places _

/-- **General notation.**  A finite double has a text in general notation unless it is written with
more digits behind a point than a layout takes, which needs a precision of at least 65533.  The text
is a sign and one of the two forms of general notation, and stands for the double rounded to its
significant digits; the form goes by the exponent of the rounded number.  Exponent notation and
fixed notation round to the same number. -/
theorem generalText_spec (h : Reading.ofFloat x = .finite negative d) (precision : ℕ) :
    ∃ w, IsNearestMultiple (digitUnit (max precision 1) (realOf x)) (realOf x) w ∧
      (generalText? precision x = none ↔
        0 < d.mantissa ∧ IsOverlong (max precision 1) (Int.log 10 |w|)) ∧
      (precision ≤ 65532 → ∃ text, generalText? precision x = some text) ∧
      (∀ text, generalText? precision x = some text → Denotes text.toList w ∧
        ∃ cs, text.toList = signText negative ++ cs ∧
          IsGeneral (max precision 1) (Int.log 10 |w|) cs) ∧
      Denotes (scientificText (max precision 1 - 1) x).toList w ∧
      ∀ places : ℕ, (places : ℤ) = (max precision 1 : ℕ) - 1 - Int.log 10 |w| →
        Denotes (fixedText places x).toList w := by
  have hnone := generalText?_eq_none_iff h precision
  have hform := fun text (htext : generalText? precision x = some text) =>
    isGeneral_of_generalText? h htext
  have hcount : 1 ≤ max precision 1 := le_max_right precision 1
  have hscientific := denotes_scientificText h (max precision 1 - 1)
  rw [Nat.sub_add_cancel hcount] at hscientific
  have hsome : precision ≤ 65532 → ∃ text, generalText? precision x = some text := fun hle =>
    ⟨_, generalText?_eq_some (by rw [precisionLimit]; omega) x⟩
  generalize max precision 1 = count at hcount hform hnone hscientific ⊢
  obtain ⟨hround, hlog⟩ := Dyadic.significant_spec hcount d
  have habs : Int.log 10 |signedReal negative ((d.significant count).value count)| =
      (d.significant count).exponent := by
    rw [abs_signedReal, abs_of_nonneg (Significant.value_nonneg _ _), hlog]
  refine ⟨signedReal negative ((d.significant count).value count), ?_, ?_, hsome,
    fun text htext => ?_, hscientific, fun places hplaces => ?_⟩
  · rw [realOf_of_ofFloat h]
    exact hround.signed negative
  · rw [habs, hnone]
  · obtain ⟨cs, hcs, hgeneral, hdenotes⟩ := hform text htext
    rw [habs]
    exact ⟨hcs ▸ hdenotes, cs, hcs, hgeneral⟩
  · rw [habs] at hplaces
    have hfixed := denotes_fixedText h places
    rwa [fixedDigits_eq_significant hcount d hplaces] at hfixed

end Doubles

/-- A negative double that is carried to the next power of ten: `-9.96875` with two digits is
`-10`.  With 65537 digits there is no text. -/
theorem generalText_spec_carry :
    Reading.ofFloat (-9.96875) = .finite true ⟨5611907348168704, -49⟩ ∧
      (∃ text, generalText? 2 (-9.96875) = some text ∧ Denotes text.toList (-10) ∧
        ∃ cs, text.toList = '-' :: cs ∧ IsGeneral 2 1 cs) ∧
      Denotes (scientificText 1 (-9.96875)).toList (-10) ∧
      Denotes (fixedText 0 (-9.96875)).toList (-10) ∧
      generalText? 65537 (-9.96875) = none := by
  have hread : Reading.ofFloat (-9.96875) = .finite true ⟨5611907348168704, -49⟩ := by
    decide +kernel
  have hreal : realOf (-9.96875) = -9.96875 := by
    rw [realOf_of_ofFloat hread, signedValue, Dyadic.value]
    norm_num
  have hunit : digitUnit 2 (-9.96875) = 1 / 10 := by
    have hlog : Int.log 10 |(-9.96875 : ℝ)| = 0 := log_ten_eq (by norm_num) (by norm_num)
    rw [digitUnit, hlog]
    norm_num
  have hnearest : IsNearestMultiple (1 / 10) (-9.96875) (-10) :=
    (isNearestMultiple_iff (by norm_num)).mpr ⟨-100, by norm_num, by norm_num, fun _ => by decide⟩
  obtain ⟨w, hround, -, hsome, hform, hscientific, hfixed⟩ := generalText_spec hread 2
  have hprecision : max 2 1 = 2 := rfl
  rw [hprecision, hreal, hunit] at hround
  obtain rfl := hround.unique (by norm_num) hnearest
  have hlog : Int.log 10 |(-10 : ℝ)| = 1 := log_ten_eq (by norm_num) (by norm_num)
  rw [hlog] at hform hfixed
  obtain ⟨text, htext⟩ := hsome (by norm_num)
  obtain ⟨_, -, hnone, -⟩ := generalText_spec hread 65537
  exact ⟨hread, ⟨text, htext, hform text htext⟩, hscientific, hfixed 0 (by decide),
    hnone.mpr ⟨by decide, Or.inl (by decide)⟩⟩

end SphereLab
