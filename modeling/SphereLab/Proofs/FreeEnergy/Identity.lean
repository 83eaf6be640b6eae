import Mathlib
import SphereLab.Proofs.Decimal.General
import SphereLab.Proofs.FreeEnergy.Commands

/-!
# What the name of a periodic step identifies

The file of a step stands for the run that wrote it, so its name should tell which run that was.
The name has the filling fractions with six digits, and the command asks for them with twelve.  So
the name settles everything about the command but the digits behind the sixth: the program, which
depends on whether the step starts at zero, is the same for all steps of one name.

* `append_naturalText_inj_iff`: a number at the end of a text can be told from what is before it.
* `beq_zero_iff_general`: six digits show whether a double is zero.
* `nameAt_periodic_eq_iff`: what two names of periodic steps agree on.
* `periodic_output_and_command`: when two periodic steps have one file, and when they have one
  command.
-/

namespace SphereLab

open Numeral

/-! ## Numbers at the end of a text -/

theorem naturalText_inj_iff {m n : ℕ} : naturalText m = naturalText n ↔ m = n := by
  constructor
  · intro h
    rw [naturalText, naturalText, String.ofList_inj] at h
    rw [← ofDigits_decimalDigits m, h, ofDigits_decimalDigits]
  · rintro rfl
    rfl

/-- A number behind a text that does not end in a digit: read backwards, the digits are over where
the text begins. -/
theorem append_naturalText_inj_iff {s t : String} {m n : ℕ}
    (hs : ∀ c ∈ s.toList.getLast?, c.isDigit = false)
    (ht : ∀ c ∈ t.toList.getLast?, c.isDigit = false) :
    s ++ naturalText m = t ++ naturalText n ↔ s = t ∧ m = n := by
  constructor
  · intro h
    have hback : ∀ (u : String) (k : ℕ), (u ++ naturalText k).toList.reverse =
        (decimalDigits k).reverse ++ u.toList.reverse := by
      intro u k
      rw [String.toList_append, List.reverse_append, naturalText, String.toList_ofList]
    have hsplit : ∀ (u : String) (k : ℕ), (∀ c ∈ u.toList.getLast?, c.isDigit = false) →
        ((decimalDigits k).reverse ++ u.toList.reverse).dropWhile Char.isDigit =
          u.toList.reverse := by
      intro u k hu
      refine (takeWhile_isDigit u.toList.reverse ?_ ?_).2
      · intro c hc
        exact allDigits_decimalDigits k c (List.mem_reverse.mp hc)
      · rw [List.head?_reverse]
        exact hu
    have htext : s = t := by
      rw [← String.toList_inj, ← List.reverse_inj, ← hsplit s m hs, ← hsplit t n ht, ← hback,
        ← hback, h]
    subst htext
    rw [String.append_right_inj, naturalText_inj_iff] at h
    exact ⟨rfl, h⟩
  · rintro ⟨rfl, rfl⟩
    rfl

/-! ## Zero in decimal -/

theorem Denotes.unique {cs : List Char} {r r' : ℝ} (h : Denotes cs r) (h' : Denotes cs r') :
    r = r' := by
  obtain ⟨negative, digits, exponent, hscan, rfl⟩ := h
  obtain ⟨negative', digits', exponent', hscan', rfl⟩ := h'
  rw [hscan, Option.some.injEq, Numeral.decimal.injEq] at hscan'
  obtain ⟨rfl, rfl, rfl⟩ := hscan'
  rfl

namespace Reading

/-- The double zero and its negative are the doubles that equal zero. -/
theorem beq_zero_iff {x : Float} :
    (x == 0) = true ↔ ∃ negative d, ofFloat x = .finite negative d ∧ d.mantissa = 0 := by
  have hzero : ofFloat 0 = .finite false ⟨0, -1074⟩ := by decide +kernel
  have hzero' : realOf 0 = 0 := by
    rw [realOf_of_ofFloat hzero, signedValue_of_mantissa_eq_zero rfl]
  have hfinite : (0 : Float).isFinite = true := isFinite_iff.mpr ⟨_, _, hzero⟩
  have hbeq : (x == 0) = (x.toModel.unpack.compare (0 : Float).toModel.unpack == some .eq) := rfl
  cases h : ofFloat x with
  | nan =>
    have hnone : (unpacked .nan).compare (unpacked (.finite false ⟨0, -1074⟩)) = none := rfl
    rw [hbeq, unpack_eq, unpack_eq, h, hzero, hnone]
    simp
  | infinite negative =>
    have hsome : (unpacked (.infinite negative)).compare (unpacked (.finite false ⟨0, -1074⟩)) =
        some (if negative then .lt else .gt) := by
      cases negative <;> rfl
    rw [hbeq, unpack_eq, unpack_eq, h, hzero, hsome]
    cases negative <;> simp
  | finite negative d =>
    rw [beq_iff_realOf_eq (isFinite_iff.mpr ⟨_, _, h⟩) hfinite, hzero', realOf_of_ofFloat h]
    constructor
    · intro hvalue
      refine ⟨negative, d, rfl, ?_⟩
      by_contra hne
      have hpos := Dyadic.value_pos (Nat.pos_of_ne_zero hne)
      cases negative <;> simp [signedValue] at hvalue <;> linarith
    · rintro ⟨negative', d', heq, hmantissa⟩
      obtain ⟨rfl, rfl⟩ := Reading.finite.inj heq
      exact signedValue_of_mantissa_eq_zero hmantissa negative

end Reading

/-- The significant digits of a magnitude above zero are not all zero. -/
theorem Dyadic.significant_value_pos {count : ℕ} (hcount : 1 ≤ count) {d : Dyadic}
    (hpos : 0 < d.mantissa) : 0 < (d.significant count).value count := by
  obtain ⟨hlow, -⟩ := Dyadic.significant_spec_of_pos hcount hpos
  have hdigits : (0 : ℝ) < (d.significant count).digits := by
    exact_mod_cast (Nat.pow_pos (by decide)).trans_le hlow
  rw [Significant.value, decimalValue]
  positivity

/-- A zero has one text for every number of digits, which shows its sign. -/
theorem generalText_of_beq_zero {x : Float} (h : (x == 0) = true) (precision : ℕ) :
    generalText precision x = general x ∧ (general x = "0" ∨ general x = "-0") := by
  obtain ⟨negative, d, hread, hzero⟩ := Reading.beq_zero_iff.mp h
  have htext : ∀ precision,
      generalText precision x = String.ofList (signText negative ++ ['0']) := by
    intro precision
    simp [generalText, generalText?, hread, hzero]
  refine ⟨by rw [general, htext, htext], ?_⟩
  rw [general, htext]
  cases negative with
  | false => exact Or.inl rfl
  | true => exact Or.inr rfl

/-- Six digits show whether a double is zero. -/
theorem beq_zero_iff_general {x : Float} :
    (x == 0) = true ↔ general x = "0" ∨ general x = "-0" := by
  refine ⟨fun h => (generalText_of_beq_zero h 6).2, fun htext => ?_⟩
  have hdenotes : Denotes (general x).toList 0 := by
    have hprecision : 1 ≤ 6 := by decide
    have hzero := (isGeneral_zero hprecision).2
    rcases htext with htext | htext
    · rw [htext]
      simpa [signText, signedReal] using hzero false
    · rw [htext]
      simpa [signText, signedReal] using hzero true
  cases hread : Reading.ofFloat x with
  | nan => simp [general, generalText, generalText?, hread] at htext
  | infinite negative =>
    cases negative <;> simp [general, generalText, generalText?, hread] at htext
  | finite negative d =>
    obtain ⟨cs, hcs, -, hvalue⟩ :=
      isGeneral_of_generalText? hread (generalText?_eq_some (by decide) x : _ = some (general x))
    rw [← hcs] at hvalue
    have hzero := congrArg abs (hvalue.unique hdenotes)
    rw [abs_signedReal, abs_zero, abs_eq_zero] at hzero
    refine Reading.beq_zero_iff.mpr ⟨negative, d, hread, ?_⟩
    by_contra hne
    exact (Dyadic.significant_value_pos (by decide) (Nat.pos_of_ne_zero hne)).ne' hzero

/-! ## Files in one folder -/

theorem joinPath_right_inj_iff (base : String) {path path' : String}
    (h : path.startsWith "/" = false) (h' : path'.startsWith "/" = false) :
    joinPath base path = joinPath base path' ↔ path = path' := by
  have hrelative : ∀ s : String, s.startsWith "/" = false → joinPath base s =
      if base.isEmpty || base.endsWith "/" then base ++ s else base ++ "/" ++ s := by
    intro s hs
    rw [joinPath, if_neg (by simp [hs])]
  rw [hrelative path h, hrelative path' h']
  split
  · rw [String.append_right_inj]
  · rw [String.append_right_inj]

namespace SweepPlan

variable {p q : SweepPlan Float}

theorem output_eq_iff_nameAt (hfolder : p.folder = q.folder) (i j : ℕ) (x y : Float) :
    (p.stepAt i x).output = (q.stepAt j y).output ↔
      p.nameAt x (p.next i x) = q.nameAt y (q.next j y) := by
  have hp := (p.isName_output x (p.next i x)).isRelative.slash
  have hq := (q.isName_output y (q.next j y)).isRelative.slash
  simp only [SweepStep.output, stepAt]
  rw [hfolder, joinPath_right_inj_iff _ hp hq, String.append_left_inj]

/-! ## Periodic steps -/

section Periodic

variable {start start' : Float} (hp : p.flavor = .periodic start) (hq : q.flavor = .periodic start')
include hp hq

/-- Two periodic steps have one name exactly if they agree on the numbers in it, fractions to six
digits. -/
theorem nameAt_periodic_eq_iff (x xSmall y ySmall : Float) :
    p.nameAt x xSmall = q.nameAt y ySmall ↔
      general x = general y ∧ general xSmall = general ySmall ∧
        p.spheres = q.spheres ∧ p.iterations = q.iterations ∧ p.seed = q.seed := by
  have hlast : ∀ (s t : String) (c : Char), t.toList.getLast? = some c → c.isDigit = false →
      ∀ c' ∈ (s ++ t).toList.getLast?, c'.isDigit = false := by
    intro s t c hc hdigit c' hc'
    rw [String.toList_append, List.getLast?_append, hc] at hc'
    obtain rfl := Option.some.inj hc'
    exact hdigit
  simp only [nameAt, hp, hq]
  rw [append_naturalText_inj_iff (hlast _ _ 'd' rfl rfl) (hlast _ _ 'd' rfl rfl),
    String.append_left_inj,
    append_naturalText_inj_iff (hlast _ _ 's' rfl rfl) (hlast _ _ 's' rfl rfl),
    String.append_left_inj,
    append_naturalText_inj_iff (hlast _ _ 'N' rfl rfl) (hlast _ _ 'N' rfl rfl),
    String.append_left_inj, fractionTexts_inj_iff, and_assoc, and_assoc, and_assoc]

/-- A command tells the name of the run and the fractions to twelve digits.  Steps of one name start
at zero together, so they run one program. -/
theorem commandAt_periodic_eq_iff (hdata : p.dataFolder = q.dataFolder)
    (hbin : p.binFolder = q.binFolder) (x xSmall y ySmall : Float) :
    p.commandAt x xSmall = q.commandAt y ySmall ↔
      p.nameAt x xSmall = q.nameAt y ySmall ∧ generalText 12 x = generalText 12 y ∧
        generalText 12 xSmall = generalText 12 ySmall := by
  have hsame := nameAt_periodic_eq_iff hp hq x xSmall y ySmall
  have hprogram : p.program = q.program := by rw [program, program, hbin]
  have hfolder : p.folder = q.folder := by simp only [folder, hp, hq, hdata]
  have hiterations : p.nameAt x xSmall = q.nameAt y ySmall → p.iterations = q.iterations :=
    fun hname => (hsame.mp hname).2.2.2.1
  have hzero : p.nameAt x xSmall = q.nameAt y ySmall → ((x == 0) = true ↔ (y == 0) = true) := by
    intro hname
    rw [beq_zero_iff_general, beq_zero_iff_general, (hsame.mp hname).1]
  simp only [commandAt, hp, hq, hprogram, hfolder]
  by_cases hx : (x == 0) = true
  · by_cases hy : (y == 0) = true
    · -- The command does not have the fraction zero, but the name has it with its sign.
      have htwelve : p.nameAt x xSmall = q.nameAt y ySmall →
          generalText 12 x = generalText 12 y := by
        intro hname
        rw [(generalText_of_beq_zero hx 12).1, (generalText_of_beq_zero hy 12).1,
          (hsame.mp hname).1]
      simp only [hx, hy, if_true, List.cons_append, List.nil_append, List.cons.injEq, true_and,
        and_true, naturalText_inj_iff]
      constructor
      · rintro ⟨-, hname, hxSmall⟩
        exact ⟨hname, htwelve hname, hxSmall⟩
      · rintro ⟨hname, -, hxSmall⟩
        exact ⟨hiterations hname, hname, hxSmall⟩
    · have hne : p.nameAt x xSmall ≠ q.nameAt y ySmall := fun hname => hy ((hzero hname).mp hx)
      simp [hx, hy, hne]
  · by_cases hy : (y == 0) = true
    · have hne : p.nameAt x xSmall ≠ q.nameAt y ySmall := fun hname => hx ((hzero hname).mpr hy)
      simp [hx, hy, hne]
    · simp only [hx, hy, if_false, List.cons_append, List.nil_append, List.cons.injEq, true_and,
        and_true, naturalText_inj_iff, Bool.false_eq_true]
      constructor
      · rintro ⟨htwelve, -, hname, hxSmall⟩
        exact ⟨hname, htwelve, hxSmall⟩
      · rintro ⟨hname, htwelve, hxSmall⟩
        exact ⟨htwelve, hiterations hname, hname, hxSmall⟩

/-- **What a file of a periodic sweep identifies.**  Two steps have one file exactly if they agree
on the numbers of the run and on six digits of both fractions, and one command exactly if they have
one file and agree on twelve digits.  The program is always that of the file, and the whole command
is if six digits write the fractions in full. -/
theorem periodic_output_and_command (hdata : p.dataFolder = q.dataFolder)
    (hbin : p.binFolder = q.binFolder) (i j : ℕ) (x y : Float) :
    ((p.stepAt i x).output = (q.stepAt j y).output ↔
        general x = general y ∧ general (p.next i x) = general (q.next j y) ∧
          p.spheres = q.spheres ∧ p.iterations = q.iterations ∧ p.seed = q.seed) ∧
      ((p.stepAt i x).command = (q.stepAt j y).command ↔
        (p.stepAt i x).output = (q.stepAt j y).output ∧ generalText 12 x = generalText 12 y ∧
          generalText 12 (p.next i x) = generalText 12 (q.next j y)) ∧
      ((p.stepAt i x).output = (q.stepAt j y).output →
        (p.stepAt i x).command.head? = (q.stepAt j y).command.head? ∧
          ((∀ z ∈ [x, y, p.next i x, q.next j y], readDouble? (general z).toList = some z) →
            (p.stepAt i x).command = (q.stepAt j y).command)) := by
  have hfolder : p.folder = q.folder := by simp only [folder, hp, hq, hdata]
  have hname := nameAt_periodic_eq_iff hp hq x (p.next i x) y (q.next j y)
  have hcommand := commandAt_periodic_eq_iff hp hq hdata hbin x (p.next i x) y (q.next j y)
  rw [output_eq_iff_nameAt hfolder]
  refine ⟨hname, hcommand, fun houtput => ⟨?_, fun hread => hcommand.mpr ⟨houtput, ?_⟩⟩⟩
  · have hzero : (x == 0) = (y == 0) := by
      rw [Bool.eq_iff_iff, beq_zero_iff_general, beq_zero_iff_general, (hname.mp houtput).1]
    simp only [stepAt, commandAt, hp, hq, program, hbin, hzero]
    by_cases hy : (y == 0) = true
    · simp [hy]
    · simp [hy]
  · -- What six digits write in full is read back from them.
    have hback : ∀ z ∈ [x, y, p.next i x, q.next j y], ∀ z' ∈ [x, y, p.next i x, q.next j y],
        general z = general z' → z = z' := by
      intro z hz z' hz' htext
      rw [← Option.some.injEq, ← hread z hz, ← hread z' hz', htext]
    obtain ⟨htext, htextSmall, -⟩ := hname.mp houtput
    have hx : x = y := hback x (by simp) y (by simp) htext
    have hxSmall : p.next i x = q.next j y := hback _ (by simp) _ (by simp) htextSmall
    exact ⟨congrArg (generalText 12) hx, congrArg (generalText 12) hxSmall⟩

end Periodic

/-- Two sweeps that start so close to each other that their first steps have one file, for two
commands. -/
theorem periodic_output_and_command_close :
    let p : SweepPlan Float := { standard with flavor := .periodic 0.1 }
    let q : SweepPlan Float := { standard with flavor := .periodic 0.1000000001 }
    (p.stepAt 0 0.1).output = (q.stepAt 0 0.1000000001).output ∧
      (p.stepAt 0 0.1).command ≠ (q.stepAt 0 0.1000000001).command := by
  intro p q
  have h := periodic_output_and_command (p := p) (q := q) rfl rfl rfl rfl 0 0 0.1 0.1000000001
  have hsix : general 0.1 = general 0.1000000001 := by decide +kernel
  have hsixSmall : general (p.next 0 0.1) = general (q.next 0 0.1000000001) := by decide +kernel
  have htwelve : generalText 12 0.1 ≠ generalText 12 0.1000000001 := by decide +kernel
  exact ⟨h.1.mpr ⟨hsix, hsixSmall, rfl, rfl, rfl⟩, fun hcommand => htwelve (h.2.1.mp hcommand).2.1⟩

end SweepPlan

end SphereLab
