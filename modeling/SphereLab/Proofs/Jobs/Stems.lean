import Mathlib
import SphereLab.Jobs.Job
import SphereLab.Proofs.FreeEnergy.Identity

/-!
# Which jobs write to one file

A job leaves its output under a stem that is put together from a name, the density and the
temperature with four decimals and, for cells between walls, the number of spheres.  The arguments of
the program have the temperature with six significant digits and, for a test particle, a size and a
depth that the stem does not have.  So the stem of a job does not say which simulation it stands for:
two jobs that ask for different simulations may write to one file, and the later one wins.

What can go wrong is small.  Read from its end, a stem shows the number of spheres if it has one, the
temperature and the digits of the density.  Only a minus in front of the density is lost, where a free
potential stands before it, and the potential may spell out the name of another kind of job.

* `append_cons_inj_of_notMem_right`: a text can be cut at the last place of a character.
* `append_fixedText_inj_iff`, `append_fixedText_inj_iff_of_getLast?`: fixed decimals at the end of a
  text.
* `stem_eq_iff`: which jobs have one stem.
* `parameters_eq_iff`: which jobs ask for one simulation.
* `stem_apart_iff`: when the stems of jobs keep their simulations apart.
-/

namespace SphereLab

/-! ## Cutting at a minus -/

/-- Lists that are cut at the last place of an entry. -/
theorem append_cons_inj_of_notMem_right {α : Type} {xs ys last last' : List α} {a : α}
    (h : a ∉ last) (h' : a ∉ last') :
    xs ++ a :: last = ys ++ a :: last' ↔ xs = ys ∧ last = last' := by
  constructor
  · intro heq
    rcases List.append_eq_append_iff.mp heq with ⟨between, hys, hlast⟩ | ⟨between, hxs, hlast⟩
    · cases between with
      | nil => simp_all
      | cons b rest => exact absurd (by simp_all) h
    · cases between with
      | nil => simp_all
      | cons b rest => exact absurd (by simp_all) h'
  · rintro ⟨rfl, rfl⟩
    rfl

/-- The minus that a text begins with, if it does. -/
def minusOf (text : String) : List Char := text.toList.takeWhile (· == '-')

/-- A text without the minus that it begins with. -/
def unsigned (text : String) : List Char := text.toList.dropWhile (· == '-')

theorem minusOf_append_unsigned (text : String) : minusOf text ++ unsigned text = text.toList :=
  List.takeWhile_append_dropWhile

/-! ## Fixed decimals at the end of a text -/

section FixedText

variable (places : ℕ) (x y : Float)

/-- Fixed decimals have at most one minus, in front, and more than digits behind it. -/
theorem exists_toList_fixedText :
    ∃ negative body, (fixedText places x).toList = signText negative ++ body ∧ '-' ∉ body ∧
      body ≠ [] ∧ (0 < places → ∃ c ∈ body, c.isDigit = false) := by
  rw [fixedText]
  cases hread : Reading.ofFloat x with
  | nan =>
    exact ⟨false, ['N', 'a', 'N'], by simp [signText], by decide, by decide,
      fun _ => ⟨'N', by decide⟩⟩
  | infinite negative =>
    exact ⟨negative, ['i', 'n', 'f'], by simp, by decide, by decide, fun _ => ⟨'i', by decide⟩⟩
  | finite negative d =>
    have hpositional := isPositional_fixedMagnitude places d
    refine ⟨negative, fixedMagnitude places d, by simp, fun hmem => ?_, ?_, fun hplaces => ?_⟩
    · exact (hpositional.isDigit_or_point '-' hmem).elim (by decide) (by decide)
    · obtain ⟨c, rest, heq, -⟩ := hpositional.head
      simp [heq]
    · obtain ⟨whole, fraction, heq, -, -, hlength, -⟩ :=
        exists_setPoint_eq places (fixedDigits places d.num d.den)
      obtain ⟨c, rest, rfl⟩ := List.exists_cons_of_length_pos (hlength ▸ hplaces)
      exact ⟨'.', by simp [fixedMagnitude, heq, withPoint], by decide⟩

theorem minusOf_unsigned_eq {text : String} {negative : Bool} {body : List Char}
    (h : text.toList = signText negative ++ body) (hbody : '-' ∉ body) :
    minusOf text = signText negative ∧ unsigned text = body := by
  have hnone : ∀ c ∈ body, (c == '-') = false := by
    intro c hc
    rw [beq_eq_false_iff_ne]
    rintro rfl
    exact hbody hc
  have htake : body.takeWhile (· == '-') = [] := by
    cases body with
    | nil => rfl
    | cons c rest => rw [List.takeWhile_cons, hnone c List.mem_cons_self]; rfl
  have hdrop : body.dropWhile (· == '-') = body := by
    cases body with
    | nil => rfl
    | cons c rest => rw [List.dropWhile_cons, hnone c List.mem_cons_self]; rfl
  rw [minusOf, unsigned, h]
  cases negative with
  | false => exact ⟨htake, hdrop⟩
  | true => simp [signText, htake, hdrop]

theorem minus_notMem_unsigned_fixedText : '-' ∉ unsigned (fixedText places x) := by
  obtain ⟨negative, body, htext, hbody, -⟩ := exists_toList_fixedText places x
  rwa [(minusOf_unsigned_eq htext hbody).2]

/-- A minus in front of fixed decimals can as well be seen as the end of what is before them. -/
theorem toList_append_fixedText (s : String) :
    (s ++ "-" ++ fixedText places x).toList =
      s.toList ++ minusOf (fixedText places x) ++ '-' :: unsigned (fixedText places x) := by
  obtain ⟨negative, body, htext, hbody, -⟩ := exists_toList_fixedText places x
  obtain ⟨hminus, hunsigned⟩ := minusOf_unsigned_eq htext hbody
  rw [hminus, hunsigned, String.toList_append, String.toList_append, htext]
  cases negative <;> simp [signText]

/-- Behind a minus, fixed decimals can be told but for their own minus. -/
theorem append_fixedText_inj_iff {s t : String} :
    s ++ "-" ++ fixedText places x = t ++ "-" ++ fixedText places y ↔
      unsigned (fixedText places x) = unsigned (fixedText places y) ∧
        s.toList ++ minusOf (fixedText places x) = t.toList ++ minusOf (fixedText places y) := by
  rw [← String.toList_inj, toList_append_fixedText, toList_append_fixedText,
    append_cons_inj_of_notMem_right (minus_notMem_unsigned_fixedText places x)
      (minus_notMem_unsigned_fixedText places y), and_comm]

/-- Behind a minus, fixed decimals can be told if no other minus is before it. -/
theorem append_fixedText_inj_iff_of_getLast? {s t : String} (hs : s.toList.getLast? ≠ some '-')
    (ht : t.toList.getLast? ≠ some '-') :
    s ++ "-" ++ fixedText places x = t ++ "-" ++ fixedText places y ↔
      s = t ∧ fixedText places x = fixedText places y := by
  constructor
  · intro h
    obtain ⟨hunsigned, hfront⟩ := (append_fixedText_inj_iff places x y).mp h
    obtain ⟨negative, body, htext, hbody, -⟩ := exists_toList_fixedText places x
    obtain ⟨negative', body', htext', hbody', -⟩ := exists_toList_fixedText places y
    rw [(minusOf_unsigned_eq htext hbody).1, (minusOf_unsigned_eq htext' hbody').1] at hfront
    have hsign : s.toList = t.toList ∧ signText negative = signText negative' := by
      have hlast := congrArg List.getLast? hfront
      cases negative <;> cases negative' <;>
        simp only [signText, if_true, Bool.false_eq_true, if_false, List.append_nil,
          List.getLast?_append, List.getLast?_singleton, List.append_left_inj,
          and_true] at hlast hfront ⊢
      · exact hfront
      · exact absurd hlast (by simpa using hs)
      · exact absurd hlast.symm (by simpa using ht)
      · exact hfront
    refine ⟨String.toList_inj.mp hsign.1, String.toList_inj.mp ?_⟩
    rw [htext, htext', hsign.2, ← (minusOf_unsigned_eq htext hbody).2, hunsigned,
      (minusOf_unsigned_eq htext' hbody').2]
  · rintro ⟨rfl, h⟩
    rw [h]

theorem getLast?_append_fixedText (s : String) :
    (s ++ fixedText places x).toList.getLast? ≠ some '-' := by
  obtain ⟨negative, body, htext, hbody, hne, -⟩ := exists_toList_fixedText places x
  obtain ⟨front, c, rfl⟩ := (List.eq_nil_or_concat' body).resolve_left hne
  rw [String.toList_append, htext]
  intro hlast
  simp at hlast hbody
  exact hbody.2 hlast.symm

end FixedText

/-! ## Names and simulations -/

namespace Submission

variable (s : Submission)

/-- The arguments that say what is simulated: all but the path of the output. -/
def parameters : List String := s.arguments.eraseIdx 3

/-- The file that the simulation writes its data to. -/
def dataFile : String := s.stem ++ ".dat"

/-- The file that takes what the simulation prints. -/
def printFile : String := s.stem ++ ".out"

end Submission

namespace Job

variable (j j' : Job Float)

/-- Two jobs have names that read alike: temperatures alike to four decimals and, with numbers of
spheres in the names, all that is in them; without, densities alike but for their signs, and a minus
that is not in both names in front of a density may be the end of a potential. -/
def NamedAlike : Prop :=
  fixedText 4 j.temperature = fixedText 4 j'.temperature ∧
    match j.kind.namesCount, j'.kind.namesCount with
    | true, true =>
      j.kind.fileName = j'.kind.fileName ∧ fixedText 4 j.density = fixedText 4 j'.density ∧
        j.kind.spheres j.density = j'.kind.spheres j'.density
    | false, false =>
      unsigned (fixedText 4 j.density) = unsigned (fixedText 4 j'.density) ∧
        j.kind.fileName.toList ++ minusOf (fixedText 4 j.density) =
          j'.kind.fileName.toList ++ minusOf (fixedText 4 j'.density)
    | _, _ => False

/-- Two jobs ask for one simulation: of one kind, with as many spheres, with temperatures alike to
six digits, with one potential, and with test particles alike to six decimals. -/
def AsksAlike : Prop :=
  j.kind.spheres j.density = j'.kind.spheres j'.density ∧
    general j.temperature = general j'.temperature ∧
    match j.kind, j'.kind with
    | .homogeneous potential, .homogeneous potential' => potential = potential'
    | .walls _, .walls _ => True
    | .softWalls _, .softWalls _ => True
    | .testParticle sigma epsilon potential, .testParticle sigma' epsilon' potential' =>
      fixedText 6 sigma = fixedText 6 sigma' ∧ fixedText 6 epsilon = fixedText 6 epsilon' ∧
        potential = potential'
    | _, _ => False

/-! ## The stem -/

section Stem

variable (folders : JobFolders)

/-- A stem up to the density. -/
def stemFront : String :=
  folders.figs ++ "/" ++ j.kind.fileName ++ "-" ++ fixedText 4 j.density

theorem stem_eq :
    j.stem folders = j.stemFront folders ++ "-" ++ fixedText 4 j.temperature ++
      if j.kind.namesCount then "-" ++ naturalText (j.kind.spheres j.density) else "" := by
  simp only [stem, stemFront, tag, String.append_assoc]

theorem getLast?_stemFront : (j.stemFront folders).toList.getLast? ≠ some '-' :=
  getLast?_append_fixedText 4 j.density _

/-- The names of cells between walls end in a letter. -/
theorem getLast?_fileName (h : j.kind.namesCount = true) :
    (folders.figs ++ "/" ++ j.kind.fileName).toList.getLast? ≠ some '-' := by
  rw [String.toList_append, List.getLast?_append]
  cases hkind : j.kind with
  | homogeneous _ => simp [hkind, JobKind.namesCount] at h
  | walls _ => simp [JobKind.fileName]
  | softWalls _ => simp [JobKind.fileName]
  | testParticle _ _ _ => simp [hkind, JobKind.namesCount] at h

theorem stemFront_eq_iff :
    j.stemFront folders = j'.stemFront folders ↔
      unsigned (fixedText 4 j.density) = unsigned (fixedText 4 j'.density) ∧
        j.kind.fileName.toList ++ minusOf (fixedText 4 j.density) =
          j'.kind.fileName.toList ++ minusOf (fixedText 4 j'.density) := by
  rw [stemFront, stemFront, append_fixedText_inj_iff]
  simp only [String.toList_append, List.append_assoc, List.append_right_inj]

theorem stemFront_eq_iff_of_namesCount (h : j.kind.namesCount = true)
    (h' : j'.kind.namesCount = true) :
    j.stemFront folders = j'.stemFront folders ↔
      j.kind.fileName = j'.kind.fileName ∧ fixedText 4 j.density = fixedText 4 j'.density := by
  rw [stemFront, stemFront, append_fixedText_inj_iff_of_getLast? _ _ _
    (j.getLast?_fileName folders h) (j'.getLast?_fileName folders h'), String.append_right_inj]

/-- A number of spheres at the end of a stem is not taken for a temperature. -/
theorem append_naturalText_ne_append_fixedText (s t : String) (n : ℕ) (x : Float) :
    s ++ "-" ++ naturalText n ≠ t ++ "-" ++ fixedText 4 x := by
  intro h
  obtain ⟨negative, body, htext, hbody, -, hmark⟩ := exists_toList_fixedText 4 x
  have hdigits : '-' ∉ decimalDigits n := fun hmem =>
    absurd (allDigits_decimalDigits n '-' hmem) (by decide)
  rw [← String.toList_inj, toList_append_fixedText] at h
  have hlist : (s ++ "-" ++ naturalText n).toList = s.toList ++ '-' :: decimalDigits n := by
    simp [naturalText]
  rw [hlist, append_cons_inj_of_notMem_right hdigits (minus_notMem_unsigned_fixedText 4 x),
    (minusOf_unsigned_eq htext hbody).2] at h
  obtain ⟨c, hc, hnot⟩ := hmark (by decide)
  rw [allDigits_decimalDigits n c (h.2 ▸ hc)] at hnot
  exact absurd hnot (by decide)

/-- Two jobs have one stem exactly if their names read alike. -/
theorem stem_eq_iff : j.stem folders = j'.stem folders ↔ j.NamedAlike j' := by
  have htemperature := append_fixedText_inj_iff_of_getLast? 4 j.temperature j'.temperature
    (j.getLast?_stemFront folders) (j'.getLast?_stemFront folders)
  have hlast : ∀ s : String, ∀ c ∈ (s ++ "-").toList.getLast?, c.isDigit = false := by
    intro s c hc
    rw [String.toList_append, List.getLast?_append] at hc
    obtain rfl := Option.some.inj hc
    decide
  rw [stem_eq, stem_eq, NamedAlike]
  cases h : j.kind.namesCount with
  | true =>
    cases h' : j'.kind.namesCount with
    | true =>
      simp only [if_true, ← String.append_assoc]
      rw [append_naturalText_inj_iff (hlast _) (hlast _), String.append_left_inj, htemperature,
        stemFront_eq_iff_of_namesCount j j' folders h h']
      tauto
    | false =>
      simp only [if_true, Bool.false_eq_true, if_false, String.append_empty, and_false, iff_false,
        ← String.append_assoc]
      exact append_naturalText_ne_append_fixedText _ _ _ _
  | false =>
    cases h' : j'.kind.namesCount with
    | true =>
      simp only [if_true, Bool.false_eq_true, if_false, String.append_empty, and_false, iff_false,
        ← String.append_assoc]
      exact (append_naturalText_ne_append_fixedText _ _ _ _).symm
    | false =>
      simp only [Bool.false_eq_true, if_false, String.append_empty]
      rw [htemperature, stemFront_eq_iff]
      tauto

end Stem

/-! ## The simulation -/

theorem quoted_inj_iff {s t : String} : JobKind.quoted s = JobKind.quoted t ↔ s = t := by
  rw [JobKind.quoted, JobKind.quoted, String.append_left_inj, String.append_right_inj]

/-- Two jobs have the same parameters exactly if they ask for one simulation. -/
theorem parameters_eq_iff (folders : JobFolders) (memory : ℕ) :
    (j.submission folders memory).parameters = (j'.submission folders memory).parameters ↔
      j.AsksAlike j' := by
  have hparameters : ∀ j : Job Float, (j.submission folders memory).parameters =
      naturalText (j.kind.spheres j.density) :: "0.01" :: "0.001" ::
        j.kind.cellArguments j.temperature := fun _ => rfl
  rw [hparameters, hparameters, AsksAlike, List.cons.injEq, naturalText_inj_iff, List.cons.injEq,
    List.cons.injEq, and_iff_right rfl, and_iff_right rfl]
  refine and_congr_right fun _ => ?_
  cases j.kind with
  | homogeneous _ => cases j'.kind <;> simp [JobKind.cellArguments, quoted_inj_iff]
  | walls _ => cases j'.kind <;> simp [JobKind.cellArguments, JobKind.edge]
  | softWalls _ => cases j'.kind <;> simp [JobKind.cellArguments, JobKind.edge]
  | testParticle _ _ _ => cases j'.kind <;> simp [JobKind.cellArguments, quoted_inj_iff]

/-! ## Keeping simulations apart -/

/-- The jobs of one kind have one stem exactly if four decimals are those of one density and one
temperature and, where it is in the names, the numbers of spheres are the same. -/
theorem stem_eq_iff_of_kind (kind : JobKind Float) (folders : JobFolders)
    (density temperature density' temperature' : Float) :
    (⟨kind, density, temperature⟩ : Job Float).stem folders =
        (⟨kind, density', temperature'⟩ : Job Float).stem folders ↔
      fixedText 4 density = fixedText 4 density' ∧
        fixedText 4 temperature = fixedText 4 temperature' ∧
        (kind.namesCount = true → kind.spheres density = kind.spheres density') := by
  have hdensity : fixedText 4 density = fixedText 4 density' ↔
      unsigned (fixedText 4 density) = unsigned (fixedText 4 density') ∧
        minusOf (fixedText 4 density) = minusOf (fixedText 4 density') := by
    constructor
    · intro h
      rw [h]
      exact ⟨rfl, rfl⟩
    · rintro ⟨hunsigned, hminus⟩
      rw [← String.toList_inj, ← minusOf_append_unsigned, ← minusOf_append_unsigned, hunsigned,
        hminus]
  rw [stem_eq_iff, NamedAlike]
  cases h : kind.namesCount with
  | true => simp only [true_and, forall_const]; tauto
  | false =>
    simp only [List.append_right_inj, Bool.false_eq_true, false_imp_iff, and_true, hdensity]
    tauto

/-- **Which stems keep simulations apart.**  Two jobs have one stem exactly if their names read
alike, and the same parameters exactly if they ask for one simulation.  So the outputs of two
simulations are kept apart unless their names read alike.  In one grid this is so for pairs that four
decimals tell apart, and thus for all that four decimals write in full. -/
theorem stem_apart_iff (folders : JobFolders) (memory : ℕ) :
    let s := j.submission folders memory
    let s' := j'.submission folders memory
    (s.stem = s'.stem ↔ j.NamedAlike j') ∧
      (s.parameters = s'.parameters ↔ j.AsksAlike j') ∧
      ((s.parameters ≠ s'.parameters →
          s.stem ≠ s'.stem ∧ s.dataFile ≠ s'.dataFile ∧ s.printFile ≠ s'.printFile) ↔
        (j.NamedAlike j' → j.AsksAlike j')) ∧
      (j.kind = j'.kind →
        (s.stem = s'.stem ↔ fixedText 4 j.density = fixedText 4 j'.density ∧
          fixedText 4 j.temperature = fixedText 4 j'.temperature ∧
          (j.kind.namesCount = true →
            j.kind.spheres j.density = j.kind.spheres j'.density)) ∧
        ((∀ x ∈ [j.density, j.temperature, j'.density, j'.temperature],
            readDouble? (fixedText 4 x).toList = some x) →
          j.density ≠ j'.density ∨ j.temperature ≠ j'.temperature → s.stem ≠ s'.stem)) := by
  intro s s'
  have hstem : s.stem = s'.stem ↔ j.NamedAlike j' := j.stem_eq_iff j' folders
  have hparameters : s.parameters = s'.parameters ↔ j.AsksAlike j' :=
    j.parameters_eq_iff j' folders memory
  refine ⟨hstem, hparameters, ?_, fun hkind => ?_⟩
  · rw [Submission.dataFile, Submission.dataFile, Submission.printFile, Submission.printFile, Ne,
      Ne, Ne, Ne, String.append_left_inj, String.append_left_inj, hstem, hparameters]
    tauto
  · obtain ⟨kind, density, temperature⟩ := j
    obtain ⟨kind', density', temperature'⟩ := j'
    obtain rfl : kind = kind' := hkind
    have hgrid := stem_eq_iff_of_kind kind folders density temperature density' temperature'
    refine ⟨hgrid, fun hfull hdiffer heq => ?_⟩
    -- What four decimals write in full is read back from them.
    obtain ⟨hdensity, htemperature, -⟩ := hgrid.mp heq
    have hback : ∀ x ∈ [density, temperature, density', temperature'],
        ∀ y ∈ [density, temperature, density', temperature'],
        fixedText 4 x = fixedText 4 y → x = y := by
      intro x hx y hy htext
      rw [← Option.some.injEq, ← hfull x hx, ← hfull y hy, htext]
    rcases hdiffer with hne | hne
    · exact hne (hback density (by simp) density' (by simp) hdensity)
    · exact hne (hback temperature (by simp) temperature' (by simp) htemperature)

/-- Two temperatures of one grid that are a hundred-thousandth apart: the simulations differ, and
their outputs have one path. -/
theorem shared_stem_of_close_temperatures :
    let s := (⟨.homogeneous "wca", 0.42, 0.42⟩ : Job Float).submission ⟨"figs", "."⟩ 60
    let s' := (⟨.homogeneous "wca", 0.42, 0.42001⟩ : Job Float).submission ⟨"figs", "."⟩ 60
    s.parameters ≠ s'.parameters ∧ s.stem = s'.stem ∧ s.dataFile = s'.dataFile := by
  intro s s'
  have hsix : general 0.42 ≠ general 0.42001 := by decide +kernel
  have hfour : fixedText 4 0.42 = fixedText 4 0.42001 := by decide +kernel
  have hstem : s.stem = s'.stem := (stem_eq_iff_of_kind _ _ _ _ _ _).mpr ⟨rfl, hfour, fun _ => rfl⟩
  refine ⟨fun h => hsix ((parameters_eq_iff _ _ _ _).mp h).2.1, hstem, ?_⟩
  rw [Submission.dataFile, Submission.dataFile, hstem]

/-- Four decimals write the temperatures of this grid in full, so its stems differ. -/
theorem stem_apart_iff_tenths :
    ((⟨.homogeneous "wca", 0.42, 0.5⟩ : Job Float).submission ⟨"figs", "."⟩ 60).stem ≠
      ((⟨.homogeneous "wca", 0.42, 0.6⟩ : Job Float).submission ⟨"figs", "."⟩ 60).stem := by
  have hfull : ∀ x ∈ ([0.42, 0.5, 0.42, 0.6] : List Float),
      readDouble? (fixedText 4 x).toList = some x := by decide +kernel
  exact ((stem_apart_iff ⟨.homogeneous "wca", 0.42, 0.5⟩ ⟨.homogeneous "wca", 0.42, 0.6⟩
    ⟨"figs", "."⟩ 60).2.2.2 rfl).2 hfull (Or.inr (by decide +kernel))

end Job

end SphereLab
