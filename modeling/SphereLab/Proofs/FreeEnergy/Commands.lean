import Mathlib
import SphereLab.FreeEnergy.Schedule
import SphereLab.Proofs.Decimal.Numerals
import SphereLab.Proofs.Directory.Growth

/-!
# The commands and the names of the steps of a sweep

A command ends in options, each a flag and its value.  What a simulator has to know to leave the
file of a step behind stands there: the name of the run, the folder, and the filling fraction
that the step leads to, in decimal.

* `optionOf?_commandAt`: the three options of the command of a step.
* `isName_output`: the file of a step is named by a name.
* `nameAt_periodic_inj_iff`: two periodic steps have one name exactly if their two filling
  fractions have the same six digits.
* `nameAt_absolute`: the name of a step in a fixed box does not depend on the step.
-/

namespace SphereLab

/-! ## Options -/

/-- The options at the end of a command, which is given backwards: flags and their values. -/
def optionsBack : List String → List (String × String)
  | value :: flag :: rest => (flag, value) :: optionsBack rest
  | _ => []

/-- The value of an option of a command. -/
def optionOf? (command : List String) (flag : String) : Option String :=
  (optionsBack command.reverse).lookup flag

namespace SweepPlan

variable (p : SweepPlan Float) (ff ffSmall : Float)

/-- A filling fraction as the command of a step asks for it: with twelve digits, or with six in a
fixed box. -/
def askedText (x : Float) : String :=
  match p.flavor with
  | .periodic _ => generalText 12 x
  | .absolute _ _ _ _ => general x

theorem optionOf?_commandAt :
    optionOf? (p.commandAt ff ffSmall) "--filename" = some (p.nameAt ff ffSmall) ∧
      optionOf? (p.commandAt ff ffSmall) "--data_dir" = some p.folder ∧
      optionOf? (p.commandAt ff ffSmall) "--ff_small" = some (p.askedText ffSmall) := by
  rw [commandAt, askedText]
  cases p.flavor with
  | periodic start =>
    by_cases h : (ff == 0) = true
    · simp [optionOf?, optionsBack, List.lookup, h]
    · simp [optionOf?, optionsBack, List.lookup, h]
  | absolute wellWidth boxLength level radius =>
    simp [optionOf?, optionsBack, List.lookup]

theorem scan?_askedText (x : Float) : (Numeral.scan? (p.askedText x).toList).isSome = true := by
  rw [askedText]
  split
  · exact scan?_generalText (by decide) x
  · exact scan?_general x

/-! ## Characters of names -/

/-- A character that names of entries may have. -/
def isNameChar (c : Char) : Bool := c != '/' && c != '\x00'

theorem isNameChar_of_isNumeralChar {c : Char} (h : isNumeralChar c = true) :
    isNameChar c = true := by
  rw [isNameChar, Bool.and_eq_true, bne_iff_ne, bne_iff_ne]
  constructor
  · rintro rfl
    exact absurd h (by decide)
  · rintro rfl
    exact absurd h (by decide)

theorem isNameChar_numeral {s : String} (h : (Numeral.scan? s.toList).isSome = true) :
    ∀ c ∈ s.toList, isNameChar c = true :=
  fun c hc => isNameChar_of_isNumeralChar (isNumeralChar_of_scan? h c hc)

theorem isNameChar_literal {s : String} (h : s.toList.all isNameChar = true) :
    ∀ c ∈ s.toList, isNameChar c = true := List.all_eq_true.mp h

theorem isNameChar_append {s t : String} (hs : ∀ c ∈ s.toList, isNameChar c = true)
    (ht : ∀ c ∈ t.toList, isNameChar c = true) : ∀ c ∈ (s ++ t).toList, isNameChar c = true := by
  rw [String.toList_append]
  exact List.forall_mem_append.mpr ⟨hs, ht⟩

theorem isNameChar_alignRight {s : String} (width : Nat)
    (hs : ∀ c ∈ s.toList, isNameChar c = true) :
    ∀ c ∈ (alignRight width s).toList, isNameChar c = true := by
  refine isNameChar_append (fun c hc => ?_) hs
  rw [String.toList_ofList] at hc
  rw [List.eq_of_mem_replicate hc]
  decide

theorem isNameChar_fillZeros {s : String} (width : Nat) (hs : ∀ c ∈ s.toList, isNameChar c = true) :
    ∀ c ∈ (fillZeros width s).toList, isNameChar c = true := by
  have hzeros : ∀ n, ∀ c ∈ List.replicate n '0', isNameChar c = true := by
    intro n c hc
    rw [List.eq_of_mem_replicate hc]
    decide
  rw [fillZeros]
  split
  · rename_i rest hlist
    rw [hlist, List.forall_mem_cons] at hs
    rw [String.toList_ofList]
    exact List.forall_mem_cons.mpr ⟨hs.1, List.forall_mem_append.mpr ⟨hzeros _, hs.2⟩⟩
  · rw [String.toList_ofList]
    exact List.forall_mem_append.mpr ⟨hzeros _, hs⟩

theorem isNameChar_naturalText (n : Nat) : ∀ c ∈ (naturalText n).toList, isNameChar c = true :=
  isNameChar_numeral (scan?_naturalText n)

theorem isNameChar_sphereTag : ∀ c ∈ p.sphereTag.toList, isNameChar c = true :=
  isNameChar_append (isNameChar_literal rfl) (isNameChar_fillZeros 3 (isNameChar_naturalText _))

theorem isNameChar_nameAt : ∀ c ∈ (p.nameAt ff ffSmall).toList, isNameChar c = true := by
  rw [nameAt]
  split
  · have hff := isNameChar_numeral (scan?_general ff)
    have hffSmall := isNameChar_numeral (scan?_general ffSmall)
    refine isNameChar_append (isNameChar_append (isNameChar_append (isNameChar_append
      (isNameChar_append (isNameChar_append (isNameChar_append (isNameChar_append
      (isNameChar_append ?_ hff) ?_) hffSmall) ?_) (isNameChar_naturalText _)) ?_)
      (isNameChar_naturalText _)) ?_) (isNameChar_naturalText _)
    all_goals exact isNameChar_literal rfl
  · rename_i wellWidth boxLength _ _ _
    have hwidth := isNameChar_numeral (scan?_fixedText 2 wellWidth)
    have hlength := isNameChar_numeral (scan?_fixedText 2 boxLength)
    refine isNameChar_append (isNameChar_append (isNameChar_append (isNameChar_append
      (isNameChar_append ?_ (isNameChar_alignRight 4 hwidth)) ?_)
      (isNameChar_fillZeros 4 hlength)) ?_) p.isNameChar_sphereTag
    all_goals exact isNameChar_literal rfl

/-- A text of such characters is a name if it does not begin with a dot. -/
theorem isName_of_isNameChar {s : String} (h : ∀ c ∈ s.toList, isNameChar c = true) {c : Char}
    (hhead : s.toList.head? = some c) (hc : c ≠ '.') : Directory.IsName s := by
  refine ⟨fun hmem => absurd (h _ hmem) (by decide), fun hmem => absurd (h _ hmem) (by decide),
    ?_, ?_, ?_⟩
  · rintro rfl
    exact absurd hhead (by simp)
  · rintro rfl
    exact hc (Option.some.inj hhead).symm
  · rintro rfl
    exact hc (Option.some.inj hhead).symm

theorem head?_nameAt : ∃ c, (p.nameAt ff ffSmall ++ "-g.dat").toList.head? = some c ∧ c ≠ '.' := by
  rw [nameAt]
  split
  · refine ⟨'p', ?_, by decide⟩
    simp only [String.toList_append, List.append_assoc]
    rfl
  · refine ⟨'a', ?_, by decide⟩
    simp only [String.toList_append, List.append_assoc]
    rfl

/-- The file that a step's run leaves behind is named by a name. -/
theorem isName_output : Directory.IsName (p.nameAt ff ffSmall ++ "-g.dat") := by
  obtain ⟨c, hhead, hc⟩ := p.head?_nameAt ff ffSmall
  exact isName_of_isNameChar (isNameChar_append (p.isNameChar_nameAt ff ffSmall)
    (isNameChar_literal rfl))
    hhead hc

/-! ## The folder of a sweep -/

/-- The folder of a sweep in a fixed box, seen from the data folder. -/
def levelPath (level : Nat) : String :=
  "scrunched/i" ++ naturalText level ++ "/" ++ p.sphereTag ++ "/absolute"

theorem isName_of_mem_levels (level : Nat) :
    ∀ name ∈ ["scrunched", "i" ++ naturalText level, p.sphereTag, "absolute"],
      Directory.IsName name := by
  have hlevel : Directory.IsName ("i" ++ naturalText level) :=
    isName_of_isNameChar (isNameChar_append (isNameChar_literal rfl) (isNameChar_naturalText level))
      (c := 'i') (by rw [String.toList_append]; rfl) (by decide)
  have htag : Directory.IsName p.sphereTag :=
    isName_of_isNameChar p.isNameChar_sphereTag (c := 'N')
      (by rw [sphereTag, String.toList_append]; rfl) (by decide)
  have hscrunched : Directory.IsName "scrunched" :=
    isName_of_isNameChar (isNameChar_literal rfl) (c := 's') rfl (by decide)
  have habsolute : Directory.IsName "absolute" :=
    isName_of_isNameChar (isNameChar_literal rfl) (c := 'a') rfl (by decide)
  simp [hlevel, htag, hscrunched, habsolute]

theorem pieces_levelPath (level : Nat) : Directory.pieces (p.levelPath level) =
    ["scrunched", "i" ++ naturalText level, p.sphereTag, "absolute"] := by
  have hnames := p.isName_of_mem_levels level
  have hpath : p.levelPath level =
      "scrunched" ++ "/" ++ ("i" ++ naturalText level) ++ "/" ++ p.sphereTag ++ "/" ++
        "absolute" := by
    rw [levelPath, ← String.toList_inj]
    simp only [String.toList_append, List.append_assoc]
    rfl
  rw [hpath, Directory.pieces_append, Directory.pieces_append, Directory.pieces_append,
    Directory.pieces_of_isName (hnames "scrunched" (by simp)),
    Directory.pieces_of_isName (hnames ("i" ++ naturalText level) (by simp)),
    Directory.pieces_of_isName (hnames p.sphereTag (by simp)),
    Directory.pieces_of_isName (hnames "absolute" (by simp))]
  rfl

theorem isName_levelPath (level : Nat) :
    Directory.IsRelative (p.levelPath level) ∧
      ∀ name ∈ Directory.pieces (p.levelPath level), Directory.IsName name := by
  have hnames := p.isName_of_mem_levels level
  refine ⟨⟨?_, ?_⟩, ?_⟩
  · have hnatural : '\x00' ∉ (naturalText level).toList := fun hmem =>
      absurd (isNameChar_naturalText level _ hmem) (by decide)
    have htag := (hnames p.sphereTag (by simp)).nul
    rw [levelPath]
    simp [hnatural, htag]
  · rw [Directory.startsWith_slash_eq_false_iff, levelPath]
    simp only [String.toList_append, List.append_assoc]
    exact fun hhead => absurd (Option.some.inj hhead) (by decide)
  · rw [p.pieces_levelPath level]
    exact hnames

/-- The data folder can be created, and there is nothing in it then. -/
def EmptyData (d : Directory) : Prop :=
  ∃ d' place, d.createFolders p.dataFolder = .ok d' ∧
    Directory.EmptyFolderAt d' p.dataFolder place

/-- With an empty data folder, the folder of the output files is empty as well. -/
theorem EmptyData.folder {p : SweepPlan Float} {d : Directory} (h : p.EmptyData d) :
    ∃ d' place, d.createFolders p.folder = .ok d' ∧
      Directory.EmptyFolderAt d' p.folder place := by
  obtain ⟨d', place, hcreate, hempty⟩ := h
  rw [SweepPlan.folder]
  split
  · exact ⟨d', place, hcreate, hempty⟩
  · rename_i level _ _
    obtain ⟨hrelative, hnames⟩ := p.isName_levelPath level
    obtain ⟨d'', hcreate', hempty'⟩ :=
      Directory.createFolders_joinPath hcreate hempty hrelative hnames
    exact ⟨d'', _, hcreate', hempty'⟩

/-! ## Which names are the same -/

/-- Steps in a fixed box all have one name. -/
theorem nameAt_absolute {wellWidth boxLength radius : Float} {level : Nat}
    (h : p.flavor = .absolute wellWidth boxLength level radius) (ff' ffSmall' : Float) :
    p.nameAt ff ffSmall = p.nameAt ff' ffSmall' := by
  simp only [nameAt, h]

theorem underscore_not_mem_general (x : Float) : '_' ∉ (general x).toList := fun hmem =>
  absurd (isNumeralChar_of_scan? (scan?_general x) '_' hmem) (by decide)

/-- The two filling fractions in the name of a periodic step can be told apart: the first one ends
before the only low line. -/
theorem fractionTexts_inj_iff (ff ffSmall ff' ffSmall' : Float) :
    "periodic-ff" ++ general ff ++ "-ff_small" ++ general ffSmall =
        "periodic-ff" ++ general ff' ++ "-ff_small" ++ general ffSmall' ↔
      general ff = general ff' ∧ general ffSmall = general ffSmall' := by
  constructor
  · intro hname
    have hlist : ∀ a b : String, ("periodic-ff" ++ a ++ "-ff_small" ++ b).toList =
        "periodic-ff".toList ++ (a.toList ++ ['-', 'f', 'f'] ++
          '_' :: (['s', 'm', 'a', 'l', 'l'] ++ b.toList)) := by
      intro a b
      simp only [String.toList_append, List.append_assoc]
      rfl
    have hmem : ∀ x, '_' ∉ (general x).toList ++ ['-', 'f', 'f'] := fun x hmem =>
      (List.mem_append.mp hmem).elim (underscore_not_mem_general x) (by decide)
    have hmem' : ∀ x, '_' ∉ ['s', 'm', 'a', 'l', 'l'] ++ (general x).toList := fun x hmem =>
      (List.mem_append.mp hmem).elim (by decide) (underscore_not_mem_general x)
    rw [← String.toList_inj, hlist, hlist, List.append_right_inj,
      List.append_cons_inj_of_notMem (hmem _) (hmem' _), List.append_left_inj,
      List.append_right_inj, String.toList_inj, String.toList_inj] at hname
    exact ⟨hname.1, hname.2.2⟩
  · rintro ⟨hff, hffSmall⟩
    rw [hff, hffSmall]

/-- Two periodic steps have one name exactly if both their filling fractions have the same six
digits. -/
theorem nameAt_periodic_inj_iff {start : Float} (h : p.flavor = .periodic start)
    (ff' ffSmall' : Float) :
    p.nameAt ff ffSmall = p.nameAt ff' ffSmall' ↔
      general ff = general ff' ∧ general ffSmall = general ffSmall' := by
  simp only [nameAt, h]
  rw [String.append_left_inj, String.append_left_inj, String.append_left_inj,
    String.append_left_inj, String.append_left_inj, String.append_left_inj, fractionTexts_inj_iff]

end SweepPlan

end SphereLab
