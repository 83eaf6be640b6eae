import Mathlib
import SphereLab.Proofs.Directory.Sharing
import SphereLab.Proofs.FreeEnergy.Identity
import SphereLab.Proofs.FreeEnergy.Resumption

/-!
# Sweeps that share a data folder

Sweeps with one data folder keep their files apart by names: a periodic sweep puts everything that
makes a run into the name of its file, and a sweep in a fixed box has a folder for its level and its
number of spheres.  The names are read back from their ends, so whatever the numbers are, two plans
with one file agree on them.  Sweeps over different numbers of spheres can then be run in any order:
what one of them finds does not depend on those that were run before.

* `levels`, `pieces_output`: the folders between the data folder and a file, and its names.
* `Agree`, `agree_of_samePath`: what two plans agree on if steps of theirs have one file.
* `Unaffected`: what a directory still has for a sweep after others have been run in it.
* `unaffected_run`, `run_of_unaffected`: a run of another sweep keeps this, and it is all that
  matters.
* `sweeps_apart`: plans with one file agree, and sweeps over different numbers of spheres do not
  depend on each other.
-/

namespace SphereLab

/-! ## Numbers with leading zeros -/

theorem fillZeros_naturalText (width n : ℕ) :
    ∃ zeros, fillZeros width (naturalText n) =
      String.ofList (List.replicate zeros '0' ++ decimalDigits n) := by
  rw [fillZeros]
  split
  · rename_i rest hlist
    have hminus : '-' ∈ decimalDigits n := by
      rw [← String.toList_ofList (l := decimalDigits n), ← naturalText, hlist]
      exact List.mem_cons_self
    exact absurd (allDigits_decimalDigits n _ hminus) (by decide)
  · exact ⟨_, by rw [naturalText, String.toList_ofList]⟩

theorem fillZeros_naturalText_inj_iff {width m n : ℕ} :
    fillZeros width (naturalText m) = fillZeros width (naturalText n) ↔ m = n := by
  refine ⟨fun h => ?_, fun h => by rw [h]⟩
  obtain ⟨zeros, hm⟩ := fillZeros_naturalText width m
  obtain ⟨zeros', hn⟩ := fillZeros_naturalText width n
  have hvalue : ∀ zeros k,
      Numeral.ofDigits (List.replicate zeros '0' ++ decimalDigits k) = k := by
    intro zeros k
    rw [Numeral.ofDigits_append, Numeral.ofDigits_replicate_zero, Nat.zero_mul, Nat.zero_add,
      Numeral.ofDigits_decimalDigits]
  rw [hm, hn, String.ofList_inj] at h
  rw [← hvalue zeros m, h, hvalue]

namespace SweepPlan

open Directory

/-! ## Where the files are -/

section Places

variable (p : SweepPlan Float)

/-- The folders between the data folder and the files. -/
def levels : List String :=
  match p.flavor with
  | .periodic _ => []
  | .absolute _ _ level _ => ["scrunched", "i" ++ naturalText level, p.sphereTag, "absolute"]

/-- The name of the file of a step. -/
def fileName (index : ℕ) (ff : Float) : String := (p.stepAt index ff).name ++ "-g.dat"

theorem isName_fileName (index : ℕ) (ff : Float) : IsName (p.fileName index ff) :=
  p.isName_output ff (p.next index ff)

theorem output_eq (index : ℕ) (ff : Float) :
    (p.stepAt index ff).output = joinPath p.folder (p.fileName index ff) := rfl

theorem folder_cases : p.levels = [] ∧ p.folder = p.dataFolder ∨
    ∃ path, IsRelative path ∧ pieces path = p.levels ∧ p.folder = joinPath p.dataFolder path := by
  cases hflavor : p.flavor with
  | periodic start => exact Or.inl ⟨by simp only [levels, hflavor], by simp only [folder, hflavor]⟩
  | absolute wellWidth boxLength level radius =>
    refine Or.inr ⟨p.levelPath level, (p.isName_levelPath level).1, ?_, ?_⟩
    · simp only [levels, hflavor, p.pieces_levelPath level]
    · simp only [folder, hflavor, levelPath]

theorem isName_level : ∀ name ∈ p.levels, IsName name := by
  rw [levels]
  split
  · simp
  · exact p.isName_of_mem_levels _

theorem up_notMem_levels : ".." ∉ p.levels := fun hmem =>
  (p.isName_level _ hmem).ne_dots rfl

theorem pieces_folder : pieces p.folder = pieces p.dataFolder ++ p.levels := by
  rcases p.folder_cases with ⟨hlevels, hfolder⟩ | ⟨path, hpath, hlevels, hfolder⟩
  · rw [hlevels, hfolder, List.append_nil]
  · rw [hfolder, pieces_joinPath _ hpath.slash, hlevels]

/-- The paths of a sweep begin where the data folder does. -/
theorem origin_folder (home : Place) : origin home p.folder = origin home p.dataFolder := by
  rcases p.folder_cases with ⟨-, hfolder⟩ | ⟨path, hpath, -, hfolder⟩
  · rw [hfolder]
  · rw [hfolder, origin_joinPath _ _ hpath.slash]

theorem origin_output (home : Place) (index : ℕ) (ff : Float) :
    origin home (p.stepAt index ff).output = origin home p.dataFolder := by
  rw [output_eq, origin_joinPath _ _ (p.isName_fileName index ff).isRelative.slash,
    origin_folder]

/-- The names on the way from the data folder to a file. -/
theorem pieces_output (index : ℕ) (ff : Float) : pieces (p.stepAt index ff).output =
    pieces p.dataFolder ++ (p.levels ++ [p.fileName index ff]) := by
  have hname := p.isName_fileName index ff
  rw [output_eq, pieces_joinPath _ hname.isRelative.slash, pieces_of_isName hname, pieces_folder,
    List.append_assoc]

theorem up_notMem_names (index : ℕ) (ff : Float) : ".." ∉ p.levels ++ [p.fileName index ff] := by
  rw [List.mem_append, List.mem_singleton, not_or]
  exact ⟨p.up_notMem_levels, fun h => (p.isName_fileName index ff).ne_dots h.symm⟩

/-- A folder on the way is not named like a file, which has an extension. -/
theorem fileName_notMem_levels (q : SweepPlan Float) (index : ℕ) (ff : Float) :
    p.fileName index ff ∉ q.levels := by
  have hfile : '.' ∈ (p.fileName index ff).toList := by
    rw [fileName, String.toList_append]
    exact List.mem_append_right _ (by decide)
  have hdigits : ∀ n, '.' ∉ decimalDigits n := fun n hmem =>
    absurd (allDigits_decimalDigits n _ hmem) (by decide)
  have hlevel : ∀ n, '.' ∉ ("i" ++ naturalText n).toList := by
    intro n hmem
    rw [String.toList_append, List.mem_append] at hmem
    rcases hmem with hmem | hmem
    · exact absurd hmem (by decide)
    · exact hdigits n (by rwa [naturalText, String.toList_ofList] at hmem)
  have htag : '.' ∉ q.sphereTag.toList := by
    obtain ⟨zeros, htext⟩ := fillZeros_naturalText 3 q.spheres
    intro hmem
    rw [sphereTag, String.toList_append, List.mem_append] at hmem
    rcases hmem with hmem | hmem
    · exact absurd hmem (by decide)
    · rw [htext, String.toList_ofList, List.mem_append] at hmem
      rcases hmem with hmem | hmem
      · exact absurd (List.eq_of_mem_replicate hmem) (by decide)
      · exact hdigits _ hmem
  intro hmem
  rw [levels] at hmem
  split at hmem
  · exact absurd hmem List.not_mem_nil
  · simp only [List.mem_cons, List.not_mem_nil, or_false] at hmem
    rcases hmem with h | h | h | h
    · exact absurd (h ▸ hfile) (by decide)
    · exact hlevel _ (h ▸ hfile)
    · exact htag (h ▸ hfile)
    · exact absurd (h ▸ hfile) (by decide)

/-- So a file of a sweep is nowhere on the way to the files of a sweep. -/
theorem file_ne_folder (q : SweepPlan Float) {front : List String} (hfront : front <+: q.levels)
    (place : Place) (index : ℕ) (ff : Float) :
    place ++ p.levels ++ [p.fileName index ff] ≠ place ++ front := by
  intro heq
  rw [List.append_assoc, List.append_cancel_left_eq] at heq
  refine p.fileName_notMem_levels q index ff (hfront.subset ?_)
  rw [← heq]
  exact List.mem_append_right _ (List.mem_singleton_self _)

/-- Creating the levels leaves the files. -/
theorem entryAt_file_of_createAlong {d d' : Directory} {place : Place}
    (h : d.createAlong place p.levels = .ok d') (index : ℕ) (ff : Float) :
    d'.entryAt (place ++ p.levels ++ [p.fileName index ff]) =
      d.entryAt (place ++ p.levels ++ [p.fileName index ff]) := by
  rcases entryAt_of_createAlong p.up_notMem_levels h
    (place ++ p.levels ++ [p.fileName index ff]) with hsame | ⟨-, -, front, -, hfront, heq⟩
  · exact hsame
  · exact absurd heq (p.file_ne_folder p hfront place index ff)

end Places

/-! ## Plans with one file -/

/-- What two plans agree on if steps of theirs have one file: everything that makes a periodic run,
fractions to six digits, or the level and the number of spheres of a fixed box. -/
def Agree (p q : SweepPlan Float) (i j : ℕ) (x y : Float) : Prop :=
  match p.flavor, q.flavor with
  | .periodic _, .periodic _ =>
    p.spheres = q.spheres ∧ p.iterations = q.iterations ∧ p.seed = q.seed ∧
      general x = general y ∧ general (p.next i x) = general (q.next j y)
  | .absolute _ _ level _, .absolute _ _ level' _ => level = level' ∧ p.spheres = q.spheres
  | _, _ => False

variable {p q : SweepPlan Float}

theorem Agree.spheres {i j : ℕ} {x y : Float} (h : Agree p q i j x y) : p.spheres = q.spheres := by
  rw [Agree] at h
  split at h
  · exact h.1
  · exact h.2
  · exact h.elim

theorem agree_of_names {i j : ℕ} {x y : Float}
    (h : p.levels ++ [p.fileName i x] = q.levels ++ [q.fileName j y]) : Agree p q i j x y := by
  cases hp : p.flavor with
  | periodic start =>
    cases hq : q.flavor with
    | periodic start' =>
      simp only [levels, hp, hq, List.nil_append, List.cons.injEq, and_true] at h
      rw [fileName, fileName, String.append_left_inj] at h
      obtain ⟨hx, hxSmall, hspheres, hiterations, hseed⟩ :=
        (nameAt_periodic_eq_iff hp hq _ _ _ _).mp h
      simp only [Agree, hp, hq]
      exact ⟨hspheres, hiterations, hseed, hx, hxSmall⟩
    | absolute wellWidth boxLength level radius => simp [levels, hp, hq] at h
  | absolute wellWidth boxLength level radius =>
    cases hq : q.flavor with
    | periodic start' => simp [levels, hp, hq] at h
    | absolute wellWidth' boxLength' level' radius' =>
      simp only [levels, hp, hq, List.cons_append, List.nil_append, List.cons.injEq,
        String.append_right_inj, naturalText_inj_iff, true_and] at h
      obtain ⟨hlevel, htag, -⟩ := h
      rw [sphereTag, sphereTag, String.append_right_inj, fillZeros_naturalText_inj_iff] at htag
      simp only [Agree, hp, hq]
      exact ⟨hlevel, htag⟩

theorem agree_of_samePath (hdata : p.dataFolder = q.dataFolder) {i j : ℕ} {x y : Float}
    (h : SamePath (p.stepAt i x).output (q.stepAt j y).output) : Agree p q i j x y :=
  agree_of_names <| names_eq_of_samePath
    (fun home => by rw [origin_output, origin_output, hdata]) (p.pieces_output i x)
    ((q.pieces_output j y).trans (by rw [hdata])) (p.up_notMem_names i x) (q.up_notMem_names j y) h

/-! ## What a run changes -/

section Changes

variable {d d' d₀ : Directory} {place home : Place}

/-- Creating the folder of a sweep is creating the data folder, and then the levels from there. -/
theorem createFolders_folder (hcreate : d.createFolders p.dataFolder = .ok d₀)
    (hfolder : FolderAt d₀ p.dataFolder place) :
    d.createFolders p.folder = d₀.createAlong place p.levels := by
  rcases p.folder_cases with ⟨hlevels, heq⟩ | ⟨path, hpath, hlevels, heq⟩
  · rw [heq, hlevels, hcreate, createAlong]
  · rw [heq, ← hlevels, createFolders_joinPath_eq hcreate hfolder hpath]

theorem exists_createFolders_dataFolder (h : d.createFolders p.folder = .ok d') :
    ∃ between, d.createFolders p.dataFolder = .ok between := by
  rcases p.folder_cases with ⟨-, heq⟩ | ⟨path, hpath, -, heq⟩
  · exact ⟨d', heq ▸ h⟩
  · exact exists_createFolders_of_joinPath hpath (heq ▸ h)

theorem folderAt_folder (hcreate : d.createFolders p.dataFolder = .ok d₀)
    (hfolder : FolderAt d₀ p.dataFolder place) (h : d.createFolders p.folder = .ok d') :
    FolderAt d' p.folder (place ++ p.levels) := by
  obtain ⟨home, hhome⟩ := exists_folderAt_of_createFolders h
  have hgrows := createAlong_grows ((createFolders_folder hcreate hfolder).symm.trans h)
  have hwalk := hhome.walk
  rw [origin_folder, pieces_folder, walk_append, (hfolder.of_grows hgrows).walk] at hwalk
  rwa [← walk_eq_append p.up_notMem_levels hwalk]

/-- The steps of a sweep add files with the names of steps, and nothing else. -/
theorem entryAt_of_recordsFrom {σ : Type} {simulate : Simulator σ}
    {contents : List String → Contents} (hsim : simulate.Reproduces contents) {left index : ℕ}
    {ff : Float} {site site' : Site σ} {result : Except Failure (List (SweepRecord Float))}
    (hfolder : FolderAt site.directory p.folder home)
    (h : p.recordsFrom simulate left index ff site = (result, site')) (place : Place) :
    site'.directory.entryAt place = site.directory.entryAt place ∨
      site.directory.entryAt place = none ∧ ∃ i x, place = home ++ [p.fileName i x] := by
  have hstep : ∀ {index : ℕ} {ff : Float} {d d' : Directory}, FolderAt d p.folder home →
      (p.stepAt index ff).Provides contents d d' → d'.entryAt place = d.entryAt place ∨
        d.entryAt place = none ∧ ∃ i x, place = home ++ [p.fileName i x] := by
    intro index ff d d' hfolder hprovides
    cases hprovides with
    | cached hfile => exact Or.inl rfl
    | written hfile hwrite =>
      obtain ⟨here, hhere, hnone, -, rfl⟩ := exists_put_of_writeFrom hfile hwrite
      rw [output_eq, placeFrom_joinPath hfolder (p.isName_fileName index ff)] at hhere
      obtain rfl := Except.ok.inj hhere
      by_cases heq : place = home ++ [p.fileName index ff]
      · exact Or.inr ⟨heq ▸ hnone, index, ff, heq⟩
      · exact Or.inl (entryAt_put_of_ne d heq _)
  induction left generalizing index ff site result with
  | zero =>
    rw [recordsFrom] at h
    cases h
    exact Or.inl rfl
  | succ left ih =>
    rcases recordsFrom_succ_cases h with ⟨failure, hensure, -⟩ | ⟨failure, hensure, -⟩ |
      ⟨between, record, rest, hensure, -, hrest, -⟩
    · rcases ensure_cases hsim hensure with ⟨hnone, -⟩ | ⟨-, hsame⟩
      · exact absurd hnone (by simp)
      · exact Or.inl (by rw [hsame])
    · rcases ensure_cases hsim hensure with ⟨-, hprovides⟩ | ⟨hsome, -⟩
      · exact hstep hfolder hprovides
      · exact absurd hsome (by simp)
    · rcases ensure_cases hsim hensure with ⟨-, hprovides⟩ | ⟨hsome, -⟩
      · have hgrows := (isFile_and_grows_of_provides hprovides).2
        rcases ih (hfolder.of_grows hgrows) hrest with hkept | ⟨hnone, hname⟩
        · rw [hkept]
          exact hstep hfolder hprovides
        · refine Or.inr ⟨?_, hname⟩
          rcases hstep hfolder hprovides with hsame | ⟨hbefore, -⟩
          · rw [← hsame, hnone]
          · exact hbefore
      · exact absurd hsome (by simp)

/-- A run leaves the directory as it was, or it creates the folder of the sweep and adds files. -/
theorem run_directory_cases {σ : Type} (simulate : Simulator σ) (site : Site σ) :
    (p.run simulate site).2.directory = site.directory ∨
      ∃ created result site', site.directory.createFolders p.folder = .ok created ∧
        p.recordsFrom simulate p.steps 0 (p.initialFraction piDouble)
          { site with directory := created } = (result, site') ∧
        (p.run simulate site).2.directory = site'.directory := by
  rw [run, runWith]
  split
  · exact Or.inl rfl
  · split
    · exact Or.inl rfl
    · rename_i created hcreate
      refine Or.inr ⟨created, _, _, hcreate, rfl, ?_⟩
      split
      · rename_i hrecords
        rw [hrecords]
      · rename_i hrecords
        rw [hrecords]

end Changes

/-! ## Sweeps that are run before -/

/-- A sweep finds in a directory what it would have found in another: the data folder can be created
in both, and then nothing is different at the places of the sweep, but that some of its folders may
be there already. -/
inductive Unaffected (p : SweepPlan Float) (d : Directory) : Directory → Prop where
  | barred {e : PathError} (h : d.createFolders p.dataFolder = .error e) : Unaffected p d d
  | beside {d' d₀ d₀' : Directory} {place : Place}
      (hcreate : d.createFolders p.dataFolder = .ok d₀)
      (hcreate' : d'.createFolders p.dataFolder = .ok d₀')
      (hfolder : FolderAt d₀ p.dataFolder place) (hfolder' : FolderAt d₀' p.dataFolder place)
      (hlevels : Prepares place p.levels d₀ d₀')
      (hfiles : ∀ i x, d₀'.entryAt (place ++ p.levels ++ [p.fileName i x]) =
        d₀.entryAt (place ++ p.levels ++ [p.fileName i x])) : Unaffected p d d'

theorem Unaffected.refl (p : SweepPlan Float) (d : Directory) : Unaffected p d d := by
  cases hcreate : d.createFolders p.dataFolder with
  | error e => exact .barred hcreate
  | ok d₀ =>
    obtain ⟨place, hfolder⟩ := exists_folderAt_of_createFolders hcreate
    exact .beside hcreate hcreate hfolder hfolder (fun front _ => Or.inl rfl) fun i x => rfl

/-- What a run adds behind the data folder: folders on the way to its files, and files. -/
theorem entryAt_of_run {σ : Type} {simulate : Simulator σ} {contents : List String → Contents}
    (hsim : simulate.Reproduces contents) {site : Site σ} {d₀ : Directory} {place : Place}
    (hcreate : site.directory.createFolders q.dataFolder = .ok d₀)
    (hfolder : FolderAt d₀ q.dataFolder place)
    (hchanged : (q.run simulate site).2.directory ≠ site.directory) :
    d₀.Grows (q.run simulate site).2.directory ∧ ∀ other,
      (q.run simulate site).2.directory.entryAt other = d₀.entryAt other ∨
      d₀.entryAt other = none ∧
        ((q.run simulate site).2.directory.entryAt other = some .folder ∧
            (∃ front, front <+: q.levels ∧ other = place ++ front) ∨
          ∃ j y, other = place ++ q.levels ++ [q.fileName j y]) := by
  rcases run_directory_cases (p := q) simulate site with hsame | hruns
  · exact absurd hsame hchanged
  · obtain ⟨created, result, site', hcreated, hrecords, hdirectory⟩ := hruns
    have halong := (createFolders_folder hcreate hfolder).symm.trans hcreated
    have hhome := folderAt_folder hcreate hfolder hcreated
    rw [hdirectory]
    refine ⟨(createAlong_grows halong).trans (recordsFrom_grows hsim hrecords), fun other => ?_⟩
    have hlevel := entryAt_of_createAlong q.up_notMem_levels halong other
    rcases entryAt_of_recordsFrom hsim hhome hrecords other with hkept | ⟨hnone, hname⟩
    · rw [hkept]
      rcases hlevel with hsame | ⟨hnone, hnew, front, -, hfront, heq⟩
      · exact Or.inl hsame
      · exact Or.inr ⟨hnone, Or.inl ⟨hnew, front, hfront, heq⟩⟩
    · refine Or.inr ⟨?_, Or.inr hname⟩
      rcases hlevel with hsame | ⟨hbefore, -⟩
      · rw [← hsame]
        exact hnone
      · exact hbefore

/-- A run of a sweep over another number of spheres leaves what a sweep finds as it was. -/
theorem unaffected_run {σ : Type} {simulate : Simulator σ} {contents : List String → Contents}
    (hsim : simulate.Reproduces contents) (hdata : q.dataFolder = p.dataFolder)
    (hspheres : q.spheres ≠ p.spheres) {d : Directory} {site : Site σ}
    (h : Unaffected p d site.directory) : Unaffected p d (q.run simulate site).2.directory := by
  by_cases hchanged : (q.run simulate site).2.directory = site.directory
  · rwa [hchanged]
  · generalize hsite : site.directory = d' at h
    cases h with
    | barred hbarred =>
      rcases run_directory_cases (p := q) simulate site with hsame | ⟨_, _, _, hcreated, -, -⟩
      · exact absurd hsame hchanged
      · obtain ⟨between, hbetween⟩ := exists_createFolders_dataFolder hcreated
        rw [hdata, hsite, hbarred] at hbetween
        exact absurd hbetween (by simp)
    | @beside _ d₀ d₀' place hcreate hcreate' hfolder hfolder' hlevels hfiles =>
      obtain ⟨hgrows, hentry⟩ := entryAt_of_run hsim (hdata ▸ hsite ▸ hcreate')
        (hdata ▸ hfolder') hchanged
      refine .beside hcreate (createFolders_of_grows hcreate' hgrows) hfolder
        (hfolder'.of_grows hgrows) (fun front hfront => ?_) fun i x => ?_
      · -- A folder of the sweep is no file of the other one, which may have created it.
        rcases hentry (place ++ front) with hsame | ⟨hnone, ⟨hnew, -⟩ | ⟨j, y, heq⟩⟩
        · rw [hsame]
          exact hlevels front hfront
        · refine Or.inr ⟨?_, hnew⟩
          rcases hlevels front hfront with hkept | ⟨hbefore, -⟩
          · rw [← hkept, hnone]
          · exact hbefore
        · exact absurd heq.symm (q.file_ne_folder p hfront place j y)
      · rw [← hfiles i x]
        rcases hentry (place ++ p.levels ++ [p.fileName i x]) with hsame |
          ⟨-, ⟨-, front, hfront, heq⟩ | ⟨j, y, heq⟩⟩
        · exact hsame
        · exact absurd heq (p.file_ne_folder q hfront place i x)
        · rw [List.append_assoc, List.append_assoc, List.append_cancel_left_eq] at heq
          exact absurd (agree_of_names heq).spheres.symm hspheres

/-! ## What a run depends on -/

/-- The names of the files of a sweep. -/
def fileNames (p : SweepPlan Float) : Set String := {name | ∃ i x, name = p.fileName i x}

/-- A step comes to the same where its file is the same. -/
theorem ensure_of_sameFiles (contents : List String → Contents) {home : Place} {d d' : Directory}
    (h : SameFiles p.folder home p.fileNames d d') (index : ℕ) (ff : Float)
    (calls : List (List String)) :
    ∃ failure e e' calls', SameFiles p.folder home p.fileNames e e' ∧
      (p.stepAt index ff).ensure (.steady contents) ⟨(), d, calls⟩ = (failure, ⟨(), e, calls'⟩) ∧
      (p.stepAt index ff).ensure (.steady contents) ⟨(), d', calls⟩ =
        (failure, ⟨(), e', calls'⟩) := by
  have hname : p.fileName index ff ∈ p.fileNames := ⟨index, ff, rfl⟩
  rw [SweepStep.ensure, SweepStep.ensure, Site.call, Site.call, Simulator.steady, Simulator.steady,
    p.outputOf?_command index ff]
  dsimp only
  rw [output_eq, h.isFile_eq hname]
  split
  · exact ⟨none, d, d', calls, h, rfl, rfl⟩
  · rcases h.writeFrom_cases hname (contents (p.stepAt index ff).command) with
      ⟨e, hwrite, hwrite'⟩ | ⟨written, written', hwrite, hwrite', hsame⟩
    · rw [hwrite, hwrite']
      exact ⟨_, d, d', _, h, rfl, rfl⟩
    · rw [hwrite, hwrite']
      exact ⟨none, written, written', _, hsame, rfl, rfl⟩

theorem record_of_sameFiles {home : Place} {d d' : Directory}
    (h : SameFiles p.folder home p.fileNames d d') (index : ℕ) (ff : Float) :
    (p.stepAt index ff).record d' = (p.stepAt index ff).record d := by
  rw [SweepStep.record, SweepStep.record, Header.load, Header.load, output_eq,
    h.readText_eq ⟨index, ff, rfl⟩]

/-- So do all steps. -/
theorem recordsFrom_of_sameFiles (contents : List String → Contents) {home : Place}
    {d d' : Directory} (h : SameFiles p.folder home p.fileNames d d') (left index : ℕ) (ff : Float)
    (calls : List (List String)) :
    ∃ result e e' calls',
      p.recordsFrom (.steady contents) left index ff ⟨(), d, calls⟩ =
        (result, ⟨(), e, calls'⟩) ∧
      p.recordsFrom (.steady contents) left index ff ⟨(), d', calls⟩ =
        (result, ⟨(), e', calls'⟩) := by
  induction left generalizing index ff d d' calls with
  | zero => exact ⟨_, d, d', calls, rfl, rfl⟩
  | succ left ih =>
    obtain ⟨failure, e, e', calls', hsame, hensure, hensure'⟩ :=
      ensure_of_sameFiles contents h index ff calls
    rw [recordsFrom, recordsFrom, hensure, hensure']
    cases failure with
    | some failure => exact ⟨_, e, e', calls', rfl, rfl⟩
    | none =>
      dsimp only
      rw [record_of_sameFiles hsame]
      cases (p.stepAt index ff).record e with
      | error failure => exact ⟨_, e, e', calls', rfl, rfl⟩
      | ok record =>
        dsimp only
        obtain ⟨result, last, last', calls'', hrest, hrest'⟩ :=
          ih hsame (index + 1) record.ffSmall calls'
        rw [hrest, hrest']
        cases result with
        | error failure => exact ⟨_, last, last', calls'', rfl, rfl⟩
        | ok records => exact ⟨_, last, last', calls'', rfl, rfl⟩

/-- A run comes to the same, with the same calls, where it finds the same. -/
theorem run_of_unaffected (contents : List String → Contents) {d d' : Directory}
    (h : Unaffected p d d') (calls : List (List String)) :
    (p.run (.steady contents) ⟨(), d', calls⟩).1 = (p.run (.steady contents) ⟨(), d, calls⟩).1 ∧
      (p.run (.steady contents) ⟨(), d', calls⟩).2.calls =
        (p.run (.steady contents) ⟨(), d, calls⟩).2.calls := by
  cases h with
  | barred => exact ⟨rfl, rfl⟩
  | @beside _ d₀ d₀' place hcreate hcreate' hfolder hfolder' hlevels hfiles =>
    rw [run, run, runWith, runWith]
    split
    · exact ⟨rfl, rfl⟩
    · dsimp only
      have heq := createFolders_folder hcreate hfolder
      have heq' := createFolders_folder hcreate' hfolder'
      rcases createAlong_of_prepares p.up_notMem_levels hlevels with
        ⟨e, halong, halong'⟩ | ⟨created, created', halong, halong'⟩
      · rw [heq, heq', halong, halong']
        exact ⟨rfl, rfl⟩
      · have hsame : SameFiles p.folder (place ++ p.levels) p.fileNames created created' := by
          refine ⟨folderAt_folder hcreate hfolder (heq.trans halong),
            folderAt_folder hcreate' hfolder' (heq'.trans halong'), ?_, ?_⟩
          · rintro name ⟨i, x, rfl⟩
            exact p.isName_fileName i x
          · rintro name ⟨i, x, rfl⟩
            rw [entryAt_file_of_createAlong p halong, entryAt_file_of_createAlong p halong', hfiles]
        obtain ⟨result, e, e', calls', hrun, hrun'⟩ :=
          recordsFrom_of_sameFiles contents hsame p.steps 0 (p.initialFraction piDouble) calls
        rw [heq, heq', halong, halong']
        dsimp only
        rw [hrun, hrun']
        cases result with
        | error failure => exact ⟨rfl, rfl⟩
        | ok records => exact ⟨rfl, rfl⟩

/-- The site after runs of some sweeps, one after the other. -/
def runAll {σ : Type} (simulate : Simulator σ) (site : Site σ) (sweeps : List (SweepPlan Float)) :
    Site σ :=
  sweeps.foldl (fun site sweep => (sweep.run simulate site).2) site

theorem unaffected_runAll {σ : Type} {simulate : Simulator σ} {contents : List String → Contents}
    (hsim : simulate.Reproduces contents) {sweeps : List (SweepPlan Float)}
    (hsweeps : ∀ sweep ∈ sweeps, sweep.dataFolder = p.dataFolder ∧ sweep.spheres ≠ p.spheres)
    {d : Directory} {site : Site σ} (h : Unaffected p d site.directory) :
    Unaffected p d (runAll simulate site sweeps).directory := by
  induction sweeps generalizing site with
  | nil => exact h
  | cons sweep rest ih =>
    obtain ⟨⟨hdata, hspheres⟩, hrest⟩ := List.forall_mem_cons.mp hsweeps
    exact ih hrest (unaffected_run hsim hdata hspheres h)

/-- **Sweeps that share a data folder.**  Two plans with one output file agree on what makes a run:
both are periodic, with the same numbers and the same fractions to six digits, or both are of a
fixed box, of the same level and the same number of spheres.  So sweeps over different numbers of
spheres have no file in common, and after any such sweeps, in any order, whatever they came to, a
sweep calls its simulator and ends just as it would have done without them. -/
theorem sweeps_apart (p : SweepPlan Float) :
    (∀ q : SweepPlan Float, q.dataFolder = p.dataFolder → ∀ i j x y,
      SamePath (p.stepAt i x).output (q.stepAt j y).output →
        Agree p q i j x y) ∧
    ∀ sweeps : List (SweepPlan Float),
      (∀ q ∈ sweeps, q.dataFolder = p.dataFolder ∧ q.spheres ≠ p.spheres) →
      (∀ q ∈ sweeps, ∀ i j x y, ¬SamePath (p.stepAt i x).output (q.stepAt j y).output) ∧
      ∀ (σ : Type) (simulate : Simulator σ) (written contents : List String → Contents),
        simulate.Reproduces written → ∀ (site : Site σ) (calls : List (List String)),
          let before := p.run (.steady contents) ⟨(), site.directory, calls⟩
          let after := p.run (.steady contents)
            ⟨(), (runAll simulate site sweeps).directory, calls⟩
          after.1 = before.1 ∧ after.2.calls = before.2.calls := by
  refine ⟨fun q hdata i j x y hpath => agree_of_samePath hdata.symm hpath,
    fun sweeps hsweeps => ⟨fun q hq i j x y hpath => ?_, ?_⟩⟩
  · obtain ⟨hdata, hspheres⟩ := hsweeps q hq
    exact hspheres (agree_of_samePath hdata.symm hpath).spheres.symm
  · intro σ simulate written contents hsim site calls
    exact run_of_unaffected contents
      (unaffected_runAll hsim hsweeps (Unaffected.refl p site.directory)) calls

/-- Ten spheres, after twenty of them and after a thousand in a fixed box: the sweep comes to the
same, and it has the files of a longer sweep over ten spheres. -/
theorem sweeps_apart_ten :
    let ten : SweepPlan Float := { (standard : SweepPlan Float) with dataFolder := "/data" }
    let twenty : SweepPlan Float := { ten with spheres := 20 }
    let box : SweepPlan Float := { fixedBox with spheres := 1000 }
    let start : Site Unit := ⟨(), .empty ["work"], []⟩
    Agree ten { ten with steps := 30 } 0 0 0 0 ∧
      ¬SamePath (ten.stepAt 3 0.15).output (box.stepAt 0 0.15).output ∧
      (ten.run (.steady reportFor)
          ⟨(), (runAll reporting start [twenty, box, twenty]).directory, []⟩).1 =
        (ten.run (.steady reportFor) ⟨(), start.directory, []⟩).1 := by
  intro ten twenty box start
  obtain ⟨hagree, hapart⟩ := sweeps_apart ten
  obtain ⟨hfiles, hruns⟩ :=
    hapart [twenty, box, twenty] (by simp [ten, twenty, box, standard, fixedBox])
  refine ⟨hagree { ten with steps := 30 } rfl 0 0 0 0 (Or.inl rfl),
    hfiles box (by simp) 3 0 0.15 0.15, ?_⟩
  exact (hruns Unit reporting reportFor reportFor reproduces_reporting start []).1

end SweepPlan

end SphereLab
