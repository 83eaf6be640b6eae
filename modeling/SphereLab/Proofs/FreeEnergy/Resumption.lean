import Mathlib
import SphereLab.Proofs.Directory.Growth
import SphereLab.Proofs.FreeEnergy.Calls

/-!
# Sweeps that are interrupted

A sweep leaves the file of every step that it has simulated, and reads the file of a step that is
there.  So a sweep that broke off because its simulator failed can be run again: it reads back what
was done, and goes on from there.  What it comes to in the end is what it would have come to
without the interruption.

The simulators of this module write the same file whenever they are called with the same command,
or fail and write nothing.  When they fail is up to them.

* `Completes`: what the steps of a sweep come to in a directory, said without a simulator.
* `completes_of_recordsFrom`, `Completes.recordsFrom_steady`: this is what a run comes to that is
  not interrupted.
* `Completes.of_recordsFrom_error`: what remains to be done after an interruption comes to the same
  as the whole.
* `Restarted`: a sweep that is run again and again until it succeeds.
* `run_again_and_restarted`: a sweep that has succeeded is read back by running it again, and one
  that is restarted comes to what it comes to without interruptions, and never succeeds twice with
  one file.
-/

namespace SphereLab

/-! ## Simulators whose files depend on their commands -/

/-- The file that a command names. -/
def outputOf? (command : List String) : Option String :=
  (optionOf? command "--filename").bind fun name =>
    (optionOf? command "--data_dir").map fun folder => joinPath folder (name ++ "-g.dat")

namespace Simulator

variable {σ : Type}

/-- A call that succeeds writes just the file that its command names, with contents that depend on
the command alone, and a call that fails leaves the directory as it was. -/
def Reproduces (simulate : Simulator σ) (contents : List String → Contents) : Prop :=
  ∀ command path state d, outputOf? command = some path →
    (∃ failure state', simulate command (state, d) = (some failure, state', d)) ∨
      ∃ state' d', simulate command (state, d) = (none, state', d') ∧
        d.writeFrom d.home path (contents command) = .ok d'

/-- The simulator that writes the file that its command names whenever that can be done. -/
def steady (contents : List String → Contents) : Simulator Unit := fun command (state, d) =>
  match outputOf? command with
  | none => (some (.input "no output file"), state, d)
  | some path =>
    match d.writeFrom d.home path (contents command) with
    | .ok d' => (none, state, d')
    | .error e => (some (Filing.unwritable path e), state, d)

/-- The simulator with a list of the commands that it has succeeded with. -/
def logged (simulate : Simulator σ) : Simulator (σ × List (List String)) :=
  fun command ((state, log), d) =>
    match simulate command (state, d) with
    | (none, state, d) => (none, (state, log ++ [command]), d)
    | (some failure, state, d) => (some failure, (state, log), d)

theorem reproduces_steady (contents : List String → Contents) :
    (steady contents).Reproduces contents := by
  intro command path state d houtput
  rw [steady, houtput]
  dsimp only
  split
  · rename_i d' hwrite
    exact Or.inr ⟨state, d', rfl, hwrite⟩
  · exact Or.inl ⟨_, state, rfl⟩

end Simulator

/-- The site with another state of its simulator. -/
def Site.mapState {σ τ : Type} (f : σ → τ) (site : Site σ) : Site τ :=
  ⟨f site.state, site.directory, site.calls⟩

@[simp] theorem Site.directory_mapState {σ τ : Type} (f : σ → τ) (site : Site σ) :
    (site.mapState f).directory = site.directory := rfl

/-! ## One step -/

namespace SweepStep

/-- A step leads from a directory to another: its file is there, or it is written. -/
inductive Provides (contents : List String → Contents) (s : SweepStep Float) (d : Directory) :
    Directory → Prop where
  | cached (hfile : d.isFile s.output = true) : Provides contents s d d
  | written {d' : Directory} (hfile : d.isFile s.output = false)
      (hwrite : d.writeFrom d.home s.output (contents s.command) = .ok d') : Provides contents s d d'

/-- A file that was there reads as the same record. -/
theorem record_of_grows (s : SweepStep Float) {d d' : Directory} (hgrows : d.Grows d')
    (hfile : d.isFile s.output = true) : s.record d' = s.record d := by
  rw [record, record, Header.load, Header.load, Directory.readText_of_grows hgrows hfile]

end SweepStep

namespace SweepPlan

theorem outputOf?_command (p : SweepPlan Float) (index : Nat) (ff : Float) :
    outputOf? (p.stepAt index ff).command = some (p.stepAt index ff).output := by
  obtain ⟨hname, hfolder, _⟩ := p.optionOf?_commandAt ff (p.next index ff)
  rw [outputOf?, stepAt, hname, hfolder]
  rfl

variable {σ : Type} {p : SweepPlan Float} {simulate : Simulator σ}
  {contents : List String → Contents} {site site' : Site σ} {d d' d'' : Directory}
  {left index : Nat} {ff : Float} {records : List (SweepRecord Float)}

/-- After a step its file is there, and nothing that was there has changed. -/
theorem isFile_and_grows_of_provides
    (h : (p.stepAt index ff).Provides contents d d') :
    d'.isFile (p.stepAt index ff).output = true ∧ d.Grows d' := by
  cases h with
  | cached hfile => exact ⟨hfile, Directory.Grows.refl d⟩
  | written hfile hwrite =>
    exact ⟨Directory.isFile_of_writeFrom hfile hwrite, Directory.writeFrom_grows hfile hwrite⟩

/-- A step whose simulator fails leaves the directory as it was. -/
theorem ensure_cases (hsim : simulate.Reproduces contents) {failure : Option Failure}
    (h : (p.stepAt index ff).ensure simulate site = (failure, site')) :
    failure = none ∧ (p.stepAt index ff).Provides contents site.directory site'.directory ∨
      failure.isSome = true ∧ site'.directory = site.directory := by
  rw [SweepStep.ensure] at h
  split at h
  · rename_i hfile
    cases h
    exact Or.inl ⟨rfl, .cached hfile⟩
  · rename_i hfile
    rw [Bool.not_eq_true] at hfile
    rw [Site.call] at h
    rcases hsim _ _ site.state site.directory (p.outputOf?_command index ff) with
      ⟨failure', state', hcall⟩ | ⟨state', d', hcall, hwrite⟩
    · rw [hcall] at h
      cases h
      exact Or.inr ⟨rfl, rfl⟩
    · rw [hcall] at h
      cases h
      exact Or.inl ⟨rfl, .written hfile hwrite⟩

/-! ## All steps -/

/-- What the steps from an index and a filling fraction on come to in a directory, and the
directory that they leave. -/
inductive Completes (p : SweepPlan Float) (contents : List String → Contents) :
    Nat → Nat → Float → Directory → List (SweepRecord Float) → Directory → Prop where
  | nil (index : Nat) (ff : Float) (d : Directory) : Completes p contents 0 index ff d [] d
  | cons {left index : Nat} {ff : Float} {d d' d'' : Directory} {record : SweepRecord Float}
      {records : List (SweepRecord Float)}
      (hprovides : (p.stepAt index ff).Provides contents d d')
      (hrecord : (p.stepAt index ff).record d' = .ok record)
      (hrest : Completes p contents left (index + 1) record.ffSmall d' records d'') :
      Completes p contents (left + 1) index ff d (record :: records) d''

/-- The ways in which the next step of a run can end: the simulator fails, the file cannot be read
as a record, or the run goes on. -/
theorem recordsFrom_succ_cases {result : Except Failure (List (SweepRecord Float))}
    (h : p.recordsFrom simulate (left + 1) index ff site = (result, site')) :
    (∃ failure, (p.stepAt index ff).ensure simulate site = (some failure, site') ∧
        result = .error failure) ∨
      (∃ failure, (p.stepAt index ff).ensure simulate site = (none, site') ∧
        (p.stepAt index ff).record site'.directory = .error failure ∧ result = .error failure) ∨
      ∃ between record rest, (p.stepAt index ff).ensure simulate site = (none, between) ∧
        (p.stepAt index ff).record between.directory = .ok record ∧
        p.recordsFrom simulate left (index + 1) record.ffSmall between = (rest, site') ∧
        result = rest.map (record :: ·) := by
  rw [recordsFrom] at h
  split at h
  · rename_i failure between hensure
    cases h
    exact Or.inl ⟨failure, hensure, rfl⟩
  · rename_i between hensure
    split at h
    · rename_i failure hrecord
      cases h
      exact Or.inr (Or.inl ⟨failure, hensure, hrecord, rfl⟩)
    · rename_i record hrecord
      split at h
      · rename_i failure last hrest
        cases h
        exact Or.inr (Or.inr ⟨between, record, .error failure, hensure, hrecord, hrest, rfl⟩)
      · rename_i records last hrest
        cases h
        exact Or.inr (Or.inr ⟨between, record, .ok records, hensure, hrecord, hrest, rfl⟩)

/-- A run only adds files. -/
theorem recordsFrom_grows (hsim : simulate.Reproduces contents)
    {result : Except Failure (List (SweepRecord Float))}
    (h : p.recordsFrom simulate left index ff site = (result, site')) :
    site.directory.Grows site'.directory := by
  induction left generalizing index ff site result with
  | zero =>
    rw [recordsFrom] at h
    cases h
    exact Directory.Grows.refl _
  | succ left ih =>
    rcases recordsFrom_succ_cases h with ⟨failure, hensure, _⟩ | ⟨failure, hensure, _, _⟩ |
      ⟨between, record, rest, hensure, _, hrest, _⟩
    · rcases ensure_cases hsim hensure with ⟨hnone, _⟩ | ⟨_, hsame⟩
      · exact absurd hnone (by simp)
      · rw [hsame]
        exact Directory.Grows.refl _
    · rcases ensure_cases hsim hensure with ⟨_, hprovides⟩ | ⟨hsome, _⟩
      · exact (isFile_and_grows_of_provides hprovides).2
      · exact absurd hsome (by simp)
    · rcases ensure_cases hsim hensure with ⟨_, hprovides⟩ | ⟨hsome, _⟩
      · exact (isFile_and_grows_of_provides hprovides).2.trans (ih hrest)
      · exact absurd hsome (by simp)

/-- A run that is not interrupted completes the steps. -/
theorem completes_of_recordsFrom (hsim : simulate.Reproduces contents)
    (h : p.recordsFrom simulate left index ff site = (.ok records, site')) :
    p.Completes contents left index ff site.directory records site'.directory := by
  induction left generalizing index ff site records with
  | zero =>
    rw [recordsFrom] at h
    cases h
    exact .nil index ff _
  | succ left ih =>
    rcases recordsFrom_succ_cases h with ⟨failure, _, hresult⟩ | ⟨failure, _, _, hresult⟩ |
      ⟨between, record, rest, hensure, hrecord, hrest, hresult⟩
    · exact absurd hresult (by simp)
    · exact absurd hresult (by simp)
    · rcases ensure_cases hsim hensure with ⟨_, hprovides⟩ | ⟨hsome, _⟩
      · cases rest with
        | error failure => exact absurd hresult (by simp [Except.map])
        | ok rest =>
          cases hresult
          exact .cons hprovides hrecord (ih hrest)
      · exact absurd hsome (by simp)

/-- Steps whose file is there are completed as they are. -/
theorem Completes.grows (h : p.Completes contents left index ff d records d') : d.Grows d' := by
  induction h with
  | nil index ff d => exact Directory.Grows.refl d
  | cons hprovides _ _ ih => exact (isFile_and_grows_of_provides hprovides).2.trans ih

/-- Where all steps have been completed, any simulator will do: it is not called. -/
theorem Completes.recordsFrom_eq (h : p.Completes contents left index ff d records d')
    (hgrows : d'.Grows site.directory) :
    p.recordsFrom simulate left index ff site = (.ok records, site) := by
  induction h with
  | nil index ff d => rw [recordsFrom]
  | @cons left index ff d d' d'' record records hprovides hrecord hrest ih =>
    obtain ⟨hfile, _⟩ := isFile_and_grows_of_provides hprovides
    have hthere := hrest.grows.trans hgrows
    have hensure : (p.stepAt index ff).ensure simulate site = (none, site) := by
      rw [SweepStep.ensure, if_pos (Directory.isFile_of_grows hthere hfile)]
    have hread : (p.stepAt index ff).record site.directory = .ok record := by
      rw [SweepStep.record_of_grows _ hthere hfile, hrecord]
    exact recordsFrom_of_record hensure hread (ih hgrows)

/-- **Resumption.**  If the steps are completed from where a run broke off, the same completes them
from where the run began. -/
theorem Completes.of_recordsFrom_error (hsim : simulate.Reproduces contents) {failure : Failure}
    (hrun : p.recordsFrom simulate left index ff site = (.error failure, site'))
    (h : p.Completes contents left index ff site'.directory records d') :
    p.Completes contents left index ff site.directory records d' := by
  induction left generalizing index ff site records failure with
  | zero =>
    rw [recordsFrom] at hrun
    exact absurd (congrArg Prod.fst hrun) (by simp)
  | succ left ih =>
    rcases recordsFrom_succ_cases hrun with ⟨cause, hensure, _⟩ | ⟨cause, hensure, hcause, _⟩ |
      ⟨between, record, rest, hensure, hrecord, hrest, hresult⟩
    · -- The simulator failed at once, and left the directory as it was.
      rcases ensure_cases hsim hensure with ⟨hnone, _⟩ | ⟨_, hsame⟩
      · exact absurd hnone (by simp)
      · rwa [← hsame]
    · -- A file that cannot be read stays, so the steps cannot be completed.
      rcases ensure_cases hsim hensure with ⟨_, hprovides⟩ | ⟨hsome, _⟩
      · obtain ⟨hfile, _⟩ := isFile_and_grows_of_provides hprovides
        cases h with
        | cons hprovides' hrecord' _ =>
          cases hprovides' with
          | cached _ =>
            rw [hcause] at hrecord'
            exact absurd hrecord' (by simp)
          | written hnone _ => exact absurd hfile (by simp [hnone])
      · exact absurd hsome (by simp)
    · rcases ensure_cases hsim hensure with ⟨_, hprovides⟩ | ⟨hsome, _⟩
      · obtain ⟨hfile, _⟩ := isFile_and_grows_of_provides hprovides
        cases rest with
        | ok rest => exact absurd hresult (by simp [Except.map])
        | error cause =>
          have hgrows := recordsFrom_grows hsim hrest
          have hthere := Directory.isFile_of_grows hgrows hfile
          have hread := SweepStep.record_of_grows (p.stepAt index ff) hgrows hfile
          cases h with
          | cons hprovides' hrecord' hrest' =>
            cases hprovides' with
            | cached _ =>
              rw [hread, hrecord] at hrecord'
              cases hrecord'
              exact .cons hprovides hrecord (ih hrest hrest')
            | written hnone _ => exact absurd hthere (by simp [hnone])
      · exact absurd hsome (by simp)

/-- The steps are completed by the steady simulator. -/
theorem Completes.recordsFrom_steady (h : p.Completes contents left index ff d records d')
    (calls : List (List String)) :
    ∃ calls', p.recordsFrom (.steady contents) left index ff ⟨(), d, calls⟩ =
      (.ok records, ⟨(), d', calls'⟩) := by
  induction h generalizing calls with
  | nil index ff d => exact ⟨calls, by rw [recordsFrom]⟩
  | @cons left index ff d d' d'' record records hprovides hrecord _ ih =>
    have hensure : ∃ between, (p.stepAt index ff).ensure (.steady contents) ⟨(), d, calls⟩ =
        (none, ⟨(), d', between⟩) := by
      cases hprovides with
      | cached hfile => exact ⟨calls, by rw [SweepStep.ensure, if_pos hfile]⟩
      | written hfile hwrite =>
        refine ⟨calls ++ [(p.stepAt index ff).command], ?_⟩
        rw [SweepStep.ensure, if_neg (by simp [hfile]), Site.call, Simulator.steady,
          p.outputOf?_command index ff]
        dsimp only
        rw [hwrite]
    obtain ⟨between, hensure⟩ := hensure
    obtain ⟨calls', hrest⟩ := ih between
    exact ⟨calls', recordsFrom_of_record hensure hrecord hrest⟩

/-! ## Runs -/

/-- What a sweep comes to in a directory, and the directory that it leaves. -/
def Amounts (p : SweepPlan Float) (contents : List String → Contents) (d : Directory)
    (s : Sweep Float) (d' : Directory) : Prop :=
  p.isEmptyCell = false ∧ ∃ prepared records, d.createFolders p.folder = .ok prepared ∧
    p.Completes contents p.steps 0 (p.initialFraction piDouble) prepared records d' ∧
    s = .ofRecords p.spheres records

variable {s : Sweep Float}

theorem amounts_of_run (hsim : simulate.Reproduces contents)
    (h : p.run simulate site = (.ok s, site')) :
    p.Amounts contents site.directory s site'.directory := by
  rw [run, runWith] at h
  split at h
  · exact absurd (congrArg Prod.fst h) (by simp)
  · rename_i hspheres
    split at h
    · exact absurd (congrArg Prod.fst h) (by simp)
    · rename_i prepared hcreate
      split at h
      · exact absurd (congrArg Prod.fst h) (by simp)
      · rename_i records last hrun
        cases h
        exact ⟨Bool.not_eq_true _ ▸ hspheres, prepared, records, hcreate,
          completes_of_recordsFrom hsim hrun, rfl⟩

/-- A run in a directory whose folders are there. -/
theorem run_of_createFolders (hspheres : p.isEmptyCell = false) {prepared : Directory}
    (hcreate : site.directory.createFolders p.folder = .ok prepared)
    {records : List (SweepRecord Float)}
    (hrun : p.recordsFrom simulate p.steps 0 (p.initialFraction piDouble)
      { site with directory := prepared } = (.ok records, site')) :
    p.run simulate site = (.ok (.ofRecords p.spheres records), site') := by
  rw [run, runWith, hspheres, if_neg (by decide), hcreate]
  dsimp only
  rw [hrun]
  rfl

/-- A sweep that has been completed is read back, and its simulator is not called. -/
theorem Amounts.run_eq (h : p.Amounts contents d s d') (hdirectory : site.directory = d') :
    p.run simulate site = (.ok s, site) := by
  obtain ⟨hspheres, prepared, records, hcreate, hcompletes, rfl⟩ := h
  have hagain : site.directory.createFolders p.folder = .ok site.directory := by
    rw [hdirectory]
    exact Directory.createFolders_of_grows hcreate hcompletes.grows
  refine run_of_createFolders hspheres hagain (hcompletes.recordsFrom_eq ?_)
  rw [hdirectory]
  exact Directory.Grows.refl d'

/-- A sweep that has been completed after an interruption comes to what it would have come to
without. -/
theorem Amounts.of_run_error (hsim : simulate.Reproduces contents) {failure : Failure}
    (hrun : p.run simulate site = (.error failure, site'))
    (h : p.Amounts contents site'.directory s d') : p.Amounts contents site.directory s d' := by
  rw [run, runWith] at hrun
  split at hrun
  · cases hrun
    exact h
  · split at hrun
    · cases hrun
      exact h
    · rename_i prepared hcreate
      split at hrun
      · rename_i cause last hrest
        cases hrun
        obtain ⟨hspheres, again, records, hagain, hcompletes, hs⟩ := h
        rw [Directory.createFolders_of_grows hcreate (recordsFrom_grows hsim hrest)] at hagain
        cases hagain
        exact ⟨hspheres, prepared, records, hcreate,
          .of_recordsFrom_error hsim hrest hcompletes, hs⟩
      · exact absurd (congrArg Prod.fst hrun) (by simp)

theorem Amounts.run_steady (h : p.Amounts contents d s d') :
    ∃ calls, p.run (.steady contents) ⟨(), d, []⟩ = (.ok s, ⟨(), d', calls⟩) := by
  obtain ⟨hspheres, prepared, records, hcreate, hcompletes, rfl⟩ := h
  obtain ⟨calls, hrun⟩ := hcompletes.recordsFrom_steady []
  exact ⟨calls, run_of_createFolders hspheres hcreate hrun⟩

/-! ## Restarts -/

/-- A sweep is run again and again, each time on what the last run has left, until it succeeds. -/
inductive Restarted (p : SweepPlan Float) (simulate : Simulator σ) :
    Site σ → Sweep Float → Site σ → Prop where
  | done {site site' : Site σ} {s : Sweep Float} (hrun : p.run simulate site = (.ok s, site')) :
      Restarted p simulate site s site'
  | again {site between site' : Site σ} {s : Sweep Float} {failure : Failure}
      (hrun : p.run simulate site = (.error failure, between))
      (hrest : Restarted p simulate between s site') : Restarted p simulate site s site'

theorem Restarted.amounts (hsim : simulate.Reproduces contents)
    (h : p.Restarted simulate site s site') :
    p.Amounts contents site.directory s site'.directory := by
  induction h with
  | done hrun => exact amounts_of_run hsim hrun
  | again hrun _ ih => exact ih.of_run_error hsim hrun

/-! ## Following a run from another simulator -/

section Follows

variable {τ : Type} {follower : Simulator τ} {f : σ → τ}

/-- A simulator does what another does, in states that belong to those of the other. -/
def Follows (follower : Simulator τ) (simulate : Simulator σ) (f : σ → τ) : Prop :=
  ∀ command state d, follower command (f state, d) =
    ((simulate command (state, d)).1, f (simulate command (state, d)).2.1,
      (simulate command (state, d)).2.2)

theorem Follows.ensure (h : Follows follower simulate f) (step : SweepStep Float)
    (site : Site σ) :
    step.ensure follower (site.mapState f) =
      ((step.ensure simulate site).1, (step.ensure simulate site).2.mapState f) := by
  rw [SweepStep.ensure, SweepStep.ensure, Site.directory_mapState]
  split
  · rfl
  · rw [Site.call, Site.call, Site.mapState, h]
    rfl

theorem Follows.recordsFrom (h : Follows follower simulate f) (left index : Nat) (ff : Float)
    (site : Site σ) :
    p.recordsFrom follower left index ff (site.mapState f) =
      ((p.recordsFrom simulate left index ff site).1,
        (p.recordsFrom simulate left index ff site).2.mapState f) := by
  induction left generalizing index ff site with
  | zero => rw [SweepPlan.recordsFrom, SweepPlan.recordsFrom]
  | succ left ih =>
    rw [SweepPlan.recordsFrom, SweepPlan.recordsFrom, h.ensure]
    generalize (p.stepAt index ff).ensure simulate site = after
    obtain ⟨failure, between⟩ := after
    cases failure with
    | some failure => rfl
    | none =>
      dsimp only
      rw [Site.directory_mapState]
      generalize (p.stepAt index ff).record between.directory = read
      cases read with
      | error failure => rfl
      | ok record =>
        dsimp only
        rw [ih]
        generalize p.recordsFrom simulate left (index + 1) record.ffSmall between = rest
        obtain ⟨result, last⟩ := rest
        cases result with
        | error failure => rfl
        | ok records => rfl

theorem Follows.run (h : Follows follower simulate f) (site : Site σ) :
    p.run follower (site.mapState f) =
      ((p.run simulate site).1, (p.run simulate site).2.mapState f) := by
  rw [SweepPlan.run, SweepPlan.run, runWith, runWith, Site.directory_mapState]
  split
  · rfl
  · generalize site.directory.createFolders p.folder = created
    cases created with
    | error e => rfl
    | ok prepared =>
      have hrest : p.recordsFrom follower p.steps 0 (p.initialFraction piDouble)
          { site.mapState f with directory := prepared } =
          ((p.recordsFrom simulate p.steps 0 (p.initialFraction piDouble)
              { site with directory := prepared }).1,
            (p.recordsFrom simulate p.steps 0 (p.initialFraction piDouble)
              { site with directory := prepared }).2.mapState f) :=
        h.recordsFrom p.steps 0 (p.initialFraction piDouble) { site with directory := prepared }
      dsimp only
      rw [hrest]
      generalize p.recordsFrom simulate p.steps 0 (p.initialFraction piDouble)
        { site with directory := prepared } = rest
      obtain ⟨result, last⟩ := rest
      cases result with
      | error failure => rfl
      | ok records => rfl

end Follows

/-! ## Successes -/

/-- The logged simulator does what the simulator does. -/
theorem follows_logged (simulate : Simulator σ) :
    Follows simulate simulate.logged (Prod.fst : σ × List (List String) → σ) := by
  rintro command ⟨state, log⟩ d
  rw [Simulator.logged]
  split
  · rename_i state' d' hcall
    rw [hcall]
  · rename_i failure state' d' hcall
    rw [hcall]

/-- The files of all successes are there, and no two of them are the same. -/
def Tallied (site : Site (σ × List (List String))) : Prop :=
  (∀ command ∈ site.state.2, ∃ path, outputOf? command = some path ∧
    site.directory.isFile path = true) ∧ (site.state.2.map outputOf?).Nodup

theorem Tallied.of_grows {before after : Site (σ × List (List String))} (h : Tallied before)
    (hlog : after.state.2 = before.state.2) (hgrows : before.directory.Grows after.directory) :
    Tallied after := by
  refine ⟨fun command hmem => ?_, by rw [hlog]; exact h.2⟩
  obtain ⟨path, houtput, hfile⟩ := h.1 command (hlog ▸ hmem)
  exact ⟨path, houtput, Directory.isFile_of_grows hgrows hfile⟩

theorem Tallied.ensure (hsim : simulate.Reproduces contents)
    {before after : Site (σ × List (List String))} {failure : Option Failure}
    (htallied : Tallied before)
    (h : (p.stepAt index ff).ensure simulate.logged before = (failure, after)) :
    Tallied after := by
  rw [SweepStep.ensure] at h
  split at h
  · cases h
    exact htallied
  · rename_i hfile
    rw [Bool.not_eq_true] at hfile
    have houtput := p.outputOf?_command index ff
    rw [Site.call, Simulator.logged] at h
    rcases hsim _ _ before.state.1 before.directory houtput with
      ⟨cause, state', hcall⟩ | ⟨state', d', hcall, hwrite⟩
    · rw [hcall] at h
      cases h
      exact htallied.of_grows rfl (Directory.Grows.refl _)
    · rw [hcall] at h
      cases h
      have hgrows := Directory.writeFrom_grows hfile hwrite
      have hthere := Directory.isFile_of_writeFrom hfile hwrite
      refine ⟨fun command hmem => ?_, ?_⟩
      · rcases List.mem_append.mp hmem with hold | hnew
        · obtain ⟨path, hpath, hold⟩ := htallied.1 command hold
          exact ⟨path, hpath, Directory.isFile_of_grows hgrows hold⟩
        · rw [List.mem_singleton.mp hnew]
          exact ⟨_, houtput, hthere⟩
      · -- The file was not there, so it is none of those that were written before.
        rw [List.map_append, List.map_singleton, (List.perm_append_singleton _ _).nodup_iff,
          List.nodup_cons]
        refine ⟨fun hmem => ?_, htallied.2⟩
        obtain ⟨command, hold, heq⟩ := List.mem_map.mp hmem
        obtain ⟨path, hpath, hthere⟩ := htallied.1 command hold
        rw [hpath, houtput, Option.some.injEq] at heq
        rw [heq, hfile] at hthere
        exact absurd hthere (by simp)

theorem Tallied.recordsFrom (hsim : simulate.Reproduces contents)
    {before after : Site (σ × List (List String))}
    {result : Except Failure (List (SweepRecord Float))} (htallied : Tallied before)
    (h : p.recordsFrom simulate.logged left index ff before = (result, after)) :
    Tallied after := by
  induction left generalizing index ff before result with
  | zero =>
    rw [SweepPlan.recordsFrom] at h
    cases h
    exact htallied
  | succ left ih =>
    rcases recordsFrom_succ_cases h with ⟨failure, hensure, _⟩ | ⟨failure, hensure, _, _⟩ |
      ⟨between, record, rest, hensure, _, hrest, _⟩
    · exact htallied.ensure hsim hensure
    · exact htallied.ensure hsim hensure
    · exact ih (htallied.ensure hsim hensure) hrest

theorem Tallied.run (hsim : simulate.Reproduces contents)
    {before after : Site (σ × List (List String))} {result : Except Failure (Sweep Float)}
    (htallied : Tallied before) (h : p.run simulate.logged before = (result, after)) :
    Tallied after := by
  rw [SweepPlan.run, runWith] at h
  split at h
  · cases h
    exact htallied
  · split at h
    · cases h
      exact htallied
    · rename_i prepared hcreate
      have hprepared : Tallied { before with directory := prepared } :=
        htallied.of_grows rfl (Directory.createFolders_grows hcreate)
      split at h
      · rename_i failure last hrest
        cases h
        exact hprepared.recordsFrom hsim hrest
      · rename_i records last hrest
        cases h
        exact hprepared.recordsFrom hsim hrest

/-- A sweep that is restarted can be followed with a log, and succeeds at most once with each
file. -/
theorem Restarted.exists_log (hsim : simulate.Reproduces contents)
    (h : p.Restarted simulate site s site') (log : List (List String))
    (htallied : Tallied (⟨(site.state, log), site.directory, site.calls⟩ :
      Site (σ × List (List String)))) :
    ∃ log', p.Restarted simulate.logged ⟨(site.state, log), site.directory, site.calls⟩ s
        ⟨(site'.state, log'), site'.directory, site'.calls⟩ ∧
      Tallied (⟨(site'.state, log'), site'.directory, site'.calls⟩ :
        Site (σ × List (List String))) := by
  induction h generalizing log with
  | @done site site' s hrun =>
    have hfollows := (follows_logged simulate).run (p := p)
      ⟨(site.state, log), site.directory, site.calls⟩
    generalize hlogged : p.run simulate.logged ⟨(site.state, log), site.directory, site.calls⟩ =
      after at hfollows
    obtain ⟨result, ⟨state, log'⟩, d, calls⟩ := after
    cases hrun.symm.trans hfollows
    exact ⟨log', .done hlogged, htallied.run hsim hlogged⟩
  | @again site between site' s failure hrun hrest ih =>
    have hfollows := (follows_logged simulate).run (p := p)
      ⟨(site.state, log), site.directory, site.calls⟩
    generalize hlogged : p.run simulate.logged ⟨(site.state, log), site.directory, site.calls⟩ =
      after at hfollows
    obtain ⟨result, ⟨state, log₁⟩, d, calls⟩ := after
    cases hrun.symm.trans hfollows
    obtain ⟨log', hagain, htallied'⟩ := ih log₁ (htallied.run hsim hlogged)
    exact ⟨log', .again hlogged hagain, htallied'⟩

/-! ## Interrupted sweeps -/

/-- **Interrupted sweeps.**  Let what a simulator writes depend on its commands alone.  A sweep that
has succeeded is read back when it is run again, with any simulator: none is called, no file
changes, and the result is the same.  A sweep that is restarted until it succeeds, however often its
simulator fails, comes to what it comes to without interruptions and leaves the same directory, as
does any other run from the same start that is not interrupted; and no two successes of the
simulator were with one file. -/
theorem run_again_and_restarted (p : SweepPlan Float) (hsim : simulate.Reproduces contents) :
    (∀ site s site', p.run simulate site = (.ok s, site') →
      ∀ (τ : Type) (other : Simulator τ) (state : τ) (calls : List (List String)),
        p.run other ⟨state, site'.directory, calls⟩ =
          (.ok s, ⟨state, site'.directory, calls⟩)) ∧
    (∀ site s site', p.Restarted simulate site s site' →
      (∃ calls, p.run (.steady contents) ⟨(), site.directory, []⟩ =
        (.ok s, ⟨(), site'.directory, calls⟩)) ∧
      (∀ (τ : Type) (other : Simulator τ) (before after : Site τ) (result : Sweep Float),
        other.Reproduces contents → before.directory = site.directory →
        p.run other before = (.ok result, after) →
          result = s ∧ after.directory = site'.directory) ∧
      ∃ log, p.Restarted simulate.logged ⟨(site.state, []), site.directory, site.calls⟩ s
          ⟨(site'.state, log), site'.directory, site'.calls⟩ ∧
        (log.map outputOf?).Nodup) := by
  constructor
  · intro site s site' hrun τ other state calls
    exact (amounts_of_run hsim hrun).run_eq rfl
  · intro site s site' hrestarted
    have hamounts := hrestarted.amounts hsim
    obtain ⟨calls, hsteady⟩ := hamounts.run_steady
    refine ⟨⟨calls, hsteady⟩, ?_, ?_⟩
    · intro τ other before after result hother hbefore hrun
      obtain ⟨calls', hrun'⟩ := (amounts_of_run hother hrun).run_steady
      rw [hbefore, hsteady] at hrun'
      obtain ⟨hresult, hsite⟩ := Prod.mk.inj hrun'
      exact ⟨(Except.ok.inj hresult).symm, (congrArg Site.directory hsite).symm⟩
    · obtain ⟨log, hlogged, htallied⟩ :=
        hrestarted.exists_log hsim [] ⟨by simp, List.nodup_nil⟩
      exact ⟨log, hlogged, htallied.2⟩

/-! ## A sweep that is interrupted once -/

/-- What the reporting simulator writes. -/
def reportFor (command : List String) : Contents :=
  .text (reportOn ((optionOf? command "--ff_small").getD "").toList)

theorem reproduces_reporting : reporting.Reproduces reportFor := by
  intro command path state d houtput
  rw [outputOf?, Option.bind_eq_some_iff] at houtput
  obtain ⟨name, hname, houtput⟩ := houtput
  rw [Option.map_eq_some_iff] at houtput
  obtain ⟨folder, hfolder, rfl⟩ := houtput
  rw [reporting, hname, hfolder, reportFor]
  cases optionOf? command "--ff_small" with
  | none => exact Or.inl ⟨_, state, rfl⟩
  | some asked =>
    dsimp only
    split
    · rename_i d' hwrite
      exact Or.inr ⟨state, d', rfl, hwrite⟩
    · exact Or.inl ⟨_, state, rfl⟩

/-- The simulator that reports, but fails once: its state counts down to the call that fails. -/
def interrupted : Simulator Nat := fun command (left, d) =>
  if left = 1 then (some (.external "interrupted"), 0, d)
  else ((reporting command ((), d)).1, left - 1, (reporting command ((), d)).2.2)

theorem reproduces_interrupted : interrupted.Reproduces reportFor := by
  intro command path left d houtput
  by_cases hleft : left = 1
  · exact Or.inl ⟨_, 0, by rw [interrupted, if_pos hleft]⟩
  · rcases reproduces_reporting command path () d houtput with
      ⟨failure, state', hcall⟩ | ⟨state', d', hcall, hwrite⟩
    · exact Or.inl ⟨failure, left - 1, by rw [interrupted, if_neg hleft, hcall]⟩
    · exact Or.inr ⟨left - 1, d', by rw [interrupted, if_neg hleft, hcall], hwrite⟩

/-- Once it has failed, the simulator reports. -/
theorem follows_interrupted : Follows interrupted reporting fun _ => 0 := fun _ _ _ => rfl

/-- A step that the reporting simulator sees to is seen to before the failure as well. -/
theorem ensure_interrupted {step : SweepStep Float} {calls : List (List String)} {after : Site Unit}
    {left : Nat} (hleft : left ≠ 1) (hfile : d.isFile step.output = false)
    (h : step.ensure reporting ⟨(), d, calls⟩ = (none, after)) :
    step.ensure interrupted ⟨left, d, calls⟩ =
      (none, ⟨left - 1, after.directory, after.calls⟩) := by
  rw [SweepStep.ensure, if_neg (by simp [hfile]), Site.call] at h ⊢
  dsimp only at h ⊢
  rw [interrupted, if_neg hleft]
  generalize reporting step.command ((), d) = result at h ⊢
  obtain ⟨failure, state, d'⟩ := result
  cases h
  rfl

section Interrupted

variable {d created : Directory} {place : Place} {record : SweepRecord Float} {p : SweepPlan Float}

/-- A sweep that is interrupted has simulated its first step, as the simulator that always reports
would have, and has called the simulator once more. -/
theorem exists_run_interrupted {left : Nat} (hsteps : p.steps = left + 2)
    (hspheres : p.isEmptyCell = false) (hcreate : d.createFolders p.folder = .ok created)
    (hwrote : p.Wrote place [] created) (hnodup : (p.planned.map (·.name)).Nodup) :
    let first := p.stepAt 0 (p.initialFraction piDouble)
    ∃ after record, created.Grows after ∧ p.Wrote place [first.name] after ∧
      first.record after = .ok record ∧ record.ffSmall = first.requested ∧
      p.run interrupted ⟨2, d, []⟩ = (.error (.external "interrupted"),
        ⟨0, after, (p.planned.take 2).map (·.command)⟩) := by
  intro first
  let second := p.stepAt 1 first.requested
  let site : Site Unit := ⟨(), created, []⟩
  have hplanned : p.planned = first :: second :: p.plannedFrom left 2 second.requested := by
    rw [planned, hsteps]
    rfl
  have hwrote₀ : p.Wrote place [] site.directory := hwrote
  obtain ⟨site₁, record, hensure, hcalls, hwrote₁, hrecord, hsmall⟩ :=
    ensure_of_fresh obeys_reporting 0 (p.initialFraction piDouble) hwrote₀ List.not_mem_nil
  have hgrows : created.Grows site₁.directory := by
    rcases ensure_cases reproduces_reporting hensure with ⟨-, hprovides⟩ | ⟨hsome, -⟩
    · exact (isFile_and_grows_of_provides hprovides).2
    · exact absurd hsome (by simp)
  have hfirst : first.ensure interrupted ⟨2, created, []⟩ =
      (none, ⟨1, site₁.directory, site₁.calls⟩) :=
    ensure_interrupted (by decide) (hwrote.isFile_eq 0 _) hensure
  -- The second step calls the simulator when it fails.
  have hnew : second.name ∉ [first.name] := by
    rw [hplanned, List.map_cons, List.map_cons, List.nodup_cons, List.mem_cons, not_or] at hnodup
    rw [List.mem_singleton]
    exact Ne.symm hnodup.1.1
  have hsecond : second.ensure interrupted ⟨1, site₁.directory, site₁.calls⟩ =
      (some (.external "interrupted"), ⟨0, site₁.directory, site₁.calls ++ [second.command]⟩) := by
    rw [SweepStep.ensure, hwrote₁.isFile_eq, decide_eq_false hnew, if_neg (by decide)]
    rfl
  have hrecords : p.recordsFrom interrupted (left + 2) 0 (p.initialFraction piDouble)
      ⟨2, created, []⟩ = (.error (.external "interrupted"),
        ⟨0, site₁.directory, site₁.calls ++ [second.command]⟩) :=
    recordsFrom_of_record hfirst hrecord (recordsFrom_of_failure (by rw [hsmall]; exact hsecond))
  refine ⟨site₁.directory, record, hgrows, hwrote₁, hrecord, hsmall, ?_⟩
  rw [run, runWith, hspheres, if_neg (by decide), hcreate]
  dsimp only
  rw [hsteps, hrecords, hcalls, hplanned]
  rfl

/-- Where the first step is there already, a sweep simulates the others. -/
theorem exists_run_resumed {left : Nat} (between : Site Unit) (hsteps : p.steps = left + 1)
    (hspheres : p.isEmptyCell = false)
    (hcreate : between.directory.createFolders p.folder = .ok between.directory)
    (hwrote : p.Wrote place [(p.stepAt 0 (p.initialFraction piDouble)).name] between.directory)
    (hrecord : (p.stepAt 0 (p.initialFraction piDouble)).record between.directory = .ok record)
    (hsmall : record.ffSmall = (p.stepAt 0 (p.initialFraction piDouble)).requested)
    (hnodup : (p.planned.map (·.name)).Nodup) :
    ∃ s site', p.run reporting between = (.ok s, site') ∧
      site'.calls = between.calls ++ (p.planned.drop 1).map (·.command) := by
  let first := p.stepAt 0 (p.initialFraction piDouble)
  have hplanned : p.planned = first :: p.plannedFrom left 1 record.ffSmall := by
    rw [planned, hsteps, hsmall]
    rfl
  have hfresh : ((p.plannedFrom left 1 record.ffSmall).map (·.name) ++ [first.name]).Nodup := by
    rw [hplanned] at hnodup
    exact (List.perm_append_singleton _ _).nodup_iff.mpr hnodup
  obtain ⟨records, last, hrest, hlast⟩ :=
    recordsFrom_of_fresh obeys_reporting left 1 record.ffSmall hwrote hfresh
  have hcached : first.ensure reporting between = (none, between) :=
    ensure_of_mem 0 _ hwrote List.mem_cons_self
  have hrecords : p.recordsFrom reporting p.steps 0 (p.initialFraction piDouble) between =
      (.ok (record :: records), last) := by
    rw [hsteps]
    exact recordsFrom_of_record hcached hrecord hrest
  exact ⟨_, last, run_of_createFolders hspheres hcreate hrecords, by rw [hlast, hplanned]; rfl⟩

end Interrupted

/-- The standard sweep with three steps, and with a data folder below the root. -/
def threeSteps : SweepPlan Float :=
  { (standard : SweepPlan Float) with steps := 3, dataFolder := "/data" }

/-- The names of the three steps are different. -/
theorem nodup_threeSteps : (threeSteps.planned.map (·.name)).Nodup := by decide +kernel

/-- The interrupted sweep in two runs: the first simulates one step and breaks off at the second, the
other reads the first step back and simulates the rest. -/
theorem runs_interrupted_threeSteps :
    let start : Site Nat := ⟨2, .empty ["work"], []⟩
    ∃ d between s site', start.directory.createFolders threeSteps.folder = .ok d ∧
      threeSteps.run interrupted start = (.error (.external "interrupted"), between) ∧
      between.calls = (threeSteps.planned.take 2).map (·.command) ∧
      (threeSteps.planned.map fun step => between.directory.isFile step.output) =
        [true, false, false] ∧
      threeSteps.run interrupted between = (.ok s, site') ∧
      site'.calls = between.calls ++ (threeSteps.planned.drop 1).map (·.command) := by
  intro start
  let first := threeSteps.stepAt 0 (threeSteps.initialFraction piDouble)
  let second := threeSteps.stepAt 1 first.requested
  let third := threeSteps.stepAt 2 second.requested
  have hplanned : threeSteps.planned = [first, second, third] := rfl
  have hspheres : threeSteps.isEmptyCell = false := rfl
  have hnodup := nodup_threeSteps
  obtain ⟨d, place, hcreate, hwrote⟩ := (emptyData_root (p := threeSteps) rfl).exists_wrote
  obtain ⟨after, record, hgrows, hwrote₁, hrecord, hsmall, hbroken⟩ :=
    exists_run_interrupted rfl hspheres hcreate hwrote hnodup
  -- The second run begins with what the first has left.
  let between : Site Unit := ⟨(), after, (threeSteps.planned.take 2).map (·.command)⟩
  have hagain : between.directory.createFolders threeSteps.folder = .ok between.directory :=
    Directory.createFolders_of_grows hcreate hgrows
  obtain ⟨s, last, hresumed, hlast⟩ :=
    exists_run_resumed between rfl hspheres hagain hwrote₁ hrecord hsmall hnodup
  have hfollows := follows_interrupted.run (p := threeSteps) between
  rw [hresumed] at hfollows
  refine ⟨d, _, _, _, hcreate, hbroken, rfl, ?_, hfollows, hlast⟩
  have hlater : first.name ≠ second.name ∧ first.name ≠ third.name := by
    rw [hplanned, List.map_cons, List.map_cons, List.map_cons, List.nodup_cons, List.mem_cons,
      List.map_nil, List.mem_singleton, not_or] at hnodup
    exact hnodup.1
  rw [hplanned, List.map_cons, List.map_cons, List.map_cons, hwrote₁.isFile_eq, hwrote₁.isFile_eq,
    hwrote₁.isFile_eq, decide_eq_true List.mem_cons_self,
    decide_eq_false (List.mem_singleton.not.mpr hlater.1.symm),
    decide_eq_false (List.mem_singleton.not.mpr hlater.2.symm)]
  rfl

/-- A sweep of three steps whose simulator fails at the second and is then run again.  It comes to
what it comes to without the interruption, and each step has been simulated once. -/
theorem run_again_and_restarted_threeSteps :
    let start : Site Nat := ⟨2, .empty ["work"], []⟩
    interrupted.Reproduces reportFor ∧
      ∃ between s site', threeSteps.run interrupted start =
          (.error (.external "interrupted"), between) ∧
        (threeSteps.planned.map fun step => between.directory.isFile step.output) =
          [true, false, false] ∧
        threeSteps.run interrupted between = (.ok s, site') ∧
        (∃ calls, threeSteps.run (.steady reportFor) ⟨(), start.directory, []⟩ =
          (.ok s, ⟨(), site'.directory, calls⟩)) ∧
        ∀ calls, threeSteps.run interrupted ⟨2, site'.directory, calls⟩ =
          (.ok s, ⟨2, site'.directory, calls⟩) := by
  intro start
  obtain ⟨d, between, s, site', -, hbroken, -, hfiles, hrun, -⟩ := runs_interrupted_threeSteps
  have hrestarted : threeSteps.Restarted interrupted start s site' := .again hbroken (.done hrun)
  obtain ⟨-, hrestart⟩ := run_again_and_restarted threeSteps reproduces_interrupted
  obtain ⟨⟨calls, hsteady⟩, -, -⟩ := hrestart _ _ _ hrestarted
  obtain ⟨hagain, -⟩ :=
    run_again_and_restarted threeSteps (Simulator.reproduces_steady reportFor)
  exact ⟨reproduces_interrupted, between, s, site', hbroken, hfiles, hrun, ⟨calls, hsteady⟩,
    fun calls' => hagain _ _ _ hsteady Nat interrupted 2 calls'⟩

end SweepPlan

end SphereLab
