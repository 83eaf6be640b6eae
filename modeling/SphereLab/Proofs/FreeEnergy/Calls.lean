import Mathlib
import SphereLab.Proofs.FreeEnergy.Obedience

/-!
# How often a sweep calls its simulator

A step is not simulated if its output file is there, so a sweep that starts in an empty data
folder simulates every step exactly if no two steps have one name.  The names of periodic steps
have the first six digits of both filling fractions; steps in a fixed box all have one name, and
then only the first of them is simulated.

* `SweepPlan.planned`: the steps of a sweep each of which starts where the one before was asked to
  lead.
* `recordsFrom_of_fresh`: while names are new, a sweep simulates the planned steps in order.
* `recordsFrom_calls_lt`: once a name is not new, there are fewer calls than steps.
* `calls_eq_planned_iff`: when a sweep calls its simulator once for each step.
-/

namespace SphereLab

section Comparison

open Float.Model

theorem unpack_zero : (0 : Float).toModel.unpack = .zero .positive := by rfl

theorem not_le_zero_of_pos {x : Float} (h : 0 < x) : ¬x ≤ 0 := by
  have hlt : (UnpackedFloat.zero .positive).lt x.toModel.unpack = true := by
    rw [← unpack_zero]
    exact of_decide_eq_true h
  have hle : x.toModel.unpack.le (.zero .positive) = false := by
    cases hx : x.toModel.unpack with
    | notANumber => rfl
    | zero sign =>
      rw [hx] at hlt
      exact absurd hlt (by simp [UnpackedFloat.lt, UnpackedFloat.compare])
    | infinity sign =>
      rw [hx] at hlt
      cases sign with
      | positive => rfl
      | negative => exact absurd hlt (by simp [UnpackedFloat.lt, UnpackedFloat.compare])
    | finite sign mantissa exponent hpos =>
      rw [hx] at hlt
      cases sign with
      | positive => rfl
      | negative => exact absurd hlt (by simp [UnpackedFloat.lt, UnpackedFloat.compare])
  intro hcontra
  have hmodel : x.toModel.unpack.le (0 : Float).toModel.unpack = true := of_decide_eq_true hcontra
  rw [unpack_zero, hle] at hmodel
  exact absurd hmodel (by decide)

end Comparison

/-! ## The planned steps -/

/-- The filling fraction that the command of a step asks for. -/
def SweepStep.requested (s : SweepStep Float) : Float :=
  ((optionOf? s.command "--ff_small").bind fun asked => readDouble? asked.toList).getD s.ffSmall

namespace SweepPlan

/-- The steps from an index and a filling fraction on, each of which starts where the one before
was asked to lead. -/
def plannedFrom (p : SweepPlan Float) : Nat → Nat → Float → List (SweepStep Float)
  | 0, _, _ => []
  | left + 1, index, ff =>
    p.stepAt index ff :: p.plannedFrom left (index + 1) (p.stepAt index ff).requested

/-- The steps of a sweep. -/
def planned (p : SweepPlan Float) : List (SweepStep Float) :=
  p.plannedFrom p.steps 0 (p.initialFraction piDouble)

section Run

variable {σ : Type} {p : SweepPlan Float} {simulate : Simulator σ} {site : Site σ}
  {place : Place} {names : List String}

/-! ## One step -/

/-- The output files of some names are there, and nothing else is in the folder. -/
structure Wrote (p : SweepPlan Float) (place : Place) (names : List String) (d : Directory) :
    Prop where
  folder : d.FolderAt p.folder place
  written : ∀ name ∈ names, ∃ text executable,
    d.entryAt (place ++ [name ++ "-g.dat"]) = some (.file (.text text) executable)
  free : ∀ file, (∀ name ∈ names, file ≠ name ++ "-g.dat") → d.entryAt (place ++ [file]) = none

theorem Wrote.entryAt_eq_none {d : Directory} (h : p.Wrote place names d) {name : String}
    (hnew : name ∉ names) : d.entryAt (place ++ [name ++ "-g.dat"]) = none := by
  refine h.free _ fun other hmem heq => hnew ?_
  rw [(String.append_left_inj _).mp heq]
  exact hmem

/-- The file of a step is there if its name is one of those that have been written. -/
theorem Wrote.isFile_eq {d : Directory} (h : p.Wrote place names d) (index : Nat) (ff : Float) :
    d.isFile (p.stepAt index ff).output = decide ((p.stepAt index ff).name ∈ names) := by
  have hname := p.isName_output ff (p.next index ff)
  by_cases hmem : (p.stepAt index ff).name ∈ names
  · obtain ⟨text, executable, hentry⟩ := h.written _ hmem
    rw [decide_eq_true hmem]
    exact Directory.isFile_joinPath h.folder hname hentry
  · rw [decide_eq_false hmem]
    exact Directory.isFile_joinPath_of_none h.folder hname (h.entryAt_eq_none hmem)

theorem Wrote.put {d : Directory} (h : p.Wrote place names d) {name : String}
    (hnew : name ∉ names) (text : String) :
    p.Wrote place (name :: names)
      (d.put (place ++ [name ++ "-g.dat"]) (.file (.text text) false)) := by
  have hother : ∀ other, other ≠ name →
      place ++ [other ++ "-g.dat"] ≠ place ++ [name ++ "-g.dat"] := by
    intro other hne heq
    rw [List.append_right_inj, List.singleton_inj, String.append_left_inj] at heq
    exact hne heq
  have hnone := h.entryAt_eq_none hnew
  refine ⟨h.folder.put hnone _, ?_, ?_⟩
  · intro other hmem
    by_cases heq : other = name
    · rw [heq]
      exact ⟨text, false, Directory.entryAt_put_of_none hnone _⟩
    · obtain ⟨before, executable, hentry⟩ := h.written other (List.mem_of_ne_of_mem heq hmem)
      exact ⟨before, executable, by rw [Directory.entryAt_put_of_ne d (hother other heq), hentry]⟩
  · intro file hfile
    have hne : place ++ [file] ≠ place ++ [name ++ "-g.dat"] := by
      rw [Ne, List.append_right_inj, List.singleton_inj]
      exact hfile name List.mem_cons_self
    rw [Directory.entryAt_put_of_ne d hne]
    exact h.free file fun other hmem => hfile other (List.mem_cons_of_mem _ hmem)

/-- Where the data folder is empty, nothing has been written. -/
theorem EmptyData.exists_wrote {d : Directory} (h : p.EmptyData d) :
    ∃ created place, d.createFolders p.folder = .ok created ∧ p.Wrote place [] created := by
  obtain ⟨created, place, hcreate, hfolder⟩ := h.folder
  exact ⟨created, place, hcreate, hfolder.toFolderAt, fun name hmem => absurd hmem (by simp),
    fun file _ => hfolder.nothing [file] (by simp)⟩

theorem recordOf_of_reports (s : SweepStep Float) {text : String} {ffSmall : Float}
    (h : Reports text ffSmall) :
    ∃ record, s.recordOf (Header.parse text) = .ok record ∧ record.ffSmall = ffSmall := by
  obtain ⟨hff, tried, succeeded, htried, hsucceeded, htotal, hvalid⟩ := h
  refine ⟨⟨s.ff, ffSmall, tried, succeeded, succeeded / tried⟩, ?_, rfl⟩
  have hrecord : s.recordOf (Header.parse text) =
      (if tried ≤ 0 then .error (SweepFault.failure (.nothingTried s.output))
      else if succeeded ≤ 0 then .error (SweepFault.failure (.nothingSucceeded s.output))
      else .ok ⟨s.ff, ffSmall, tried, succeeded, succeeded / tried⟩) := by
    rw [SweepStep.recordOf, SweepStep.entryOf, SweepStep.entryOf, SweepStep.entryOf, hff, htotal,
      hvalid]
    rfl
  rw [hrecord, if_neg (not_le_zero_of_pos htried), if_neg (not_le_zero_of_pos hsucceeded)]

/-- The text that a step's command asks for reads as the filling fraction that it requests. -/
theorem readDouble?_askedText (index : Nat) (ff : Float) :
    readDouble? (p.askedText (p.next index ff)).toList = some (p.stepAt index ff).requested := by
  obtain ⟨_, _, hasked⟩ := p.optionOf?_commandAt ff (p.next index ff)
  obtain ⟨numeral, hscan⟩ := Option.isSome_iff_exists.mp (p.scan?_askedText (p.next index ff))
  have hread : readDouble? (p.askedText (p.next index ff)).toList = some numeral.toFloat := by
    rw [readDouble?, hscan, Option.map_some]
  rw [SweepStep.requested, stepAt, hasked, Option.bind_some, hread, Option.getD_some]

/-- A step whose name is new is simulated, and then read back. -/
theorem ensure_of_fresh (hsim : simulate.Obeys) (index : Nat) (ff : Float)
    (hwrote : p.Wrote place names site.directory) (hnew : (p.stepAt index ff).name ∉ names) :
    ∃ site' record, (p.stepAt index ff).ensure simulate site = (none, site') ∧
      site'.calls = site.calls ++ [(p.stepAt index ff).command] ∧
      p.Wrote place ((p.stepAt index ff).name :: names) site'.directory ∧
      (p.stepAt index ff).record site'.directory = .ok record ∧
      record.ffSmall = (p.stepAt index ff).requested := by
  obtain ⟨hfilename, hfolder, hasked⟩ := p.optionOf?_commandAt ff (p.next index ff)
  have hname := p.isName_output ff (p.next index ff)
  have hnone := hwrote.entryAt_eq_none hnew
  have hwrite := Directory.writeText_joinPath hwrote.folder hname hnone
  obtain ⟨text, state, d', hcall, hput, hreports⟩ := hsim _ _ _ _ _ site.state site.directory
    hfilename hfolder hasked (readDouble?_askedText index ff) ⟨_, hwrite ""⟩
  rw [hwrite text] at hput
  cases hput
  have hwrote' := hwrote.put hnew text
  have hentry : (site.directory.put (place ++ [(p.stepAt index ff).name ++ "-g.dat"])
      (.file (.text text) false)).entryAt (place ++ [(p.stepAt index ff).name ++ "-g.dat"]) =
      some (.file (.text text) false) := Directory.entryAt_put_of_none hnone _
  generalize hafter : site.directory.put (place ++ [(p.stepAt index ff).name ++ "-g.dat"])
    (.file (.text text) false) = after at hwrote' hentry
  have hfile : after.readText (p.stepAt index ff).output = .ok text :=
    Directory.readText_joinPath hwrote'.folder hname hentry
  obtain ⟨record, hrecord, hsmall⟩ := recordOf_of_reports (p.stepAt index ff) hreports
  refine ⟨⟨state, after, site.calls ++ [(p.stepAt index ff).command]⟩, record, ?_, rfl, hwrote', ?_,
    hsmall⟩
  · rw [SweepStep.ensure, hwrote.isFile_eq, decide_eq_false hnew, if_neg (by decide), Site.call,
      stepAt, hcall, ← hafter]
    rfl
  · rw [SweepStep.record, Header.load, hfile]
    exact hrecord

/-- A step whose name is not new is not simulated. -/
theorem ensure_of_mem (index : Nat) (ff : Float) (hwrote : p.Wrote place names site.directory)
    (hmem : (p.stepAt index ff).name ∈ names) :
    (p.stepAt index ff).ensure simulate site = (none, site) := by
  rw [SweepStep.ensure, hwrote.isFile_eq, decide_eq_true hmem, if_pos rfl]

/-! ## All steps -/

/-- A step that succeeds and can be read is followed by the other steps. -/
theorem recordsFrom_of_record {left index : Nat} {ff : Float} {between site' : Site σ}
    {record : SweepRecord Float} {result : Except Failure (List (SweepRecord Float))}
    (hensure : (p.stepAt index ff).ensure simulate site = (none, between))
    (hrecord : (p.stepAt index ff).record between.directory = .ok record)
    (hrest : p.recordsFrom simulate left (index + 1) record.ffSmall between = (result, site')) :
    p.recordsFrom simulate (left + 1) index ff site = (result.map (record :: ·), site') := by
  rw [recordsFrom]
  simp only [hensure, hrecord, hrest]
  cases result with
  | error failure => rfl
  | ok records => rfl

/-- A step that fails ends the run. -/
theorem recordsFrom_of_failure {left index : Nat} {ff : Float} {site' : Site σ} {failure : Failure}
    (hensure : (p.stepAt index ff).ensure simulate site = (some failure, site')) :
    p.recordsFrom simulate (left + 1) index ff site = (.error failure, site') := by
  rw [recordsFrom]
  simp only [hensure]

/-- While the names of the planned steps are new, these steps are simulated in order. -/
theorem recordsFrom_of_fresh (hsim : simulate.Obeys) (left index : Nat) (ff : Float)
    (hwrote : p.Wrote place names site.directory)
    (hfresh : ((p.plannedFrom left index ff).map (·.name) ++ names).Nodup) :
    ∃ records site', p.recordsFrom simulate left index ff site = (.ok records, site') ∧
      site'.calls = site.calls ++ (p.plannedFrom left index ff).map (·.command) := by
  induction left generalizing index ff site names with
  | zero => exact ⟨[], site, rfl, by simp [plannedFrom]⟩
  | succ left ih =>
    rw [plannedFrom, List.map_cons, List.cons_append, List.nodup_cons, List.mem_append,
      not_or] at hfresh
    obtain ⟨⟨hlater, hnew⟩, hrest⟩ := hfresh
    obtain ⟨site', record, hensure, hcalls, hwrote', hrecord, hsmall⟩ :=
      ensure_of_fresh hsim index ff hwrote hnew
    have hfresh' : ((p.plannedFrom left (index + 1) record.ffSmall).map (·.name) ++
        (p.stepAt index ff).name :: names).Nodup := by
      rw [hsmall, List.perm_middle.nodup_iff, List.nodup_cons, List.mem_append, not_or]
      exact ⟨⟨hlater, hnew⟩, hrest⟩
    obtain ⟨records, site'', hrun, hcalls'⟩ := ih (index + 1) record.ffSmall hwrote' hfresh'
    refine ⟨record :: records, site'', recordsFrom_of_record hensure hrecord hrun, ?_⟩
    rw [hcalls', hcalls, hsmall, plannedFrom, List.map_cons, List.append_assoc,
      List.singleton_append]

/-- No step calls the simulator twice. -/
theorem recordsFrom_calls_le (left index : Nat) (ff : Float) :
    (p.recordsFrom simulate left index ff site).2.calls.length ≤ site.calls.length + left := by
  induction left generalizing index ff site with
  | zero => exact le_rfl
  | succ left ih =>
    have hensure : ((p.stepAt index ff).ensure simulate site).2.calls.length ≤
        site.calls.length + 1 := by
      rw [SweepStep.ensure]
      split
      · exact Nat.le_succ _
      · simp [Site.call]
    rw [recordsFrom]
    generalize (p.stepAt index ff).ensure simulate site = after at hensure ⊢
    obtain ⟨failure, site'⟩ := after
    have hsite : site'.calls.length ≤ site.calls.length + 1 := hensure
    cases failure with
    | some failure => exact le_trans hsite (by omega)
    | none =>
      dsimp only
      split
      · exact le_trans hsite (by omega)
      · rename_i record _
        have hrest : (p.recordsFrom simulate left (index + 1) record.ffSmall site').2.calls.length ≤
            site'.calls.length + left := ih (index + 1) record.ffSmall
        split
        · rename_i hrun
          rw [hrun] at hrest
          exact le_trans hrest (by omega)
        · rename_i hrun
          rw [hrun] at hrest
          exact le_trans hrest (by omega)

/-- Once the name of a planned step is not new, there are fewer calls than steps. -/
theorem recordsFrom_calls_lt (hsim : simulate.Obeys) (left index : Nat) (ff : Float)
    (hwrote : p.Wrote place names site.directory) (hnames : names.Nodup)
    (hfresh : ¬((p.plannedFrom left index ff).map (·.name) ++ names).Nodup) :
    (p.recordsFrom simulate left index ff site).2.calls.length < site.calls.length + left := by
  induction left generalizing index ff site names with
  | zero => exact absurd (by simpa [plannedFrom] using hnames) hfresh
  | succ left ih =>
    by_cases hmem : (p.stepAt index ff).name ∈ names
    · -- The step costs no call, and those after it at most one each.
      have hensure : (p.stepAt index ff).ensure simulate site = (none, site) :=
        ensure_of_mem index ff hwrote hmem
      have hstep : (p.recordsFrom simulate (left + 1) index ff site).2.calls.length ≤
          site.calls.length + left := by
        rw [recordsFrom]
        simp only [hensure]
        split
        · exact Nat.le_add_right _ _
        · rename_i record _
          have hrest :
              (p.recordsFrom simulate left (index + 1) record.ffSmall site).2.calls.length ≤
                site.calls.length + left := recordsFrom_calls_le left (index + 1) record.ffSmall
          split
          · rename_i hrun
            rwa [hrun] at hrest
          · rename_i hrun
            rwa [hrun] at hrest
      omega
    · obtain ⟨site', record, hensure, hcalls, hwrote', hrecord, hsmall⟩ :=
        ensure_of_fresh hsim index ff hwrote hmem
      have hfresh' : ¬((p.plannedFrom left (index + 1) record.ffSmall).map (·.name) ++
          (p.stepAt index ff).name :: names).Nodup := by
        rw [hsmall, List.perm_middle.nodup_iff]
        exact hfresh
      have hrest := ih (index + 1) record.ffSmall hwrote'
        (List.nodup_cons.mpr ⟨hmem, hnames⟩) hfresh'
      have hlength : site'.calls.length = site.calls.length + 1 := by
        rw [hcalls, List.length_append, List.length_singleton]
      rw [recordsFrom]
      simp only [hensure, hrecord]
      generalize p.recordsFrom simulate left (index + 1) record.ffSmall site' = after at hrest ⊢
      obtain ⟨result, site''⟩ := after
      cases result with
      | error failure => exact lt_of_lt_of_le hrest (by omega)
      | ok records => exact lt_of_lt_of_le hrest (by omega)

/-- A sweep calls its simulator with the commands of the planned steps if their names are all
different, and else less often than it has steps. -/
theorem run_calls (hsim : simulate.Obeys) (hempty : p.EmptyData site.directory)
    (hspheres : p.isEmptyCell = false) :
    ((p.planned.map (·.name)).Nodup →
      (p.run simulate site).2.calls = site.calls ++ p.planned.map (·.command)) ∧
    (¬(p.planned.map (·.name)).Nodup →
      (p.run simulate site).2.calls.length < site.calls.length + p.steps) := by
  obtain ⟨d, place, hcreate, hwrote⟩ := hempty.exists_wrote
  have hnil : (p.planned.map (·.name)) ++ [] = p.planned.map (·.name) := List.append_nil _
  rw [run, runWith, hspheres, if_neg (by decide), hcreate]
  dsimp only
  constructor
  · intro hnodup
    obtain ⟨records, site', hrun, hcalls⟩ :
        ∃ records site', p.recordsFrom simulate p.steps 0 (p.initialFraction piDouble)
          { site with directory := d } = (.ok records, site') ∧
          site'.calls = site.calls ++ p.planned.map (·.command) :=
      recordsFrom_of_fresh hsim _ _ _ hwrote (by rwa [← hnil] at hnodup)
    rw [hrun]
    exact hcalls
  · intro hnodup
    have hlt : (p.recordsFrom simulate p.steps 0 (p.initialFraction piDouble)
        { site with directory := d }).2.calls.length < site.calls.length + p.steps :=
      recordsFrom_calls_lt hsim _ _ _ hwrote List.nodup_nil (by rwa [← hnil] at hnodup)
    generalize p.recordsFrom simulate p.steps 0 (p.initialFraction piDouble)
      { site with directory := d } = after at hlt ⊢
    obtain ⟨result, site'⟩ := after
    cases result with
    | error failure => exact hlt
    | ok records => exact hlt

end Run

/-! ## When the names of the steps are different -/

/-- No two steps of a sweep are taken for one another: in a fixed box there is one step at most,
and periodic steps have filling fractions that differ in their first six digits. -/
def StepsApart (p : SweepPlan Float) : Prop :=
  match p.flavor with
  | .periodic _ => (p.planned.map fun s => (general s.ff, general s.ffSmall)).Nodup
  | .absolute _ _ _ _ => p.steps ≤ 1

theorem length_plannedFrom (p : SweepPlan Float) (left index : Nat) (ff : Float) :
    (p.plannedFrom left index ff).length = left := by
  induction left generalizing index ff with
  | zero => rfl
  | succ left ih => rw [plannedFrom, List.length_cons, ih]

theorem name_of_mem_plannedFrom (p : SweepPlan Float) (left index : Nat) (ff : Float) :
    ∀ s ∈ p.plannedFrom left index ff, s.name = p.nameAt s.ff s.ffSmall := by
  induction left generalizing index ff with
  | zero => simp [plannedFrom]
  | succ left ih =>
    rw [plannedFrom]
    exact List.forall_mem_cons.mpr ⟨rfl, ih _ _⟩

theorem nodup_names_iff (p : SweepPlan Float) :
    (p.planned.map (·.name)).Nodup ↔ p.StepsApart := by
  have hname := p.name_of_mem_plannedFrom p.steps 0 (p.initialFraction piDouble)
  have hlength : p.planned.length = p.steps := p.length_plannedFrom _ _ _
  rw [StepsApart]
  split
  · rename_i start hflavor
    rw [List.Nodup, List.Nodup, List.pairwise_map, List.pairwise_map]
    refine List.Pairwise.iff_of_mem fun {s t} hs ht => not_congr ?_
    rw [hname s hs, hname t ht, p.nameAt_periodic_inj_iff _ _ hflavor, Prod.mk.injEq]
  · rename_i wellWidth boxLength level radius hflavor
    have hconst : p.planned.map (·.name) = List.replicate p.steps (p.nameAt 0 0) := by
      rw [← hlength, ← List.map_const']
      refine List.map_congr_left fun s hs => ?_
      rw [hname s hs]
      exact p.nameAt_absolute _ _ hflavor _ _
    rw [hconst, List.nodup_replicate]

/-- **When a sweep simulates every step.** Started in an empty data folder with a simulator that
does what it is told, a sweep calls it once for each step and in order exactly if it is not
refused and no two steps are taken for one another; else there are fewer calls than steps. -/
theorem calls_eq_planned_iff {σ : Type} (p : SweepPlan Float) {simulate : Simulator σ}
    (hsim : simulate.Obeys) (site : Site σ) (hempty : p.EmptyData site.directory) :
    ((p.run simulate site).2.calls = site.calls ++ p.planned.map (·.command) ↔
        p.steps = 0 ∨ p.isEmptyCell = false ∧ p.StepsApart) ∧
      (¬(p.steps = 0 ∨ p.isEmptyCell = false ∧ p.StepsApart) →
        (p.run simulate site).2.calls.length < site.calls.length + p.steps) := by
  have hlength : p.planned.length = p.steps := p.length_plannedFrom _ _ _
  have hfewer : ¬(p.steps = 0 ∨ p.isEmptyCell = false ∧ p.StepsApart) →
      (p.run simulate site).2.calls.length < site.calls.length + p.steps := by
    intro hnot
    rw [not_or, not_and] at hnot
    by_cases hspheres : p.isEmptyCell = true
    · rw [run, runWith, if_pos hspheres]
      exact Nat.lt_add_of_pos_right (Nat.pos_of_ne_zero hnot.1)
    · rw [Bool.not_eq_true] at hspheres
      refine (run_calls hsim hempty hspheres).2 ?_
      rw [nodup_names_iff]
      exact hnot.2 hspheres
  refine ⟨⟨fun hcalls => ?_, ?_⟩, hfewer⟩
  · by_contra hnot
    have hlt := hfewer hnot
    rw [hcalls, List.length_append, List.length_map, hlength] at hlt
    exact lt_irrefl _ hlt
  · rintro (hzero | ⟨hspheres, hapart⟩)
    · have hle : (p.run simulate site).2.calls = site.calls := by
        rw [run, runWith, hzero]
        split
        · rfl
        · split
          · rfl
          · rfl
      rw [hle, List.eq_nil_of_length_eq_zero (hlength.trans hzero), List.map_nil, List.append_nil]
    · exact (run_calls hsim hempty hspheres).1 (p.nodup_names_iff.mpr hapart)

/-- A data folder with a new name where it begins is empty once it is created. -/
theorem emptyData_of_pieces {p : SweepPlan Float} {d : Directory} {name : String}
    (hname : Directory.IsName name) (hnul : '\x00' ∉ p.dataFolder.toList)
    (hpieces : Directory.pieces p.dataFolder = [name])
    (hnothing : ∀ inside,
      d.entryAt (Directory.origin d.home p.dataFolder ++ name :: inside) = none) :
    p.EmptyData d := by
  have hnone := hnothing []
  have hbase := d.entryAt_of_isPrefix_origin p.dataFolder List.prefix_rfl
  refine ⟨d.put (Directory.origin d.home p.dataFolder ++ [name]) .folder, _, ?_,
    ⟨hnul, ?_, Directory.entryAt_put_of_none hnone _⟩, fun inside hinside => ?_⟩
  · refine Directory.createFolders_eq_ok_iff.mpr ⟨by simpa using hnul, ?_⟩
    rw [hpieces, Directory.createAlong, if_neg hname.ne_dots]
    dsimp only
    rw [hnone]
    rfl
  · rw [hpieces, Directory.home_put]
    exact Directory.walk_name (Directory.folders_kept_put hnone _ _ hbase) hname.ne_dots
  · rw [Directory.entryAt_put_of_ne d (by simpa using hinside), List.append_assoc]
    exact hnothing inside

/-- A data folder below the root is empty where there is nothing but a working folder with another
name. -/
theorem emptyData_root {p : SweepPlan Float} (h : p.dataFolder = "/data") :
    p.EmptyData (.empty ["work"]) := by
  have hname : Directory.IsName "data" :=
    isName_of_isNameChar (isNameChar_literal rfl) (c := 'd') rfl (by decide)
  have horigin : Directory.origin ["work"] "/data" = [] := by decide +kernel
  refine emptyData_of_pieces hname (by rw [h]; decide) (by rw [h]; decide +kernel) fun inside => ?_
  rw [h, Directory.empty, horigin, Directory.entryAt, if_neg]
  · rfl
  · exact fun hprefix => absurd (List.cons_prefix_cons.mp hprefix).1 (by decide)

/-- Two steps in a fixed box, with a data folder below the root. -/
def fixedBox : SweepPlan Float :=
  ⟨.absolute 1.3 5 0 1, 2, 0.05, 4, 8, 1000000, 0, "/data", "../.."⟩

/-- Of two steps in a fixed box only one is simulated. -/
theorem calls_fixedBox_lt :
    let start : Site Unit := ⟨(), .empty ["work"], []⟩
    reporting.Obeys ∧ fixedBox.EmptyData start.directory ∧ 0 < fixedBox.increment ∧
      (fixedBox.run reporting start).2.calls ≠ fixedBox.planned.map (·.command) ∧
      (fixedBox.run reporting start).2.calls.length < 2 := by
  intro start
  have hempty : fixedBox.EmptyData start.directory := emptyData_root rfl
  have hnot : ¬(fixedBox.steps = 0 ∨ fixedBox.isEmptyCell = false ∧ fixedBox.StepsApart) := by
    rintro (hzero | ⟨_, hapart⟩)
    · exact absurd hzero (by decide)
    · exact absurd (show 2 ≤ 1 from hapart) (by decide)
  obtain ⟨hiff, hfewer⟩ := calls_eq_planned_iff fixedBox obeys_reporting start hempty
  refine ⟨obeys_reporting, hempty, by decide +kernel, fun hcalls => ?_, ?_⟩
  · exact hnot (hiff.mp (by rw [hcalls]; rfl))
  · have hlt := hfewer hnot
    exact hlt

end SweepPlan

end SphereLab
