import Mathlib
import SphereLab.Proofs.FreeEnergy.Resumption
import SphereLab.Proofs.FreeEnergy.Soundness

/-!
# The trace of a sweep

A simulator may do anything to the directory: it may write the files of later steps, delete those of
earlier ones, or leave its own file out.  So what a step of a run does depends on all calls before,
and the run can only be described by the directories that it goes through.

A trace is a list of visits, one for each step that came to a record.  A visit has the site before
and after its step was seen to; the next visit begins at the site and the filling fraction where the
one before ended.  The calls of a run are those of its visits, and of the step that it broke off at.

* `Visited`: a run of visits, from an index, a filling fraction and a site to others.
* `visited_of_recordsFrom`: every run is a run of visits, which may end in a step that fails.
* `Trace`: what the visits of a whole run are, by their positions.
* `getElem?_freeEnergy`, `freeEnergy_take`, `pairwise_freeEnergy`: the free energies over the reals.
* `run_trace`: the trace of a sweep.
-/

namespace SphereLab

/-! ## Free energies over the reals -/

namespace FreeEnergy

theorem accumulate_take {α : Type} [Scalar α] (log : α → α) (n sum : α) (ratios : List α) (k : ℕ) :
    accumulate log n sum (ratios.take k) = (accumulate log n sum ratios).take k := by
  induction ratios generalizing sum k with
  | nil => simp [accumulate]
  | cons ratio rest ih =>
    cases k with
    | zero => simp [accumulate]
    | succ k => simp [accumulate, ih]

/-- A free energy is what the logarithms up to its step have taken away. -/
theorem getElem?_accumulate (n sum : ℝ) (ratios : List ℝ) (k : ℕ) :
    (accumulate Scalar.log n sum ratios)[k]? =
      if k < ratios.length then
        some ((sum - ((ratios.take (k + 1)).map Real.log).sum) / n)
      else none := by
  induction ratios generalizing sum k with
  | nil => simp [accumulate]
  | cons ratio rest ih =>
    have hlog : ∀ x : ℝ, Scalar.log x = Real.log x := fun _ => rfl
    rw [accumulate]
    cases k with
    | zero => simp [hlog]
    | succ k =>
      simp only [List.getElem?_cons_succ, ih, List.length_cons, Nat.add_lt_add_iff_right,
        List.take_succ_cons, List.map_cons, List.sum_cons, hlog, sub_sub]

/-- Ratios that are not above one never lower the free energy. -/
theorem pairwise_accumulate {n : ℝ} (hn : 0 ≤ n) (sum : ℝ) {ratios : List ℝ}
    (h : ∀ ratio ∈ ratios, 0 < ratio ∧ ratio ≤ 1) :
    (∀ f ∈ accumulate Scalar.log n sum ratios, sum / n ≤ f) ∧
      (accumulate Scalar.log n sum ratios).Pairwise (· ≤ ·) := by
  induction ratios generalizing sum with
  | nil => simp [accumulate]
  | cons ratio rest ih =>
    rw [List.forall_mem_cons] at h
    obtain ⟨hbound, hpairwise⟩ := ih (sum - Scalar.log ratio) h.2
    have hlog : Scalar.log ratio ≤ 0 := Real.log_nonpos h.1.1.le h.1.2
    have hstep : sum / n ≤ (sum - Scalar.log ratio) / n :=
      div_le_div_of_nonneg_right (by linarith) hn
    rw [accumulate, List.forall_mem_cons, List.pairwise_cons]
    exact ⟨⟨hstep, fun f hf => hstep.trans (hbound f hf)⟩, hbound, hpairwise⟩

end FreeEnergy

namespace Sweep

/-- The free energies of the first records are the first free energies. -/
theorem freeEnergy_take {α : Type} [Scalar α] (n : ℕ) (rs : List (SweepRecord α)) (k : ℕ) :
    (ofRecords n (rs.take k)).freeEnergy = (ofRecords n rs).freeEnergy.take k := by
  simp only [ofRecords, ofRecordsWith, FreeEnergy.cumulativeWith, List.map_take,
    FreeEnergy.accumulate_take]

@[simp] theorem length_freeEnergy {α : Type} [Scalar α] (n : ℕ) (rs : List (SweepRecord α)) :
    (ofRecords n rs).freeEnergy.length = rs.length := by
  simp [ofRecords, ofRecordsWith, FreeEnergy.cumulativeWith]

section Reals

variable {rs : List (SweepRecord ℝ)} (hratio : ∀ r ∈ rs, r.ratio = r.succeeded / r.tried) (n : ℕ)
include hratio

/-- The free energy after a step is the sum of the logarithms up to it, taken for one sphere and
with the other sign. -/
theorem getElem?_freeEnergy (k : ℕ) :
    (ofRecords n rs).freeEnergy[k]? = if k < rs.length then
      some (-((rs.take (k + 1)).map fun r => Real.log (r.succeeded / r.tried)).sum /
        (max n 1 : ℕ)) else none := by
  have hlogs : ((rs.map (·.ratio)).take (k + 1)).map Real.log =
      (rs.take (k + 1)).map fun r => Real.log (r.succeeded / r.tried) := by
    rw [← List.map_take, List.map_map]
    refine List.map_congr_left fun r hr => ?_
    rw [Function.comp_apply, hratio r (List.mem_of_mem_take hr)]
  have hspheres : Scalar.ofNat (α := ℝ) (max n 1) = (max n 1 : ℕ) := rfl
  rw [ofRecords, ofRecordsWith, FreeEnergy.cumulativeWith, FreeEnergy.getElem?_accumulate, hlogs,
    hspheres, List.length_map, zero_sub]

/-- The free energies do not decrease while no more insertions succeed than are tried. -/
theorem pairwise_freeEnergy (hle : ∀ r ∈ rs, 0 < r.succeeded ∧ r.succeeded ≤ r.tried) :
    (ofRecords n rs).freeEnergy.Pairwise (· ≤ ·) := by
  have hspheres : (0 : ℝ) ≤ Scalar.ofNat (max n 1) := Nat.cast_nonneg (α := ℝ) (max n 1)
  refine (FreeEnergy.pairwise_accumulate hspheres 0 ?_).2
  intro ratio hmem
  obtain ⟨r, hr, rfl⟩ := List.mem_map.mp hmem
  obtain ⟨hpos, hle⟩ := hle r hr
  rw [hratio r hr]
  exact ⟨div_pos hpos (hpos.trans_le hle), div_le_one_of_le₀ hle (hpos.trans_le hle).le⟩

end Reals

end Sweep

/-! ## Visits -/

namespace SweepStep

variable {σ : Type} (s : SweepStep Float) {simulate : Simulator σ} {site site' : Site σ}

/-- The calls that a step makes in a directory: none if its file is there, else its command. -/
def callsIn (d : Directory) : List (List String) :=
  if d.isFile s.output then [] else [s.command]

theorem calls_ensure (simulate : Simulator σ) (site : Site σ) :
    (s.ensure simulate site).2.calls = site.calls ++ s.callsIn site.directory := by
  rw [ensure, callsIn]
  split
  · rw [List.append_nil]
  · rfl

/-- A step breaks a run off: its call fails, or its file cannot be read as a record. -/
def BreaksOff (simulate : Simulator σ) (site : Site σ) (failure : Failure) (site' : Site σ) :
    Prop :=
  s.ensure simulate site = (some failure, site') ∨
    s.ensure simulate site = (none, site') ∧ s.record site'.directory = .error failure

variable {s}

theorem BreaksOff.calls {failure : Failure} (h : s.BreaksOff simulate site failure site') :
    site'.calls = site.calls ++ s.callsIn site.directory := by
  have hcalls := s.calls_ensure simulate site
  rcases h with hensure | ⟨hensure, -⟩
  · rwa [hensure] at hcalls
  · rwa [hensure] at hcalls

end SweepStep

/-- A step of a run that has come to a record: the site before and after it was seen to. -/
structure Visit (σ : Type) where
  step : SweepStep Float
  before : Site σ
  after : Site σ
  record : SweepRecord Float

namespace Visit

variable {σ : Type}

/-- The calls of a visit. -/
def calls (v : Visit σ) : List (List String) := v.step.callsIn v.before.directory

/-- What happens in a visit: a step whose file is there leaves the site as it was, any other calls
the simulator with its command, and the file is read afterwards. -/
structure Taken (simulate : Simulator σ) (v : Visit σ) : Prop where
  cached : v.before.directory.isFile v.step.output = true → v.after = v.before
  called : v.before.directory.isFile v.step.output = false →
    v.before.call simulate v.step.command = (none, v.after)
  read : v.step.record v.after.directory = .ok v.record

theorem taken_of_ensure {simulate : Simulator σ} {v : Visit σ}
    (hensure : v.step.ensure simulate v.before = (none, v.after))
    (hread : v.step.record v.after.directory = .ok v.record) : v.Taken simulate := by
  rw [SweepStep.ensure] at hensure
  refine ⟨fun hfile => ?_, fun hfile => ?_, hread⟩
  · rw [if_pos hfile] at hensure
    exact (congrArg Prod.snd hensure).symm
  · rwa [if_neg (by simp [hfile])] at hensure

/-- The filling fraction and the site at which the step after some visits begins. -/
def reached (ff : Float) (site : Site σ) : List (Visit σ) → Float × Site σ
  | [] => (ff, site)
  | v :: rest => reached v.record.ffSmall v.after rest

end Visit

/-! ## Runs of visits -/

namespace SweepPlan

variable {σ : Type} {p : SweepPlan Float} {simulate : Simulator σ} {site site' : Site σ}
  {index : ℕ} {ff : Float} {visits : List (Visit σ)}

/-- The visits of the steps from an index, a filling fraction and a site on, each from where the one
before has led. -/
inductive Visited (p : SweepPlan Float) (simulate : Simulator σ) :
    ℕ → Float → Site σ → List (Visit σ) → Prop where
  | nil (index : ℕ) (ff : Float) (site : Site σ) : Visited p simulate index ff site []
  | cons {index : ℕ} {v : Visit σ} {rest : List (Visit σ)}
      (hstep : v.step = p.stepAt index v.record.ff) (htaken : v.Taken simulate)
      (hrest : Visited p simulate (index + 1) v.record.ffSmall v.after rest) :
      Visited p simulate index v.record.ff v.before (v :: rest)

/-- **Runs are runs of visits.**  A run that comes to records has visited all its steps, and any
other has visited the steps before the one that broke it off. -/
theorem visited_of_recordsFrom {left : ℕ} {result : Except Failure (List (SweepRecord Float))}
    (h : p.recordsFrom simulate left index ff site = (result, site')) :
    ∃ visits, p.Visited simulate index ff site visits ∧
      (visits.length = left ∧ result = .ok (visits.map (·.record)) ∧
          site' = (Visit.reached ff site visits).2 ∨
        visits.length < left ∧ ∃ failure, result = .error failure ∧
          (p.stepAt (index + visits.length) (Visit.reached ff site visits).1).BreaksOff simulate
            (Visit.reached ff site visits).2 failure site') := by
  induction left generalizing index ff site result with
  | zero =>
    rw [recordsFrom] at h
    cases h
    exact ⟨[], .nil index ff _, Or.inl ⟨rfl, rfl, rfl⟩⟩
  | succ left ih =>
    rcases recordsFrom_succ_cases h with ⟨failure, hensure, hresult⟩ |
      ⟨failure, hensure, hrecord, hresult⟩ |
        ⟨between, record, rest, hensure, hrecord, hrest, hresult⟩
    · exact ⟨[], .nil index ff site, Or.inr ⟨left.succ_pos, failure, hresult, Or.inl hensure⟩⟩
    · exact ⟨[], .nil index ff site,
        Or.inr ⟨left.succ_pos, failure, hresult, Or.inr ⟨hensure, hrecord⟩⟩⟩
    · obtain ⟨visits, hvisited, hend⟩ := ih hrest
      have hff : record.ff = ff := by
        obtain ⟨_, _, _, -, -, rfl⟩ := SweepStep.eq_of_record hrecord
        rfl
      let v : Visit σ := ⟨p.stepAt index ff, site, between, record⟩
      have hcons : p.Visited simulate index record.ff site (v :: visits) :=
        .cons (v := v) (by rw [hff]) (Visit.taken_of_ensure hensure hrecord) hvisited
      rw [hff] at hcons
      refine ⟨v :: visits, hcons, ?_⟩
      rcases hend with ⟨hlength, hrecords, hsite⟩ | ⟨hlength, failure, herror, hbreaks⟩
      · rw [hrecords] at hresult
        exact Or.inl ⟨congrArg Nat.succ hlength, hresult, hsite⟩
      · rw [herror] at hresult
        refine Or.inr ⟨Nat.succ_lt_succ hlength, failure, hresult, ?_⟩
        have hindex : index + (v :: visits).length = index + 1 + visits.length := by
          rw [List.length_cons]
          omega
        rw [hindex]
        exact hbreaks

/-- The calls at the end of a run of visits are those of the visits. -/
theorem Visited.calls (h : p.Visited simulate index ff site visits) :
    (Visit.reached ff site visits).2.calls = site.calls ++ visits.flatMap (·.calls) := by
  induction h with
  | nil index ff site => simp [Visit.reached]
  | @cons index v rest hstep htaken _ ih =>
    have hafter : v.after.calls = v.before.calls ++ v.calls := by
      rw [Visit.calls, SweepStep.callsIn]
      split
      · rename_i hfile
        rw [htaken.cached hfile, List.append_nil]
      · rename_i hfile
        rw [Bool.not_eq_true] at hfile
        have hcall := congrArg (fun result => result.2.calls) (htaken.called hfile)
        exact hcall.symm
    rw [Visit.reached, ih, hafter, List.flatMap_cons, List.append_assoc]

/-! ## Traces -/

/-- The visits of a run from a site on, by their positions. -/
structure Trace (p : SweepPlan Float) (simulate : Simulator σ) (site : Site σ)
    (visits : List (Visit σ)) : Prop where
  /-- The first visit begins at the site and at the first filling fraction of the sweep. -/
  first : ∀ v, visits[0]? = some v → v.before = site ∧ v.record.ff = p.initialFraction piDouble
  /-- Any other begins where the one before has led. -/
  next : ∀ i v w, visits[i]? = some v → visits[i + 1]? = some w →
    w.before = v.after ∧ w.record.ff = v.record.ffSmall
  /-- A visit takes the step of its position and of the fraction that it begins at. -/
  step : ∀ i v, visits[i]? = some v → v.step = p.stepAt i v.record.ff
  taken : ∀ v ∈ visits, v.Taken simulate

theorem Visited.first (h : p.Visited simulate index ff site visits) :
    ∀ v, visits[0]? = some v → v.before = site ∧ v.record.ff = ff := by
  intro v hv
  cases h with
  | nil => cases hv
  | cons => cases hv; exact ⟨rfl, rfl⟩

theorem Visited.next (h : p.Visited simulate index ff site visits) :
    ∀ i v w, visits[i]? = some v → visits[i + 1]? = some w →
      w.before = v.after ∧ w.record.ff = v.record.ffSmall := by
  induction h with
  | nil => exact fun i v w hv => by cases hv
  | cons _ _ hrest ih =>
    intro i v w hv hw
    cases i with
    | zero =>
      cases hv
      exact hrest.first w hw
    | succ i => exact ih i v w hv hw

theorem Visited.step (h : p.Visited simulate index ff site visits) :
    ∀ i v, visits[i]? = some v → v.step = p.stepAt (index + i) v.record.ff := by
  induction h with
  | nil => exact fun i v hv => by cases hv
  | @cons index _ _ hstep _ _ ih =>
    intro i v hv
    cases i with
    | zero =>
      cases hv
      exact hstep
    | succ i =>
      have hindex : index + (i + 1) = index + 1 + i := by omega
      rw [hindex]
      exact ih i v hv

theorem Visited.taken (h : p.Visited simulate index ff site visits) :
    ∀ v ∈ visits, v.Taken simulate := by
  induction h with
  | nil => exact fun v hv => absurd hv List.not_mem_nil
  | cons _ htaken _ ih => exact List.forall_mem_cons.mpr ⟨htaken, ih⟩

theorem Visited.trace (h : p.Visited simulate 0 (p.initialFraction piDouble) site visits) :
    p.Trace simulate site visits := by
  refine ⟨h.first, h.next, fun i v hv => ?_, h.taken⟩
  rw [h.step i v hv, Nat.zero_add]

/-! ## The trace of a sweep -/

/-- The ways in which a sweep can end: it is refused, its folder cannot be created, or its steps are
taken from the folder on. -/
theorem run_cases {result : Except Failure (Sweep Float)}
    (h : p.run simulate site = (result, site')) :
    (∃ failure, result = .error failure ∧ site' = site ∧
        (p.isEmptyCell = true ∨ ∃ e, site.directory.createFolders p.folder = .error e)) ∨
      ∃ d records, site.directory.createFolders p.folder = .ok d ∧
        p.recordsFrom simulate p.steps 0 (p.initialFraction piDouble)
          { site with directory := d } = (records, site') ∧
        result = records.map (.ofRecords p.spheres) := by
  rw [run, runWith] at h
  split at h
  · rename_i hempty
    cases h
    exact Or.inl ⟨_, rfl, rfl, Or.inl hempty⟩
  · split at h
    · rename_i e hcreate
      cases h
      exact Or.inl ⟨_, rfl, rfl, Or.inr ⟨e, hcreate⟩⟩
    · rename_i d hcreate
      split at h
      · rename_i failure last hrecords
        cases h
        exact Or.inr ⟨d, .error failure, hcreate, hrecords, rfl⟩
      · rename_i records last hrecords
        cases h
        exact Or.inr ⟨d, .ok records, hcreate, hrecords, rfl⟩

/-- **The trace of a sweep.**  A sweep that succeeds has visited each step once, from the fraction
and the site where the step before has led, and has called the simulator with the commands of those
steps whose file was not there when they began.  One that fails has done the same up to the step
that broke it off, and calls nothing after that.  Over the reals the free energies are the sums of
the logarithms of the ratios, those of the first records are the first ones, and they do not
decrease. -/
theorem run_trace (p : SweepPlan Float) (simulate : Simulator σ) (site : Site σ) :
    (∀ s site', p.run simulate site = (.ok s, site') →
      ∃ d visits, site.directory.createFolders p.folder = .ok d ∧
        p.Trace simulate { site with directory := d } visits ∧ visits.length = p.steps ∧
        s = .ofRecords p.spheres (visits.map (·.record)) ∧
        s.records.length = p.steps ∧ s.freeEnergy.length = p.steps ∧
        (∀ k, (Sweep.ofRecords p.spheres (s.records.take k)).freeEnergy = s.freeEnergy.take k) ∧
        (∀ r ∈ s.records, r.Guarded) ∧
        site'.calls = site.calls ++ visits.flatMap (·.calls)) ∧
      (∀ failure site', p.run simulate site = (.error failure, site') →
        site' = site ∧
            (p.isEmptyCell = true ∨ ∃ e, site.directory.createFolders p.folder = .error e) ∨
          ∃ d visits ff between, site.directory.createFolders p.folder = .ok d ∧
            p.Trace simulate { site with directory := d } visits ∧ visits.length < p.steps ∧
            (ff, between) = Visit.reached (p.initialFraction piDouble) { site with directory := d }
              visits ∧
            (p.stepAt visits.length ff).BreaksOff simulate between failure site' ∧
            site'.calls = site.calls ++ visits.flatMap (·.calls) ++
              (p.stepAt visits.length ff).callsIn between.directory) ∧
      ∀ (n : ℕ) (rs : List (SweepRecord ℝ)), (∀ r ∈ rs, r.ratio = r.succeeded / r.tried) →
        (∀ k : ℕ, (Sweep.ofRecords n rs).freeEnergy[k]? = if k < rs.length then
          some (-((rs.take (k + 1)).map fun r => Real.log (r.succeeded / r.tried)).sum /
            (max n 1 : ℕ)) else none) ∧
        (∀ k : ℕ, (Sweep.ofRecords n (rs.take k)).freeEnergy =
          (Sweep.ofRecords n rs).freeEnergy.take k) ∧
        ((∀ r ∈ rs, 0 < r.succeeded ∧ r.succeeded ≤ r.tried) →
          (Sweep.ofRecords n rs).freeEnergy.Pairwise (· ≤ ·)) := by
  refine ⟨fun s site' hrun => ?_, fun failure site' hrun => ?_, fun n rs hratio =>
    ⟨Sweep.getElem?_freeEnergy hratio n, Sweep.freeEnergy_take n rs,
      Sweep.pairwise_freeEnergy hratio n⟩⟩
  · rcases run_cases hrun with ⟨failure, herror, -⟩ | ⟨d, records, hcreate, hrecords, hresult⟩
    · cases herror
    obtain ⟨visits, hvisited, ⟨hlength, rfl, hsite⟩ | ⟨-, failure, rfl, -⟩⟩ :=
      visited_of_recordsFrom hrecords
    · obtain rfl : s = .ofRecords p.spheres (visits.map (·.record)) := Except.ok.inj hresult
      have hrecorded : (visits.map (·.record)).length = p.steps := by rw [List.length_map, hlength]
      refine ⟨d, visits, hcreate, hvisited.trace, hlength, rfl, hrecorded, ?_,
        Sweep.freeEnergy_take _ _, guarded_of_recordsFrom hrecords, ?_⟩
      · rw [Sweep.length_freeEnergy, hrecorded]
      · rw [hsite, hvisited.calls]
    · cases hresult
  · rcases run_cases hrun with ⟨failure', -, hsite, hwhy⟩ | ⟨d, records, hcreate, hrecords, hresult⟩
    · exact Or.inl ⟨hsite, hwhy⟩
    obtain ⟨visits, hvisited, ⟨-, rfl, -⟩ | ⟨hlength, failure', rfl, hbreaks⟩⟩ :=
      visited_of_recordsFrom hrecords
    · cases hresult
    · obtain rfl : failure = failure' := Except.error.inj hresult
      rw [Nat.zero_add] at hbreaks
      refine Or.inr ⟨d, visits, _, _, hcreate, hvisited.trace, hlength, rfl, hbreaks, ?_⟩
      rw [hbreaks.calls, hvisited.calls]

/-- The interrupted sweep, in both its runs.  The first breaks off at its second step, after two
calls.  The other visits three steps, each from where the one before has led: the file of the first
is there, and the simulator is called for the two others.  Then the free energies of two steps at
which half of the insertions succeed. -/
theorem run_trace_threeSteps :
    let start : Site ℕ := ⟨2, .empty ["work"], []⟩
    (∃ between, threeSteps.run interrupted start = (.error (.external "interrupted"), between) ∧
        (∃ (v : Visit ℕ) (visits : List (Visit ℕ)) (ff : Float) (before : Site ℕ),
          v.record.ff = threeSteps.initialFraction piDouble ∧ (v :: visits).length < 3 ∧
            (threeSteps.stepAt (v :: visits).length ff).BreaksOff interrupted before
              (.external "interrupted") between ∧
            (v :: visits).flatMap (·.calls) ++
                (threeSteps.stepAt (v :: visits).length ff).callsIn before.directory =
              (threeSteps.planned.take 2).map (·.command)) ∧
        ∃ (site' : Site ℕ) (s : Sweep Float) (v₁ v₂ v₃ : Visit ℕ),
          threeSteps.run interrupted between = (.ok s, site') ∧
            s.records = [v₁.record, v₂.record, v₃.record] ∧
            v₁.record.ff = threeSteps.initialFraction piDouble ∧
            v₂.record.ff = v₁.record.ffSmall ∧ v₃.record.ff = v₂.record.ffSmall ∧
            v₁.calls = [] ∧ v₂.calls ++ v₃.calls = (threeSteps.planned.drop 1).map (·.command)) ∧
      (Sweep.ofRecords 10 [(⟨0, 1 / 20, 1000, 500, 1 / 2⟩ : SweepRecord ℝ),
          ⟨1 / 20, 1 / 10, 10, 5, 1 / 2⟩]).freeEnergy =
        [-Real.log (1 / 2) / 10, -(Real.log (1 / 2) + Real.log (1 / 2)) / 10] := by
  intro start
  obtain ⟨d, between, s, site', hfolder, hbroken, hcalls, hfiles, hrun, hcalls'⟩ :=
    runs_interrupted_threeSteps
  have htwo : ((threeSteps.planned.take 2).map (·.command)).length = 2 := rfl
  refine ⟨⟨between, hbroken, ?_, ?_⟩, ?_⟩
  · rcases (run_trace threeSteps interrupted start).2.1 _ _ hbroken with
      ⟨hsite, -⟩ | ⟨d', visits, ff, before, -, htrace, hlength, -, hbreaks, htotal⟩
    · rw [← hcalls, hsite] at htwo
      exact absurd htwo (by decide)
    · rw [hcalls] at htotal
      cases visits with
      | nil =>
        -- A step calls the simulator once at most, and there have been two calls.
        have hle : ((threeSteps.stepAt 0 ff).callsIn before.directory).length ≤ 1 := by
          rw [SweepStep.callsIn]
          split <;> simp
        rw [htotal] at htwo
        have hcalled : ((threeSteps.stepAt 0 ff).callsIn before.directory).length = 2 := htwo
        omega
      | cons v visits =>
        exact ⟨v, visits, ff, before, (htrace.first v rfl).2, hlength, hbreaks, htotal.symm⟩
  · obtain ⟨d', visits, hfolder', htrace, hlength, hsweep, -, -, -, -, htotal⟩ :=
      (run_trace threeSteps interrupted between).1 _ _ hrun
    obtain ⟨v₁, v₂, v₃, rfl⟩ := List.length_eq_three.mp hlength
    obtain ⟨hbefore, hff⟩ := htrace.first v₁ rfl
    have hcached : v₁.calls = [] := by
      have hfile : between.directory.isFile
          (threeSteps.stepAt 0 (threeSteps.initialFraction piDouble)).output = true :=
        (List.cons.inj hfiles).1
      have hgrows := Directory.createFolders_grows hfolder'
      rw [Visit.calls, SweepStep.callsIn, htrace.step 0 v₁ rfl, hbefore, hff,
        if_pos (Directory.isFile_of_grows hgrows hfile)]
    rw [hcalls', List.append_cancel_left_eq] at htotal
    refine ⟨site', s, v₁, v₂, v₃, hrun, congrArg Sweep.records hsweep, hff,
      (htrace.next 0 v₁ v₂ rfl rfl).2, (htrace.next 1 v₂ v₃ rfl rfl).2, hcached, ?_⟩
    rw [htotal]
    simp [hcached]
  · have hhalf : (1 / 2 : ℝ) = 500 / 1000 ∧ (1 / 2 : ℝ) = 5 / 10 := by norm_num
    have henergy := ((run_trace threeSteps interrupted start).2.2 10
      [⟨0, 1 / 20, 1000, 500, 1 / 2⟩, ⟨1 / 20, 1 / 10, 10, 5, 1 / 2⟩] (by simpa using hhalf)).1
    refine List.ext_getElem? fun k => ?_
    rw [henergy k]
    match k with
    | 0 => simp [hhalf.1]
    | 1 => norm_num
    | k + 2 => simp

end SweepPlan

end SphereLab
