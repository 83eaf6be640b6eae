import Mathlib
import SphereLab.Proofs.LeastSquares.Descent

/-!
# The calls of a minimisation

A report has the number of calls of the residual function, but it is a counter that says so.  Here
the residual function and the solver are actions, which the method can carry out and cannot look
into: `Actions.minimise` is the method for any kind of actions.  Carried out by actions that keep a
log, it comes to the same as the method itself, and the log is what was called.

The log has the start, and then one round for each iteration: the shifted points of the differences,
and one pass for each linear problem, with the trial that its step leads to, if it has one.

* `Actions.minimise`: the method, by actions.
* `Logs`: what an action comes to, and what it adds to the log.
* `Round`, `Round.events`: the calls of an iteration.
* `logs_search`, `logs_iterate`, `logs_run`: the calls of a search, of an iteration and of a run,
  and the counters after them.
* `logs_minimise`: the calls of a minimisation.
-/

namespace SphereLab

namespace LevenbergMarquardt

variable {α : Type} [Scalar α]

/-! ## The method by actions -/

/-- A residual function and a solver of linear problems that are carried out. -/
structure Actions (m : Type → Type) (α : Type) where
  evaluate : List α → m (List α)
  solve : ℕ → List (List α) → List α → m (Option (List α))

namespace Actions

variable {m : Type → Type} [Monad m] (actions : Actions m α) (options : Options α)
  (count size : ℕ)

/-- The column of differences of a parameter, from the residuals at the shifted point. -/
def column (r shifted : List α) (h : α) : List α :=
  r.mapIdx fun i ri =>
    match shifted[i]? with
    | none => 0
    | some si =>
      let d := (si - ri) / h
      if Scalar.isFinite d then d else 0

/-- The columns of differences: the residual function is carried out once for each parameter. -/
def differenceColumns (x r : List α) : m (List (List α)) :=
  x.zipIdx.mapM fun (xj, j) => do
    let shifted ← actions.evaluate (shiftAt x j (differenceStep xj))
    return column r shifted (differenceStep xj)

/-- One damped problem; the residual function is carried out if it has a solution. -/
def attempt (columns : List (List α)) (s : State α) : m (Attempt α) :=
  match dampedRows? count size columns s.damping s.scale, dampedTarget? count size s.residuals with
  | some rows, some target => do
    let asked : State α := { s with solved := s.solved + 1 }
    match ← actions.solve s.solved rows target with
    | none => return reject asked .singular
    | some step =>
      let trial := List.zipWith (· + ·) s.params step
      let r ← actions.evaluate trial
      let tried : State α := { asked with evaluations := s.evaluations + 1 }
      match (finiteCost? r).filter fun cost => cost < s.cost with
      | some cost => return .settled (accept options tried step trial r cost)
      | none => return reject tried .noReduction
  | _, _ => return .settled (.failed .outOfRange)

/-- Damped problems, until one is settled. -/
def search (columns : List (List α)) (s : State α) : ℕ → m (Progress α)
  | 0 => return .failed .endlessDamping
  | patience + 1 => do
    match ← actions.attempt options count size columns s with
    | .settled progress => return progress
    | .rejected s => search columns s patience

/-- One iteration. -/
def iterate (patience : ℕ) (s : State α) : m (Progress α) := do
  let columns ← actions.differenceColumns s.params s.residuals
  let s : State α :=
    { s with iteration := s.iteration + 1, evaluations := s.evaluations + size }
  let gradient := columns.map fun c => inner c s.residuals
  let largest := gradient.foldl (fun m g => Scalar.maxOf m (Scalar.abs g)) 0
  if largest ≤ options.gradientTolerance then return .ended (s.report .smallGradient)
  else
    match rescaled? s.scale columns with
    | none => return .failed .outOfRange
    | some scale => actions.search options count size columns { s with scale := scale } patience

/-- Iterations. -/
def run (patience : ℕ) (s : State α) : ℕ → m (Except Fault (Report α))
  | 0 => return .ok (s.report .iterationLimit)
  | left + 1 => do
    match ← actions.iterate options count size patience s with
    | .ended report => return .ok report
    | .failed fault => return .error fault
    | .taken s => run patience s left

/-- The whole minimisation. -/
def minimise (patience : ℕ) (start : List α) : m (Except Fault (Report α)) :=
  if start.isEmpty then return .error .noParameters
  else do
    let r ← actions.evaluate start
    if r.isEmpty then return .error .noResiduals
    else
      match finiteCost? r with
      | none => return .error .notFinite
      | some cost =>
        actions.run options r.length start.length patience
          ⟨start, r, cost, options.initialDamping, start.map fun _ => 0, 0, 1, 0, []⟩
          options.maxIterations

end Actions

/-! ## Logs -/

/-- An action comes to a value, and adds entries to the log. -/
def Logs {ε β : Type} (action : StateM (List ε) β) (value : β) (entries : List ε) : Prop :=
  ∀ log, action.run log = (value, log ++ entries)

section Logs

variable {ε β γ : Type}

theorem logs_pure (value : β) : Logs (ε := ε) (pure value) value [] := fun log => by
  rw [List.append_nil]
  rfl

theorem Logs.bind {action : StateM (List ε) β} {next : β → StateM (List ε) γ} {value : β}
    {value' : γ} {entries entries' : List ε} (h : Logs action value entries)
    (h' : Logs (next value) value' entries') :
    Logs (action >>= next) value' (entries ++ entries') := by
  intro log
  have hrun : (action >>= next).run log =
      (next (action.run log).1).run (action.run log).2 := rfl
  rw [hrun, h log, h' (log ++ entries), List.append_assoc]

/-- What follows may add nothing. -/
theorem Logs.last {action : StateM (List ε) β} {next : β → StateM (List ε) γ} {value : β}
    {value' : γ} {entries : List ε} (h : Logs action value entries)
    (h' : Logs (next value) value' []) : Logs (action >>= next) value' entries := by
  have hall := h.bind h'
  rwa [List.append_nil] at hall

theorem logs_mapM {action : β → StateM (List ε) γ} {value : β → γ} {entry : β → ε}
    (h : ∀ x, Logs (action x) (value x) [entry x]) (xs : List β) :
    Logs (xs.mapM action) (xs.map value) (xs.map entry) := by
  induction xs with
  | nil => exact logs_pure _
  | cons x rest ih =>
    rw [List.mapM_cons]
    exact (h x).bind (ih.last (logs_pure _))

end Logs

/-- A call: of the residual function at a point, or of the solver. -/
inductive Event (α : Type) where
  | evaluated (point : List α)
  | solved

section Logging

omit [Scalar α]

/-- The residual function and the solver of a task, with a log of their calls. -/
def Task.logging (t : Task α) : Actions (StateM (List (Event α))) α where
  evaluate x := do
    modify (· ++ [.evaluated x])
    return t.residuals x
  solve asked rows target := do
    modify (· ++ [.solved])
    return t.solve asked rows target

theorem logs_evaluate (t : Task α) (x : List α) :
    Logs (t.logging.evaluate x) (t.residuals x) [.evaluated x] := fun _ => rfl

theorem logs_solve (t : Task α) (asked : ℕ) (rows : List (List α)) (target : List α) :
    Logs (t.logging.solve asked rows target) (t.solve asked rows target) [.solved] := fun _ => rfl

end Logging

/-! ## The calls of an iteration -/

/-- The calls for one linear problem: of the solver, and of the residual function at the trial if
there is one. -/
def passEvents : Option (List α) → List (Event α)
  | none => [.solved]
  | some trial => [.solved, .evaluated trial]

/-- The calls of an iteration: from a point, some linear problems with their trials. -/
structure Round (α : Type) where
  point : List α
  passes : List (Option (List α))

/-- The shifted points of the differences at a point. -/
def shiftedPoints (x : List α) : List (List α) :=
  x.zipIdx.map fun (xj, j) => shiftAt x j (differenceStep xj)

def Round.events (round : Round α) : List (Event α) :=
  (shiftedPoints round.point).map .evaluated ++ round.passes.flatMap passEvents

/-- The number of trials among some passes. -/
def trials (passes : List (Option (List α))) : ℕ := passes.countP Option.isSome

/-- The counters after an iteration. -/
def Progress.Counts (iterations evaluations : ℕ) : Progress α → Prop
  | .ended report => report.iterations = iterations ∧ report.evaluations = evaluations
  | .failed _ => True
  | .taken s => s.iteration = iterations ∧ s.evaluations = evaluations

/-- The counters after a linear problem. -/
def Attempt.Counts (iterations evaluations : ℕ) : Attempt α → Prop
  | .settled progress => progress.Counts iterations evaluations
  | .rejected s => s.iteration = iterations ∧ s.evaluations = evaluations

theorem logs_differenceColumns (t : Task α) (x r : List α) :
    Logs (t.logging.differenceColumns x r) (differenceColumns t.residuals x r)
      ((shiftedPoints x).map .evaluated) := by
  have hcolumns : differenceColumns t.residuals x r = x.zipIdx.map fun (xj, j) =>
      Actions.column r (t.residuals (shiftAt x j (differenceStep xj))) (differenceStep xj) := by
    rw [differenceColumns, List.mapIdx_eq_zipIdx_map]
    rfl
  rw [hcolumns, shiftedPoints, List.map_map]
  refine logs_mapM (fun entry => ?_) x.zipIdx
  exact (logs_evaluate t _).last (logs_pure _)

theorem counts_reject (s : State α) (outcome : Outcome) :
    (reject s outcome).Counts s.iteration s.evaluations := by
  rw [reject]
  dsimp only
  split
  · exact ⟨rfl, rfl⟩
  · exact ⟨rfl, rfl⟩

theorem counts_accept (options : Options α) (s : State α) (step trial r : List α) (cost : α) :
    (accept options s step trial r cost).Counts s.iteration s.evaluations := by
  rw [accept]
  split
  · exact ⟨rfl, rfl⟩
  · split
    · exact ⟨rfl, rfl⟩
    · exact ⟨rfl, rfl⟩

/-- One linear problem is one pass, unless there is an index out of range. -/
theorem logs_attempt (t : Task α) (count size : ℕ) (columns : List (List α)) (s : State α) :
    ∃ passes, Logs (t.logging.attempt t.options count size columns s)
        (t.attempt count size columns s) (passes.flatMap passEvents) ∧
      passes.length ≤ 1 ∧
      (t.attempt count size columns s).Counts s.iteration (s.evaluations + trials passes) := by
  rw [Task.attempt, Actions.attempt]
  cases dampedRows? count size columns s.damping s.scale with
  | none => exact ⟨[], logs_pure _, Nat.zero_le _, trivial⟩
  | some rows =>
    cases dampedTarget? count size s.residuals with
    | none => exact ⟨[], logs_pure _, Nat.zero_le _, trivial⟩
    | some target =>
      dsimp only
      have hsolve := logs_solve t s.solved rows target
      cases hstep : t.solve s.solved rows target with
      | none =>
        rw [hstep] at hsolve
        exact ⟨[none], hsolve.last (logs_pure _), le_rfl, counts_reject _ _⟩
      | some step =>
        rw [hstep] at hsolve
        dsimp only
        refine ⟨[some (List.zipWith (· + ·) s.params step)], ?_, le_rfl, ?_⟩
        · refine hsolve.bind ((logs_evaluate t _).last ?_)
          cases (finiteCost? (t.residuals (List.zipWith (· + ·) s.params step))).filter
            fun cost => cost < s.cost with
          | none => exact logs_pure _
          | some cost => exact logs_pure _
        · cases (finiteCost? (t.residuals (List.zipWith (· + ·) s.params step))).filter
            fun cost => cost < s.cost with
          | none => exact counts_reject _ _
          | some cost => exact counts_accept _ _ _ _ _ _

/-- A search has no more passes than it has patience. -/
theorem logs_search (t : Task α) (count size : ℕ) (columns : List (List α)) (patience : ℕ)
    (s : State α) :
    ∃ passes, Logs (t.logging.search t.options count size columns s patience)
        (t.search count size columns s patience) (passes.flatMap passEvents) ∧
      passes.length ≤ patience ∧
      (t.search count size columns s patience).Counts s.iteration
        (s.evaluations + trials passes) := by
  induction patience generalizing s with
  | zero => exact ⟨[], logs_pure _, le_rfl, trivial⟩
  | succ patience ih =>
    obtain ⟨first, hlogs, hlength, hcounts⟩ := logs_attempt t count size columns s
    rw [Task.search, Actions.search]
    cases hattempt : t.attempt count size columns s with
    | settled progress =>
      rw [hattempt] at hlogs hcounts
      exact ⟨first, hlogs.last (logs_pure _), by omega, hcounts⟩
    | rejected s' =>
      rw [hattempt] at hlogs hcounts
      obtain ⟨later, hlogs', hlength', hcounts'⟩ := ih s'
      refine ⟨first ++ later, ?_, ?_, ?_⟩
      · rw [List.flatMap_append]
        exact hlogs.bind hlogs'
      · rw [List.length_append]
        omega
      · have htrials : trials (first ++ later) = trials first + trials later :=
          List.countP_append
        rw [htrials, ← Nat.add_assoc, ← hcounts.1, ← hcounts.2]
        exact hcounts'

/-- The calls of an iteration are those of a round from its point. -/
theorem logs_iterate (t : Task α) (count size patience : ℕ) (s : State α) :
    ∃ passes, Logs (t.logging.iterate t.options count size patience s)
        (t.iterate count size patience s) (Round.mk s.params passes).events ∧
      passes.length ≤ patience ∧
      (t.iterate count size patience s).Counts (s.iteration + 1)
        (s.evaluations + (size + trials passes)) := by
  have hcolumns := logs_differenceColumns t s.params s.residuals
  rw [Task.iterate, Actions.iterate]
  dsimp only
  split
  · rename_i hsmall
    refine ⟨[], hcolumns.bind ?_, Nat.zero_le _, rfl, rfl⟩
    rw [if_pos hsmall]
    exact logs_pure _
  · rename_i hlarge
    cases hscale : rescaled? s.scale (differenceColumns t.residuals s.params s.residuals) with
    | none =>
      refine ⟨[], hcolumns.bind ?_, Nat.zero_le _, trivial⟩
      rw [if_neg hlarge]
      simp only [hscale]
      exact logs_pure _
    | some scale =>
      obtain ⟨passes, hlogs, hlength, hcounts⟩ := logs_search t count size
        (differenceColumns t.residuals s.params s.residuals) patience
        { s with iteration := s.iteration + 1, evaluations := s.evaluations + size, scale := scale }
      refine ⟨passes, hcolumns.bind ?_, hlength, ?_⟩
      · rw [if_neg hlarge]
        simp only [hscale]
        exact hlogs
      · rw [← Nat.add_assoc]
        exact hcounts

/-- The calls of a run are rounds, one for each iteration.  Each round begins in a state that has
whatever the iterations keep. -/
theorem logs_run (t : Task α) (count size patience : ℕ) (Kept : State α → Prop)
    (hkept : ∀ s s', Kept s → t.iterate count size patience s = .taken s' → Kept s') (left : ℕ)
    {s : State α} (hs : Kept s) :
    ∃ rounds : List (Round α), Logs (t.logging.run t.options count size patience s left)
        (t.run count size patience s left) (rounds.flatMap Round.events) ∧
      (∀ round ∈ rounds, (∃ s, Kept s ∧ round.point = s.params) ∧
        round.passes.length ≤ patience) ∧
      rounds.length ≤ left ∧
      ∀ report, t.run count size patience s left = .ok report →
        report.iterations = s.iteration + rounds.length ∧
        report.evaluations =
          s.evaluations + (rounds.map fun round => size + trials round.passes).sum := by
  induction left generalizing s with
  | zero =>
    refine ⟨[], logs_pure _, by simp, le_rfl, fun report hreport => ?_⟩
    rw [Task.run] at hreport
    obtain rfl := Except.ok.inj hreport
    exact ⟨rfl, rfl⟩
  | succ left ih =>
    obtain ⟨passes, hlogs, hlength, hcounts⟩ := logs_iterate t count size patience s
    rw [Task.run, Actions.run]
    have hround : ∀ round ∈ [Round.mk s.params passes],
        (∃ s, Kept s ∧ round.point = s.params) ∧ round.passes.length ≤ patience := by
      intro round hmem
      rw [List.mem_singleton.mp hmem]
      exact ⟨⟨s, hs, rfl⟩, hlength⟩
    cases hiterate : t.iterate count size patience s with
    | ended report =>
      rw [hiterate] at hcounts hlogs
      refine ⟨[⟨s.params, passes⟩], ?_, hround, by simp, fun report' hreport => ?_⟩
      · rw [List.flatMap_singleton]
        exact hlogs.last (logs_pure _)
      · obtain rfl := Except.ok.inj hreport
        exact ⟨hcounts.1, by simpa using hcounts.2⟩
    | failed fault =>
      rw [hiterate] at hlogs
      refine ⟨[⟨s.params, passes⟩], ?_, hround, by simp, fun report' hreport => ?_⟩
      · rw [List.flatMap_singleton]
        exact hlogs.last (logs_pure _)
      · exact absurd hreport (by simp)
    | taken s' =>
      rw [hiterate] at hcounts hlogs
      obtain ⟨rounds, hlogs', hrounds, hleft, hreports⟩ := ih (hkept s s' hs hiterate)
      refine ⟨⟨s.params, passes⟩ :: rounds, ?_, ?_, by simpa using hleft, fun report hreport => ?_⟩
      · rw [List.flatMap_cons]
        exact hlogs.bind hlogs'
      · exact List.forall_mem_cons.mpr ⟨hround _ (List.mem_singleton_self _), hrounds⟩
      · obtain ⟨hiterations, hevaluations⟩ := hreports report hreport
        obtain ⟨hiteration, hevaluated⟩ := hcounts
        rw [List.length_cons, List.map_cons, List.sum_cons]
        dsimp only
        exact ⟨by omega, by omega⟩

/-! ## The calls of a minimisation -/

/-- Is a call one of the residual function? -/
def Event.isEvaluation : Event α → Bool
  | .evaluated _ => true
  | .solved => false

/-- A round calls the residual function for every entry of its point, and for every trial. -/
theorem countP_events (round : Round α) :
    round.events.countP Event.isEvaluation = round.point.length + trials round.passes := by
  have hshifted : ((shiftedPoints round.point).map Event.evaluated).countP Event.isEvaluation =
      round.point.length := by
    have hall : ∀ x ∈ shiftedPoints round.point,
        (Event.isEvaluation ∘ Event.evaluated) x = true := fun _ _ => rfl
    rw [List.countP_map, List.countP_eq_length.mpr hall, shiftedPoints, List.length_map,
      List.length_zipIdx]
  have hpasses : (round.passes.flatMap passEvents).countP Event.isEvaluation =
      trials round.passes := by
    induction round.passes with
    | nil => rfl
    | cons pass rest ih =>
      rw [List.flatMap_cons, List.countP_append, ih, trials, trials, List.countP_cons]
      cases pass with
      | none => rw [passEvents]; simp [Event.isEvaluation]
      | some trial => rw [passEvents]; simp [Event.isEvaluation, Nat.add_comm]
  rw [Round.events, List.countP_append, hshifted, hpasses]

theorem countP_flatMap_events {size : ℕ} {rounds : List (Round α)}
    (h : ∀ round ∈ rounds, round.point.length = size) :
    (rounds.flatMap Round.events).countP Event.isEvaluation =
      (rounds.map fun round => size + trials round.passes).sum := by
  rw [List.countP_flatMap]
  exact congrArg List.sum (List.map_congr_left fun round hround => by
    rw [Function.comp_apply, countP_events, h round hround])

omit [Scalar α] in
/-- The trials of rounds with a limited number of passes. -/
theorem sum_trials_le {rounds : List (Round α)} {patience : ℕ} (size : ℕ)
    (h : ∀ round ∈ rounds, round.passes.length ≤ patience) :
    (rounds.map fun round => size + trials round.passes).sum ≤
      rounds.length * (size + patience) := by
  have hround : ∀ n ∈ rounds.map fun round => size + trials round.passes, n ≤ size + patience := by
    intro n hn
    obtain ⟨round, hround, rfl⟩ := List.mem_map.mp hn
    exact Nat.add_le_add_left (List.countP_le_length.trans (h round hround)) size
  have hsum := List.sum_le_card_nsmul _ _ hround
  rwa [List.length_map, smul_eq_mul] at hsum

/-- A minimisation begins with what holds between iterations. -/
theorem holds_initial {t : Task α} {start : List α} {cost : α}
    (hcost : finiteCost? (t.residuals start) = some cost) :
    Holds t start 0 (t.initial start cost) := by
  rw [finiteCost?] at hcost
  split at hcost
  · rename_i hfinite
    obtain rfl := Option.some.inj hcost
    exact ⟨fits_start hfinite, rfl, List.length_map .., rfl⟩
  · exact absurd hcost (by simp)

/-- **The calls of a minimisation.**  The residual function is called at the start, and then there
is a round of calls for each iteration.  The iterations that a report counts are the rounds, and the
evaluations are one for the start, and for each round one for each parameter and each trial. -/
theorem logs_minimise (t : Task α) {start : List α} (hstart : start ≠ []) (patience : ℕ) :
    ∃ rounds : List (Round α),
      Logs (t.logging.minimise t.options patience start) (t.minimise patience start)
        (.evaluated start :: rounds.flatMap Round.events) ∧
      (∀ round ∈ rounds, round.passes.length ≤ patience) ∧
      rounds.length ≤ t.options.maxIterations ∧
      (t.IsUniform start → t.Answers start →
        ∀ round ∈ rounds, round.point.length = start.length) ∧
      ∀ report, t.minimise patience start = .ok report →
        report.iterations = rounds.length ∧
        report.evaluations =
          1 + (rounds.map fun round => start.length + trials round.passes).sum := by
  have hempty : ¬start.isEmpty = true := by simpa using hstart
  have hevaluate := logs_evaluate t start
  rw [Task.minimise, Actions.minimise, if_neg hempty, if_neg hempty]
  by_cases hnone : (t.residuals start).isEmpty = true
  · refine ⟨[], hevaluate.bind ?_, by simp, Nat.zero_le _, by simp, by simp [hnone]⟩
    rw [if_pos hnone, if_pos hnone]
    exact logs_pure _
  · rw [if_neg hnone]
    cases hcost : finiteCost? (t.residuals start) with
    | none =>
      refine ⟨[], hevaluate.bind ?_, by simp, Nat.zero_le _, by simp, by simp⟩
      rw [if_neg hnone]
      simp only [hcost]
      exact logs_pure _
    | some cost =>
      -- The points have one entry for each parameter if the solver answers so.
      obtain ⟨rounds, hlogs, hrounds, hlength, hreports⟩ :=
        logs_run t (t.residuals start).length start.length patience
          (fun s => t.IsUniform start → t.Answers start → ∃ k, Holds t start k s)
          (fun s s' hs htaken hresiduals hsolve => by
            obtain ⟨k, hk⟩ := hs hresiduals hsolve
            have hnext := keeps_iterate hresiduals hsolve patience hk
            rw [htaken] at hnext
            exact ⟨k + 1, hnext⟩)
          t.options.maxIterations fun _ _ => ⟨0, holds_initial hcost⟩
      refine ⟨rounds, hevaluate.bind ?_, fun round hround => (hrounds round hround).2, hlength,
        fun hresiduals hsolve round hround => ?_, fun report hreport => ?_⟩
      · rw [if_neg hnone]
        simp only [hcost]
        exact hlogs
      · obtain ⟨⟨s, hs, hpoint⟩, -⟩ := hrounds round hround
        obtain ⟨k, hk⟩ := hs hresiduals hsolve
        rw [hpoint, hk.fits.length_eq]
      · obtain ⟨hiterations, hevaluations⟩ := hreports report hreport
        exact ⟨hiterations.trans (Nat.zero_add _), hevaluations⟩

end LevenbergMarquardt

end SphereLab
