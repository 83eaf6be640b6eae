import Mathlib
import SphereLab.LeastSquares.LevenbergMarquardt
import SphereLab.Proofs.Scalar.Marked

/-!
# Minimisation does not make a fit worse

Whatever the residuals are and whatever the solver of the linear problems answers, a minimisation
that returns does not end above its start.  The only thing it has to be promised is shapes: as many
residuals everywhere as at the start, and steps with one entry for each parameter.

`Fits` says what holds of the parameters, their cost and the steps accepted so far at every point of
a minimisation.  Each way in which one problem, one iteration and one run can end keeps it, and the
reports of the six kinds of ends are made from it.

* `exists_dampedRows?`, `exists_dampedTarget?`, `exists_rescaled?`: no index is out of range in a
  problem of the right shape.
* `keeps_attempt`, `keeps_search`, `keeps_iterate`: one problem, and one iteration, keep `Fits`.
* `fits_of_minimise`: on all scalars, what is reported fits, and no index is out of range.
* `minimise_of_le`: a search that does not run out of patience comes to the same with more of it.
* `minimise_descends`: over exact arithmetic, the cost does not rise, and does not stay unless the
  parameters do.
-/

namespace SphereLab

namespace LevenbergMarquardt

variable {α : Type} [Scalar α]

/-! ## Shapes -/

/-- The rows are as many as they should be, and so are the entries of each. -/
def IsMatrix (rows : List (List α)) (height width : ℕ) : Prop :=
  rows.length = height ∧ ∀ row ∈ rows, row.length = width

/-- A list of results exists if every result does. -/
theorem exists_mapM_eq_some {β γ : Type} {f : β → Option γ} {P : γ → Prop} {xs : List β}
    (h : ∀ x ∈ xs, ∃ y, f x = some y ∧ P y) :
    ∃ ys, xs.mapM f = some ys ∧ ys.length = xs.length ∧ ∀ y ∈ ys, P y := by
  induction xs with
  | nil => exact ⟨[], rfl, rfl, fun y hy => absurd hy List.not_mem_nil⟩
  | cons x xs ih =>
    obtain ⟨y, hy, hPy⟩ := h x List.mem_cons_self
    obtain ⟨ys, hys, hlength, hPys⟩ := ih fun z hz => h z (List.mem_cons_of_mem x hz)
    refine ⟨y :: ys, ?_, by rw [List.length_cons, List.length_cons, hlength], ?_⟩
    · rw [List.mapM_cons, hy, hys]
      rfl
    · rintro z (_ | ⟨_, hz⟩)
      · exact hPy
      · exact hPys z hz

theorem isMatrix_differenceColumns (residuals : List α → List α) (x r : List α) :
    IsMatrix (differenceColumns residuals x r) x.length r.length := by
  refine ⟨List.length_mapIdx, fun column hcolumn => ?_⟩
  obtain ⟨j, hj, rfl⟩ := List.mem_mapIdx.mp hcolumn
  exact List.length_mapIdx

section Problem

variable {count size : ℕ} {columns : List (List α)} {scale r : List α}

theorem exists_rescaled? (hcolumns : scale.length ≤ columns.length) :
    ∃ scale', rescaled? scale columns = some scale' ∧ scale'.length = scale.length := by
  have hentry : ∀ entry ∈ scale.zipIdx, ∃ d', (columns[entry.2]?.map fun c =>
      Scalar.maxOf (Scalar.maxOf entry.1 (sumOfSquares c)) 1e-12) = some d' ∧ True := by
    rintro ⟨d, j⟩ hmem
    have hj : j < columns.length := (List.snd_lt_of_mem_zipIdx hmem).trans_le (by omega)
    exact ⟨_, by rw [List.getElem?_eq_getElem hj, Option.map_some], trivial⟩
  obtain ⟨scale', hscale', hlength, _⟩ := exists_mapM_eq_some hentry
  exact ⟨scale', hscale', by rw [hlength, List.length_zipIdx]⟩

theorem exists_dampedRows? (hcolumns : IsMatrix columns size count) (damping : α)
    (hscale : scale.length = size) :
    ∃ rows, dampedRows? count size columns damping scale = some rows ∧
      IsMatrix rows (count + size) size := by
  obtain ⟨hsize, hcount⟩ := hcolumns
  have hrow : ∀ i ∈ List.range count,
      ∃ row, columns.mapM (·[i]?) = some row ∧ row.length = size := by
    intro i hi
    have hentry : ∀ column ∈ columns, ∃ d, column[i]? = some d ∧ True := by
      intro column hmem
      have hi' : i < column.length := by
        rw [hcount column hmem]
        exact List.mem_range.mp hi
      exact ⟨column[i], List.getElem?_eq_getElem hi', trivial⟩
    obtain ⟨row, hrow, hlength, _⟩ := exists_mapM_eq_some hentry
    exact ⟨row, hrow, hlength.trans hsize⟩
  have hdamped : ∀ j ∈ List.range size, ∃ row, (scale[j]?.map fun d =>
      (List.range size).map fun k => if k = j then Scalar.sqrt (damping * d) else 0) = some row ∧
        row.length = size := by
    intro j hj
    have hj' : j < scale.length := by
      rw [hscale]
      exact List.mem_range.mp hj
    exact ⟨_, by rw [List.getElem?_eq_getElem hj', Option.map_some],
      by rw [List.length_map, List.length_range]⟩
  obtain ⟨differences, hdifferences, hheight, hwidth⟩ := exists_mapM_eq_some hrow
  obtain ⟨block, hblock, hheight', hwidth'⟩ := exists_mapM_eq_some hdamped
  have hfill : columns.length = size ∧ columns.all (·.length == count) = true :=
    ⟨hsize, List.all_eq_true.mpr fun c hc => beq_iff_eq.mpr (hcount c hc)⟩
  refine ⟨differences ++ block, ?_, ?_, ?_⟩
  · rw [dampedRows?, guard, if_pos hfill, hdifferences, hblock]
    rfl
  · rw [List.length_append, hheight, hheight', List.length_range, List.length_range]
  · intro row hmem
    rcases List.mem_append.mp hmem with hmem | hmem
    · exact hwidth row hmem
    · exact hwidth' row hmem

theorem exists_dampedTarget? (hr : r.length = count) (size : ℕ) :
    ∃ target, dampedTarget? count size r = some target ∧ target.length = count + size := by
  have hentry : ∀ i ∈ List.range count, ∃ d, r[i]?.map (-·) = some d ∧ True := by
    intro i hi
    have hi' : i < r.length := by
      rw [hr]
      exact List.mem_range.mp hi
    exact ⟨_, by rw [List.getElem?_eq_getElem hi', Option.map_some], trivial⟩
  obtain ⟨opposite, hopposite, hlength, _⟩ := exists_mapM_eq_some hentry
  refine ⟨opposite ++ List.replicate size 0, ?_, ?_⟩
  · rw [dampedTarget?, hopposite]
    rfl
  · rw [List.length_append, hlength, List.length_range, List.length_replicate]

end Problem

/-! ## What a minimisation keeps -/

/-- The sums of squares on the way, from the start on. -/
def costs (t : Task α) (start : List α) (accepted : List (Accepted α)) : List α :=
  sumOfSquares (t.residuals start) :: accepted.map (·.cost)

/-- Parameters that the accepted steps have led to, and their sum of squares. -/
structure Fits (t : Task α) (start params : List α) (cost : α) (accepted : List (Accepted α)) :
    Prop where
  length_eq : params.length = start.length
  finite : (t.residuals params).all Scalar.isFinite = true
  cost_eq : cost = sumOfSquares (t.residuals params)
  decreasing : (costs t start accepted).IsChain fun before after => after < before
  last_eq : (costs t start accepted).getLast? = some cost
  params_eq : accepted = [] → params = start

/-- What holds between the problems of an iteration. -/
structure Holds (t : Task α) (start : List α) (iteration : ℕ) (s : State α) : Prop where
  fits : Fits t start s.params s.cost s.accepted
  residuals_eq : s.residuals = t.residuals s.params
  scale_length : s.scale.length = start.length
  iteration_eq : s.iteration = iteration

/-- There are as many residuals everywhere as at the start. -/
def Task.IsUniform (t : Task α) (start : List α) : Prop :=
  ∀ x : List α, x.length = start.length → (t.residuals x).length = (t.residuals start).length

/-- Where the solver finds a step for a problem of the right shape, the step has one entry for each
parameter. -/
def Task.Answers (t : Task α) (start : List α) : Prop :=
  ∀ asked rows target step,
    IsMatrix rows ((t.residuals start).length + start.length) start.length →
      target.length = (t.residuals start).length + start.length →
        t.solve asked rows target = some step → step.length = start.length

variable {t : Task α} {start params : List α} {cost : α} {accepted : List (Accepted α)}
  {iteration : ℕ} {s : State α}

/-- A minimisation begins with parameters that fit. -/
theorem fits_start (hfinite : (t.residuals start).all Scalar.isFinite = true) :
    Fits t start start (sumOfSquares (t.residuals start)) [] :=
  ⟨rfl, hfinite, rfl, List.isChain_singleton _, rfl, fun _ => rfl⟩

/-- A step that makes the sum of squares smaller can be taken. -/
theorem Fits.taken (h : Fits t start params cost accepted) {trial : List α} {cost' : α}
    (hlength : trial.length = start.length)
    (hcost : finiteCost? (t.residuals trial) = some cost') (hless : cost' < cost)
    (iteration : ℕ) (damping : α) :
    Fits t start trial cost' (accepted ++ [⟨iteration, cost', damping⟩]) := by
  have hcosts : costs t start (accepted ++ [⟨iteration, cost', damping⟩]) =
      costs t start accepted ++ [cost'] := by
    rw [costs, List.map_append, ← List.cons_append]
    rfl
  rw [finiteCost?] at hcost
  split at hcost
  · rename_i hfinite
    refine ⟨hlength, hfinite, (Option.some.inj hcost).symm, ?_, ?_, ?_⟩
    · rw [hcosts, List.isChain_append]
      refine ⟨h.decreasing, List.isChain_singleton _, fun before hbefore after hafter => ?_⟩
      rw [h.last_eq, Option.mem_some_iff] at hbefore
      rw [List.head?_cons, Option.mem_some_iff] at hafter
      rw [← hbefore, ← hafter]
      exact hless
    · rw [hcosts, List.getLast?_concat]
    · exact fun hnil => absurd hnil (List.append_ne_nil_of_right_ne_nil _ (List.cons_ne_nil _ _))
  · exact absurd hcost (by simp)

/-- What an iteration comes to if nothing goes wrong. -/
def Progress.Keeps (t : Task α) (start : List α) (iteration : ℕ) : Progress α → Prop
  | .ended report =>
    Fits t start report.params report.cost report.accepted ∧ report.iterations = iteration
  | .failed fault => fault ≠ .outOfRange
  | .taken s => Holds t start iteration s

/-- What one problem comes to if nothing goes wrong. -/
def Attempt.Keeps (t : Task α) (start : List α) (iteration : ℕ) : Attempt α → Prop
  | .settled progress => progress.Keeps t start iteration
  | .rejected s => Holds t start iteration s

theorem keeps_reject (h : Holds t start iteration s) (outcome : Outcome) :
    (reject s outcome).Keeps t start iteration := by
  rw [reject]
  dsimp only
  split
  · exact ⟨h.fits, h.iteration_eq⟩
  · exact ⟨h.fits, h.residuals_eq, h.scale_length, h.iteration_eq⟩

theorem keeps_accept (h : Holds t start iteration s) {step trial : List α} {cost' : α}
    (hlength : trial.length = start.length)
    (hcost : finiteCost? (t.residuals trial) = some cost') (hless : cost' < s.cost) :
    (accept t.options s step trial (t.residuals trial) cost').Keeps t start iteration := by
  have hfits := h.fits.taken hlength hcost hless s.iteration
  rw [accept]
  split
  · exact ⟨hfits _, h.iteration_eq⟩
  · split
    · exact ⟨hfits _, h.iteration_eq⟩
    · exact ⟨hfits _, rfl, h.scale_length, h.iteration_eq⟩

section Task

variable (hresiduals : t.IsUniform start) (hsolve : t.Answers start)
include hresiduals hsolve

/-- One damped problem has no index out of range, and what comes of it fits. -/
theorem keeps_attempt {columns : List (List α)}
    (hcolumns : IsMatrix columns start.length (t.residuals start).length)
    (h : Holds t start iteration s) :
    (t.attempt (t.residuals start).length start.length columns s).Keeps t start iteration := by
  have hcount : s.residuals.length = (t.residuals start).length := by
    rw [h.residuals_eq, hresiduals _ h.fits.length_eq]
  obtain ⟨rows, hrows, hmatrix⟩ := exists_dampedRows? hcolumns s.damping h.scale_length
  obtain ⟨target, htarget, hheight⟩ := exists_dampedTarget? hcount start.length
  have hasked : Holds t start iteration { s with solved := s.solved + 1 } :=
    ⟨h.fits, h.residuals_eq, h.scale_length, h.iteration_eq⟩
  rw [Task.attempt, hrows, htarget]
  dsimp only
  split
  · exact keeps_reject hasked _
  · rename_i step hstep
    have htrial : (List.zipWith (· + ·) s.params step).length = start.length := by
      rw [List.length_zipWith, h.fits.length_eq,
        hsolve s.solved rows target step hmatrix hheight hstep, Nat.min_self]
    have htried : Holds t start iteration
        { s with solved := s.solved + 1, evaluations := s.evaluations + 1 } :=
      ⟨h.fits, h.residuals_eq, h.scale_length, h.iteration_eq⟩
    split
    · rename_i cost' hcost
      rw [Option.filter_eq_some_iff, decide_eq_true_eq] at hcost
      exact keeps_accept htried htrial hcost.1 hcost.2
    · exact keeps_reject htried _

/-- The problems of one step have no index out of range, and what comes of them fits. -/
theorem keeps_search {columns : List (List α)}
    (hcolumns : IsMatrix columns start.length (t.residuals start).length) (patience : ℕ)
    (h : Holds t start iteration s) :
    (t.search (t.residuals start).length start.length columns s patience).Keeps
      t start iteration := by
  induction patience generalizing s with
  | zero => exact fun h => Fault.noConfusion h
  | succ patience ih =>
    have hattempt := keeps_attempt hresiduals hsolve hcolumns h
    rw [Task.search]
    split
    · rename_i progress hsettled
      rwa [hsettled] at hattempt
    · rename_i s' hrejected
      rw [hrejected] at hattempt
      exact ih hattempt

/-- An iteration has no index out of range, and what comes of it fits. -/
theorem keeps_iterate (patience : ℕ) (h : Holds t start iteration s) :
    (t.iterate (t.residuals start).length start.length patience s).Keeps t start
      (iteration + 1) := by
  have hcolumns := isMatrix_differenceColumns t.residuals s.params s.residuals
  rw [h.fits.length_eq, h.residuals_eq, hresiduals _ h.fits.length_eq] at hcolumns
  rw [Task.iterate]
  dsimp only
  split
  · exact ⟨h.fits, congrArg (· + 1) h.iteration_eq⟩
  · rw [h.residuals_eq]
    have hscales : s.scale.length ≤
        (differenceColumns t.residuals s.params (t.residuals s.params)).length := by
      rw [h.scale_length, hcolumns.1]
    obtain ⟨scale, hscale, hlength⟩ := exists_rescaled? hscales
    rw [hscale]
    exact keeps_search hresiduals hsolve hcolumns patience
      ⟨h.fits, rfl, hlength.trans h.scale_length, congrArg (· + 1) h.iteration_eq⟩

/-- A run has no index out of range, and what it reports fits. -/
theorem fits_of_run {k : ℕ} (patience : ℕ) (h : Holds t start k s) (left : ℕ) :
    t.run (t.residuals start).length start.length patience s left ≠ .error .outOfRange ∧
      ∀ report, t.run (t.residuals start).length start.length patience s left = .ok report →
        Fits t start report.params report.cost report.accepted ∧ report.iterations ≤ k + left := by
  induction left generalizing s k with
  | zero =>
    rw [Task.run]
    refine ⟨by simp, fun report hreport => ?_⟩
    cases hreport
    exact ⟨h.fits, h.iteration_eq.le⟩
  | succ left ih =>
    have hiterate := keeps_iterate hresiduals hsolve patience h
    rw [Task.run]
    split
    · rename_i report' hended
      rw [hended] at hiterate
      refine ⟨by simp, fun report hreport => ?_⟩
      cases hreport
      exact ⟨hiterate.1, by rw [hiterate.2]; omega⟩
    · rename_i fault hfailed
      rw [hfailed] at hiterate
      exact ⟨fun hfault => hiterate (Except.error.inj hfault), fun report hreport =>
        absurd hreport (by simp)⟩
    · rename_i s' htaken
      rw [htaken] at hiterate
      obtain ⟨hrange, hfits⟩ := ih hiterate
      refine ⟨hrange, fun report hreport => ?_⟩
      obtain ⟨hreported, hiterations⟩ := hfits report hreport
      exact ⟨hreported, by omega⟩

/-- On all scalars, no index is out of range in a minimisation, and what it reports fits. -/
theorem fits_of_minimise (patience : ℕ) :
    t.minimise patience start ≠ .error .outOfRange ∧
      ∀ report, t.minimise patience start = .ok report →
        Fits t start report.params report.cost report.accepted ∧
          report.iterations ≤ t.options.maxIterations := by
  rw [Task.minimise]
  split
  · exact ⟨by simp, by simp⟩
  · split
    · exact ⟨by simp, by simp⟩
    · split
      · exact ⟨by simp, by simp⟩
      · rename_i cost hcost
        rw [finiteCost?] at hcost
        split at hcost
        · rename_i hfinite
          cases hcost
          have hinitial :
              Holds t start 0 (t.initial start (sumOfSquares (t.residuals start))) :=
            ⟨fits_start hfinite, rfl, List.length_map .., rfl⟩
          obtain ⟨hrange, hfits⟩ :=
            fits_of_run hresiduals hsolve patience hinitial t.options.maxIterations
          exact ⟨hrange, fun report hreport => by simpa using hfits report hreport⟩
        · exact absurd hcost (by simp)

end Task

/-! ## Patience -/

section Patience

variable {count size patience more : ℕ} {columns : List (List α)}

theorem search_of_le (hle : patience ≤ more)
    (h : t.search count size columns s patience ≠ .failed .endlessDamping) :
    t.search count size columns s more = t.search count size columns s patience := by
  induction patience generalizing s more with
  | zero => exact absurd rfl h
  | succ patience ih =>
    obtain ⟨more, rfl⟩ : ∃ k, more = k + 1 := ⟨more - 1, by omega⟩
    rw [Task.search] at h
    rw [Task.search, Task.search]
    cases hattempt : t.attempt count size columns s with
    | settled progress => rfl
    | rejected s' =>
      rw [hattempt] at h
      exact ih (by omega) h

theorem iterate_of_le (hle : patience ≤ more)
    (h : t.iterate count size patience s ≠ .failed .endlessDamping) :
    t.iterate count size more s = t.iterate count size patience s := by
  rw [Task.iterate] at h ⊢
  rw [Task.iterate]
  dsimp only at h ⊢
  split at h
  · rename_i hsmall
    rw [if_pos hsmall, if_pos hsmall]
  · rename_i hlarge
    rw [if_neg hlarge, if_neg hlarge]
    cases hscale : rescaled? s.scale (differenceColumns t.residuals s.params s.residuals) with
    | none => rfl
    | some scale =>
      rw [hscale] at h
      exact search_of_le hle h

theorem run_of_le (hle : patience ≤ more) (left : ℕ)
    (h : t.run count size patience s left ≠ .error .endlessDamping) :
    t.run count size more s left = t.run count size patience s left := by
  induction left generalizing s with
  | zero => rfl
  | succ left ih =>
    rw [Task.run] at h
    have hiterate : t.iterate count size patience s ≠ .failed .endlessDamping := by
      intro hfailed
      rw [hfailed] at h
      exact h rfl
    rw [Task.run, Task.run, iterate_of_le hle hiterate]
    cases hprogress : t.iterate count size patience s with
    | ended report => rfl
    | failed fault => rfl
    | taken s' =>
      rw [hprogress] at h
      exact ih h

/-- **Patience does not matter.**  A minimisation that does not run out of patience comes to the
same with more of it. -/
theorem minimise_of_le (hle : patience ≤ more) (start : List α)
    (h : t.minimise patience start ≠ .error .endlessDamping) :
    t.minimise more start = t.minimise patience start := by
  rw [Task.minimise] at h ⊢
  rw [Task.minimise]
  split at h
  · rename_i hempty
    rw [if_pos hempty, if_pos hempty]
  · rename_i hparams
    rw [if_neg hparams, if_neg hparams]
    split at h
    · rename_i hempty
      rw [if_pos hempty, if_pos hempty]
    · rename_i hresiduals
      rw [if_neg hresiduals, if_neg hresiduals]
      cases hcost : finiteCost? (t.residuals start) with
      | none => rfl
      | some cost =>
        rw [hcost] at h
        exact run_of_le hle _ h

end Patience

/-! ## Over exact arithmetic -/

section Exact

variable {K : Type} [ExactScalar K]

/-- Finite residuals have a sum of squares. -/
theorem exists_sumOfSquares_eq {r : List (Marked K)} (hfinite : r.all Scalar.isFinite = true) :
    ∃ c, sumOfSquares r = .number c := by
  obtain ⟨xs, rfl⟩ := Marked.exists_eq_map_number (List.all_eq_true.mp hfinite)
  refine ⟨(xs.map fun x => x * x).sum, ?_⟩
  rw [sumOfSquares, ← Marked.total_number, List.map_map, List.map_map]
  rfl

variable {t : Task (Marked K)} {start params : List (Marked K)} {cost : Marked K}
  {accepted : List (Accepted (Marked K))}

theorem Fits.pairwise (h : Fits t start params cost accepted) :
    (costs t start accepted).Pairwise fun before after => after < before := by
  have htrans : IsTrans (Marked K) fun before after => after < before :=
    ⟨fun _ _ _ hxy hyz => Marked.lt_trans hyz hxy⟩
  exact List.isChain_iff_pairwise.mp h.decreasing

/-- Once a step has been accepted, the sum of squares is less than at the start. -/
theorem Fits.cost_lt (h : Fits t start params cost accepted) (hne : accepted ≠ []) :
    cost < sumOfSquares (t.residuals start) := by
  have hpairwise := h.pairwise
  have hlast := h.last_eq
  rw [costs, List.pairwise_cons] at hpairwise
  obtain ⟨last, hlast'⟩ : ∃ last, (accepted.map (·.cost)).getLast? = some last :=
    Option.ne_none_iff_exists'.mp (by simpa [List.getLast?_eq_none_iff] using hne)
  rw [costs, List.getLast?_cons, hlast', Option.getD_some, Option.some.injEq] at hlast
  exact hpairwise.1 cost (hlast ▸ List.mem_of_getLast? hlast')

/-- The sum of squares is at most the one at the start, and equal only at the start. -/
theorem Fits.cost_le (h : Fits t start params cost accepted) :
    cost ≤ sumOfSquares (t.residuals start) ∧
      (cost = sumOfSquares (t.residuals start) → params = start) := by
  by_cases hnil : accepted = []
  · have hparams := h.params_eq hnil
    have hfinite := h.finite
    rw [h.cost_eq, hparams]
    rw [hparams] at hfinite
    obtain ⟨c, hc⟩ := exists_sumOfSquares_eq hfinite
    rw [hc]
    exact ⟨(Marked.number_le c c).mpr le_rfl, fun _ => rfl⟩
  · have hless := h.cost_lt hnil
    exact ⟨Marked.le_of_lt hless, fun heq => absurd (heq ▸ hless) (Marked.lt_irrefl cost)⟩

/-- **Levenberg's and Marquardt's method descends.**  For all residuals of a uniform number, all
options, all starts and all answers of the solver, no index is out of range, and a report gives
parameters with finite residuals and their sum of squares, which the accepted steps have lowered
one after the other, and which is the one at the start only if the parameters are. -/
theorem minimise_descends (t : Task (Marked K)) (patience : ℕ) (start : List (Marked K))
    (hresiduals : t.IsUniform start) (hsolve : t.Answers start) :
    t.minimise patience start ≠ .error .outOfRange ∧
      ∀ report, t.minimise patience start = .ok report →
        report.params.length = start.length ∧
        (t.residuals report.params).all Scalar.isFinite = true ∧
        report.cost = sumOfSquares (t.residuals report.params) ∧
        report.cost ≤ sumOfSquares (t.residuals start) ∧
        (report.cost = sumOfSquares (t.residuals start) → report.params = start) ∧
        report.iterations ≤ t.options.maxIterations ∧
        (costs t start report.accepted).Pairwise (fun before after => after < before) ∧
        (costs t start report.accepted).getLast? = some report.cost := by
  obtain ⟨hrange, hreports⟩ := fits_of_minimise hresiduals hsolve patience
  refine ⟨hrange, fun report hreport => ?_⟩
  obtain ⟨hfits, hiterations⟩ := hreports report hreport
  obtain ⟨hle, heq⟩ := hfits.cost_le
  exact ⟨hfits.length_eq, hfits.finite, hfits.cost_eq, hle, heq, hiterations, hfits.pairwise,
    hfits.last_eq⟩

end Exact

/-! ## A minimisation with a solver that has no answer at first -/

open Marked

/-- Bring a number to one. -/
noncomputable def towardOne : Task (Marked ℝ) where
  residuals x := x.map (· - 1)
  solve asked _ _ := if asked = 0 then none else some [1]
  options := { Options.standard with maxIterations := 1 }

theorem isUniform_towardOne : towardOne.IsUniform [number 0] := by
  intro x hx
  rw [towardOne, List.length_map, List.length_map, hx]

theorem answers_towardOne : towardOne.Answers [number 0] := by
  intro asked rows target step _ _ hstep
  rw [towardOne] at hstep
  dsimp only at hstep
  split at hstep
  · exact absurd hstep (by simp)
  · cases hstep
    rfl

theorem residuals_towardOne (x : ℝ) : towardOne.residuals [number x] = [number (x - 1)] := rfl

theorem finiteCost?_singleton (x : ℝ) : finiteCost? [number x] = some (number (x * x)) := by
  simp [finiteCost?, sumOfSquares, Scalar.total]

/-- The differences are exact, since the residual is linear. -/
theorem differenceColumns_towardOne :
    differenceColumns towardOne.residuals [number 0] [number (0 - 1)] = [[number 1]] := by
  simp [differenceColumns, differenceColumn, towardOne, shiftAt, differenceStep, Scalar.maxOf,
    ofScientific_eq_number, number_div, ExactScalar.abs_eq_abs]
  norm_num

/-- The first problem is rejected for want of an answer, and the step of the second is taken. -/
theorem search_towardOne (s : State (Marked ℝ)) (hparams : s.params = [number 0])
    (hresiduals : s.residuals = [number (0 - 1)]) (hcost : s.cost = number 1)
    (hdamping : s.damping = 1e-3) (hscale : s.scale.length = 1) (hsolved : s.solved = 0) :
    ∃ s', towardOne.search 1 1 [[number 1]] s 2 =
      accept towardOne.options s' [1] [number (0 + 1)] [number (0 + 1 - 1)] (number 0) := by
  have hcolumns : IsMatrix [[number (1 : ℝ)]] 1 1 := ⟨rfl, by simp⟩
  have hlength : s.residuals.length = 1 := by rw [hresiduals]; rfl
  obtain ⟨target, htarget, -⟩ := exists_dampedTarget? hlength 1
  have hreject : towardOne.attempt 1 1 [[number 1]] s =
      .rejected { s with damping := s.damping * 10.0, solved := 1 } := by
    have hlimit : ¬ 1e16 < s.damping * 10.0 := by
      norm_num [hdamping, ofScientific_eq_number]
    obtain ⟨rows, hrows, -⟩ := exists_dampedRows? hcolumns s.damping hscale
    rw [Task.attempt, hrows, htarget, hsolved]
    dsimp only [towardOne]
    rw [if_pos rfl, reject, if_neg hlimit]
  obtain ⟨rows, hrows, -⟩ := exists_dampedRows? hcolumns (s.damping * 10.0) hscale
  rw [Task.search, hreject]
  dsimp only
  rw [Task.search, Task.attempt]
  dsimp only
  rw [hrows, htarget]
  dsimp only [towardOne]
  rw [if_neg one_ne_zero]
  have htrial : List.zipWith (· + ·) s.params [1] = [number (0 + 1 : ℝ)] := by
    rw [hparams]
    rfl
  have hless : (finiteCost? [number (0 + 1 - 1 : ℝ)]).filter (fun cost => cost < s.cost) =
      some (number 0) := by
    rw [finiteCost?_singleton, hcost]
    simp
  dsimp only
  rw [htrial]
  simp only [List.map_cons, List.map_nil, one_eq, number_sub, hless]
  exact ⟨_, rfl⟩

theorem exists_report_towardOne :
    ∃ report, towardOne.minimise 2 [number 0] = .ok report ∧ report.params = [number 1] := by
  have hgradient : inner [number (1 : ℝ)] [number (0 - 1)] = number (-1) := by
    simp [inner, Scalar.total]
  have hlarge : ¬ Scalar.maxOf (number 0) (Scalar.abs (number (-1 : ℝ))) ≤
      towardOne.options.gradientTolerance := by
    have habs : Scalar.abs (-1 : ℝ) = 1 := by simp [ExactScalar.abs_eq_abs]
    have hmax : Scalar.maxOf (number 0) (number (1 : ℝ)) = number 1 := by simp [Scalar.maxOf]
    rw [abs_number, habs, hmax]
    exact fun h => absurd ((number_le _ _).mp h) (by norm_num)
  have hone : [number (0 : ℝ)].length ≤ [[number (1 : ℝ)]].length := le_rfl
  obtain ⟨scale, hscale, hlength⟩ := exists_rescaled? hone
  obtain ⟨s', hsearch⟩ := search_towardOne
    ⟨[number 0], [number (0 - 1)], number ((0 - 1) * (0 - 1)), towardOne.options.initialDamping,
      scale, 1, 2, 0, []⟩ rfl rfl (by simp) rfl hlength rfl
  have hiterate : towardOne.iterate 1 1 2
      (towardOne.initial [number 0] (number ((0 - 1) * (0 - 1)))) =
        accept towardOne.options s' [1] [number (0 + 1)] [number (0 + 1 - 1)] (number 0) := by
    rw [Task.iterate]
    simp only [Task.initial, zero_eq, residuals_towardOne, differenceColumns_towardOne,
      List.map_cons, List.map_nil, hgradient]
    rw [List.foldl_cons, List.foldl_nil, if_neg hlarge, hscale]
    exact hsearch
  rw [Task.minimise, residuals_towardOne, finiteCost?_singleton]
  simp only [List.isEmpty_cons, Bool.false_eq_true, if_false, List.length_singleton]
  rw [show towardOne.options.maxIterations = 0 + 1 from rfl, Task.run, hiterate, accept, zero_add]
  split_ifs <;> exact ⟨_, rfl, rfl⟩

/-- A single step that is accepted at the second attempt. -/
theorem minimise_descends_towardOne :
    towardOne.IsUniform [number 0] ∧ towardOne.Answers [number 0] ∧
      towardOne.minimise 2 [number 0] ≠ .error .outOfRange ∧
      ∃ report, towardOne.minimise 2 [number 0] = .ok report ∧ report.params = [number 1] ∧
        report.cost = sumOfSquares (towardOne.residuals [number 1]) ∧
        report.cost ≤ sumOfSquares (towardOne.residuals [number 0]) ∧
        report.cost ≠ sumOfSquares (towardOne.residuals [number 0]) ∧
        report.iterations ≤ 1 ∧
        (costs towardOne [number 0] report.accepted).Pairwise
          fun before after => after < before := by
  obtain ⟨hrange, hreports⟩ :=
    minimise_descends towardOne 2 [number 0] isUniform_towardOne answers_towardOne
  obtain ⟨report, hreport, hparams⟩ := exists_report_towardOne
  obtain ⟨-, -, hcost, hle, heq, hiterations, hdecreasing, -⟩ := hreports report hreport
  refine ⟨isUniform_towardOne, answers_towardOne, hrange, report, hreport, hparams,
    hparams ▸ hcost, hle, fun h => ?_, hiterations, hdecreasing⟩
  have hstay := heq h
  rw [hparams, List.cons.injEq, number.injEq] at hstay
  exact one_ne_zero hstay.1

end LevenbergMarquardt

end SphereLab
