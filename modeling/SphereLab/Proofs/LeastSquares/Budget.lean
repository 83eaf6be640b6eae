import Mathlib
import SphereLab.Proofs.LeastSquares.Calls

/-!
# How long a minimisation can take

The problems of an iteration have no counter.  They end because every one that gives no step
multiplies the damping by ten, up to a limit of `10 ^ 16`; and since the damping never falls below
`10 ^ -12`, where it is held when steps are accepted, there can be no more than twenty-nine of them
before it is past the limit.  So the whole minimisation has a budget: for each iteration, one
evaluation for each parameter and at most twenty-nine for the trials.

* `Progress.Floored`: no iteration is given up, and after it the damping is not below its floor.
* `floored_search`: twenty-nine problems are enough from a damping that is not below the floor.
* `eq_outOfRange_of_minimise`: how a minimisation that has started can fail.
* `exists_minimise_eq_ok`: when there is a report.
* `minimise_within_budget`: patience for twenty-nine problems is enough, and what is called is
  within the budget and counted exactly.
-/

namespace SphereLab

namespace LevenbergMarquardt

open Marked

variable {K : Type} [ExactScalar K] {t : Task (Marked K)} {count size : ℕ}
  {columns : List (List (Marked K))} {s : State (Marked K)}

/-! ## The damping -/

/-- A damping that is not below the floor. -/
def AboveFloor (damping : Marked K) : Prop := 1e-12 ≤ damping

theorem literal_floor : (1e-12 : Marked K) = number ((10 : K) ^ (-12 : ℤ)) := by
  rw [ofScientific_eq_number]
  norm_num

theorem literal_limit : (1e16 : Marked K) = number ((10 : K) ^ 16) := by
  rw [ofScientific_eq_number]
  norm_num

theorem literal_ten : (10.0 : Marked K) = number (10 : K) := by
  rw [ofScientific_eq_number]
  norm_num

/-- What is not below the floor is a number. -/
theorem aboveFloor_iff {damping : Marked K} :
    AboveFloor damping ↔ ∃ l, damping = number l ∧ (10 : K) ^ (-12 : ℤ) ≤ l := by
  rw [AboveFloor, literal_floor]
  constructor
  · intro h
    cases damping with
    | number l => exact ⟨l, rfl, h⟩
    | undefined => exact h.elim
  · rintro ⟨l, rfl, hl⟩
    exact hl

/-- The larger of anything and the floor is not below the floor. -/
theorem aboveFloor_maxOf (damping : Marked K) : AboveFloor (Scalar.maxOf damping 1e-12) := by
  rw [aboveFloor_iff, literal_floor]
  cases damping with
  | undefined => exact ⟨_, rfl, le_rfl⟩
  | number l => exact ⟨_, maxOf_number l _, le_max_right _ _⟩

/-- The damping of the standard options is not below the floor. -/
theorem aboveFloor_standard :
    AboveFloor (Options.standard : Options (Marked K)).initialDamping := by
  have hinitial : (Options.standard : Options (Marked K)).initialDamping = 1e-3 := rfl
  rw [AboveFloor, hinitial, ofScientific_eq_number, ofScientific_eq_number, number_le, Rat.cast_le]
  norm_num

/-! ## One problem -/

/-- An iteration that is not given up: it ends the search, or the damping after it is not below the
floor. -/
def Progress.Floored : Progress (Marked K) → Prop
  | .ended _ => True
  | .failed fault => fault = .outOfRange
  | .taken s => AboveFloor s.damping

/-- A problem that is settled in this way, or rejected with ten times the damping, up to the
limit. -/
def Attempt.Floored (damping : Marked K) : Attempt (Marked K) → Prop
  | .settled progress => progress.Floored
  | .rejected s => s.damping = damping * 10.0 ∧ ¬1e16 < damping * 10.0

theorem floored_accept (options : Options (Marked K)) (s : State (Marked K))
    (step trial r : List (Marked K)) (cost : Marked K) :
    (accept options s step trial r cost).Floored := by
  rw [accept]
  split
  · trivial
  · split
    · trivial
    · exact aboveFloor_maxOf _

theorem floored_reject (s : State (Marked K)) (outcome : Outcome) :
    (reject s outcome).Floored s.damping := by
  rw [reject]
  dsimp only
  split
  · trivial
  · rename_i hlimit
    exact ⟨rfl, hlimit⟩

theorem floored_attempt (t : Task (Marked K)) (count size : ℕ) (columns : List (List (Marked K)))
    (s : State (Marked K)) : (t.attempt count size columns s).Floored s.damping := by
  rw [Task.attempt]
  split
  · dsimp only
    split
    · exact floored_reject _ _
    · split
      · exact floored_accept _ _ _ _ _ _
      · exact floored_reject _ _
  · rfl

/-! ## The problems of an iteration -/

/-- As many problems are enough as it takes to carry the damping past the limit. -/
theorem floored_search {l : K} (patience : ℕ) (hdamping : s.damping = number l)
    (hpast : 10 ^ 16 < l * 10 ^ (patience + 1)) :
    (t.search count size columns s (patience + 1)).Floored := by
  induction patience generalizing s l with
  | zero =>
    have hattempt := floored_attempt t count size columns s
    rw [Task.search]
    cases hresult : t.attempt count size columns s with
    | settled progress =>
      rw [hresult] at hattempt
      exact hattempt
    | rejected s' =>
      rw [hresult, hdamping] at hattempt
      refine absurd ?_ hattempt.2
      rw [literal_limit, literal_ten, number_mul, number_lt]
      simpa using hpast
  | succ patience ih =>
    have hattempt := floored_attempt t count size columns s
    rw [Task.search]
    cases hresult : t.attempt count size columns s with
    | settled progress =>
      rw [hresult] at hattempt
      exact hattempt
    | rejected s' =>
      rw [hresult, hdamping] at hattempt
      obtain ⟨hmore, -⟩ := hattempt
      rw [literal_ten, number_mul] at hmore
      refine ih hmore ?_
      rwa [mul_assoc, ← pow_succ']

/-- From the floor on, twenty-nine problems carry the damping past the limit. -/
theorem past_limit {l : K} (hl : (10 : K) ^ (-12 : ℤ) ≤ l) : 10 ^ 16 < l * 10 ^ 29 := by
  have hfloor : (10 : K) ^ (-12 : ℤ) * 10 ^ 29 = 10 ^ 17 := by
    rw [← zpow_natCast, ← zpow_natCast, ← zpow_add₀ (by norm_num)]
    norm_num
  have hscaled : (10 : K) ^ 17 ≤ l * 10 ^ 29 := by
    rw [← hfloor]
    exact mul_le_mul_of_nonneg_right hl (by positivity)
  exact lt_of_lt_of_le (by norm_num) hscaled

theorem floored_iterate (t : Task (Marked K)) (count size : ℕ)
    (hdamping : AboveFloor s.damping) : (t.iterate count size 29 s).Floored := by
  obtain ⟨l, hl, hfloor⟩ := aboveFloor_iff.mp hdamping
  rw [Task.iterate]
  dsimp only
  split
  · trivial
  · split
    · rfl
    · exact floored_search 28 hl (past_limit hfloor)

/-! ## The whole minimisation -/

theorem eq_outOfRange_of_run (hdamping : AboveFloor s.damping) {left : ℕ} {fault : Fault}
    (h : t.run count size 29 s left = .error fault) : fault = .outOfRange := by
  induction left generalizing s with
  | zero => exact absurd h (by simp [Task.run])
  | succ left ih =>
    have hiterate := floored_iterate t count size hdamping
    rw [Task.run] at h
    split at h
    · exact absurd h (by simp)
    · rename_i fault' hfailed
      rw [hfailed] at hiterate
      obtain rfl := Except.error.inj h
      exact hiterate
    · rename_i s' htaken
      rw [htaken] at hiterate
      exact ih hiterate h

/-- A minimisation that has started fails only for an index out of range. -/
theorem eq_outOfRange_of_minimise {start : List (Marked K)} {fault : Fault}
    (hdamping : AboveFloor t.options.initialDamping) (h : t.minimise 29 start = .error fault) :
    start = [] ∧ fault = .noParameters ∨
      t.residuals start = [] ∧ fault = .noResiduals ∨
      (t.residuals start).all Scalar.isFinite = false ∧ fault = .notFinite ∨
      fault = .outOfRange := by
  rw [Task.minimise] at h
  split at h
  · rename_i hempty
    exact Or.inl ⟨List.isEmpty_iff.mp hempty, (Except.error.inj h).symm⟩
  · split at h
    · rename_i hempty
      exact Or.inr (Or.inl ⟨List.isEmpty_iff.mp hempty, (Except.error.inj h).symm⟩)
    · split at h
      · rename_i hcost
        rw [finiteCost?] at hcost
        split at hcost
        · exact absurd hcost (by simp)
        · rename_i hinfinite
          exact Or.inr (Or.inr (Or.inl
            ⟨Bool.not_eq_true _ ▸ hinfinite, (Except.error.inj h).symm⟩))
      · exact Or.inr (Or.inr (Or.inr (eq_outOfRange_of_run hdamping h)))

/-- With patience for twenty-nine problems the damping is never given up. -/
theorem minimise_ne_endlessDamping (hdamping : AboveFloor t.options.initialDamping)
    (start : List (Marked K)) : t.minimise 29 start ≠ .error .endlessDamping := by
  intro hfault
  rcases eq_outOfRange_of_minimise hdamping hfault with ⟨-, h⟩ | ⟨-, h⟩ | ⟨-, h⟩ | h
  all_goals exact absurd h (by decide)

/-- There is a report wherever the residuals at the start are finite, if the problems have the right
shape. -/
theorem exists_minimise_eq_ok {start : List (Marked K)} (hresiduals : t.IsUniform start)
    (hsolve : t.Answers start) (hdamping : AboveFloor t.options.initialDamping)
    (hstart : start ≠ []) {patience : ℕ} (hpatience : 29 ≤ patience)
    (hsome : t.residuals start ≠ [])
    (hfinite : (t.residuals start).all Scalar.isFinite = true) :
    ∃ report, t.minimise patience start = .ok report := by
  rw [minimise_of_le hpatience start (minimise_ne_endlessDamping hdamping start)]
  obtain ⟨hrange, -⟩ := fits_of_minimise hresiduals hsolve 29
  cases hminimise : t.minimise 29 start with
  | ok report => exact ⟨report, rfl⟩
  | error fault =>
    rcases eq_outOfRange_of_minimise hdamping hminimise with ⟨h, -⟩ | ⟨h, -⟩ | ⟨h, -⟩ | h
    · exact absurd h hstart
    · exact absurd h hsome
    · exact absurd (h.symm.trans hfinite) (by simp)
    · exact absurd (h ▸ hminimise) hrange

/-- **Levenberg's and Marquardt's method ends within a budget.**  Over exact arithmetic, from a
damping that is not below the floor, more patience than for twenty-nine problems in an iteration
makes no difference, and the damping is never given up.  The residual function is called at the
start, and in each iteration once for each parameter and then at most once for each of at most
twenty-nine problems; a report has the number of iterations, at most as many as allowed, and the
number of calls, exactly.  There is a report wherever the residuals at the start are finite, if
there are as many residuals everywhere and the steps of the solver have an entry for each
parameter. -/
theorem minimise_within_budget (t : Task (Marked K)) {start : List (Marked K)} (hstart : start ≠ [])
    (hdamping : 1e-12 ≤ t.options.initialDamping) :
    (∀ patience, 29 ≤ patience → t.minimise patience start = t.minimise 29 start) ∧
    t.minimise 29 start ≠ .error .endlessDamping ∧
    (t.IsUniform start → t.Answers start → t.residuals start ≠ [] →
      (t.residuals start).all Scalar.isFinite = true →
        ∃ report, t.minimise 29 start = .ok report) ∧
    ∃ rounds : List (Round (Marked K)),
      Logs (t.logging.minimise t.options 29 start) (t.minimise 29 start)
        (.evaluated start :: rounds.flatMap Round.events) ∧
      (∀ round ∈ rounds, round.passes.length ≤ 29) ∧
      (t.IsUniform start → t.Answers start →
        ∀ round ∈ rounds, round.point.length = start.length) ∧
      ∀ report, t.minimise 29 start = .ok report →
        report.iterations = rounds.length ∧
        report.iterations ≤ t.options.maxIterations ∧
        report.evaluations ≤ 1 + t.options.maxIterations * (start.length + 29) ∧
        (t.IsUniform start → t.Answers start →
          report.evaluations = (Event.evaluated start :: rounds.flatMap Round.events).countP
            Event.isEvaluation) := by
  have hendless := minimise_ne_endlessDamping hdamping start
  refine ⟨fun patience hpatience => minimise_of_le hpatience start hendless, hendless,
    fun hresiduals hsolve => exists_minimise_eq_ok hresiduals hsolve hdamping hstart le_rfl, ?_⟩
  obtain ⟨rounds, hlogs, hpasses, hlength, hpoints, hreports⟩ := logs_minimise t hstart 29
  refine ⟨rounds, hlogs, hpasses, hpoints, fun report hreport => ?_⟩
  obtain ⟨hiterations, hevaluations⟩ := hreports report hreport
  refine ⟨hiterations, hiterations ▸ hlength, ?_, fun hresiduals hsolve => ?_⟩
  · rw [hevaluations]
    exact Nat.add_le_add_left ((sum_trials_le start.length hpasses).trans
      (Nat.mul_le_mul_right _ hlength)) 1
  · rw [hevaluations, List.countP_cons, countP_flatMap_events (hpoints hresiduals hsolve)]
    exact Nat.add_comm _ _

/-- A number is brought to one with a solver that has no answer at first. -/
theorem minimise_within_budget_towardOne :
    1e-12 ≤ towardOne.options.initialDamping ∧
      towardOne.minimise 400 [number 0] = towardOne.minimise 29 [number 0] ∧
      ∃ report, towardOne.minimise 29 [number 0] = .ok report ∧
        report.iterations ≤ 1 ∧ report.evaluations ≤ 1 + 1 * (1 + 29) := by
  have hdamping : 1e-12 ≤ towardOne.options.initialDamping := aboveFloor_standard
  obtain ⟨hpatience, -, hreport, rounds, -, -, -, hreports⟩ :=
    minimise_within_budget towardOne (List.cons_ne_nil (number 0) []) hdamping
  obtain ⟨report, hreport⟩ :=
    hreport isUniform_towardOne answers_towardOne (by simp [towardOne]) rfl
  obtain ⟨-, hiterations, hevaluations, -⟩ := hreports report hreport
  exact ⟨hdamping, hpatience 400 (by decide), report, hreport, hiterations, hevaluations⟩

end LevenbergMarquardt

end SphereLab
