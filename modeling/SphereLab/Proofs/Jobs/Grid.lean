import Mathlib
import SphereLab.Jobs.Grid

/-!
# The order of a submission

Jobs are left in the background once they are submitted, so a job that is lost, doubled or submitted
after a failure cannot be taken back.  A submission goes through a list of lines that is fixed before
its first call: line `k` belongs to density `k / m` and temperature `k % m`, where `m` is the number
of temperatures.  What the runner is handed is the whole list or, if it refuses a line, the list up
to and with that line.

The runner has a state, and what it does with a line may depend on all lines before.  So a call is
described by the state after the lines before it, and which calls fail is read off these states.

* `getElem?_jobs`: the jobs of a grid by their positions.
* `Runner.after`, `Runner.failure?`: the calls of a runner, one line after the other.
* `submitFrom_of_accepted`, `submitFrom_of_refused`: what the submission of a list comes to.
* `submitPairs_densityMajor`: the submission of a grid.
-/

namespace SphereLab

/-! ## Calls of a runner -/

namespace Runner

variable {σ : Type} (run : Runner σ)

/-- The state of a runner after it has been handed some lines. -/
def after (lines : List String) (state : σ) : σ :=
  lines.foldl (fun state line => (run line state).2) state

/-- The failure that the call at a position ends in, if there is such a call and it does. -/
def failure? (lines : List String) (state : σ) (k : ℕ) : Option Failure :=
  lines[k]?.bind fun line => (run line (run.after (lines.take k) state)).1

@[simp] theorem after_nil (state : σ) : run.after [] state = state := rfl

@[simp] theorem after_cons (line : String) (rest : List String) (state : σ) :
    run.after (line :: rest) state = run.after rest (run line state).2 := rfl

@[simp] theorem failure?_cons_zero (line : String) (rest : List String) (state : σ) :
    run.failure? (line :: rest) state 0 = (run line state).1 := rfl

@[simp] theorem failure?_cons_succ (line : String) (rest : List String) (state : σ) (k : ℕ) :
    run.failure? (line :: rest) state (k + 1) = run.failure? rest (run line state).2 k := rfl

end Runner

namespace JobGrid

/-! ## The jobs of a grid -/

section Jobs

variable {α : Type} (make : α → α → Job α) (densities temperatures : List α)

theorem jobs_cons (density : α) :
    jobs make (density :: densities) temperatures =
      temperatures.map (make density) ++ jobs make densities temperatures := rfl

theorem length_jobs : (jobs make densities temperatures).length =
    densities.length * temperatures.length := by
  induction densities with
  | nil => simp [jobs]
  | cons density rest ih =>
    rw [jobs_cons, List.length_append, List.length_map, ih, List.length_cons, Nat.succ_mul,
      Nat.add_comm]

/-- The job at a position belongs to a density and a temperature. -/
theorem getElem?_jobs {k : ℕ} (hk : k < densities.length * temperatures.length) :
    ∃ density temperature, densities[k / temperatures.length]? = some density ∧
      temperatures[k % temperatures.length]? = some temperature ∧
      (jobs make densities temperatures)[k]? = some (make density temperature) := by
  induction densities generalizing k with
  | nil => simp at hk
  | cons density rest ih =>
    have hpos : 0 < temperatures.length := Nat.pos_of_ne_zero fun h => by simp [h] at hk
    rw [jobs_cons]
    rcases Nat.lt_or_ge k temperatures.length with hfirst | hlater
    · refine ⟨density, temperatures[k], ?_, ?_, ?_⟩
      · rw [Nat.div_eq_of_lt hfirst, List.getElem?_cons_zero]
      · rw [Nat.mod_eq_of_lt hfirst, List.getElem?_eq_getElem hfirst]
      · rw [List.getElem?_append_left (by simpa using hfirst), List.getElem?_map,
          List.getElem?_eq_getElem hfirst, Option.map_some]
    · -- The densities behind the first one have the positions from `m` on.
      obtain ⟨j, rfl⟩ : ∃ j, k = j + temperatures.length := ⟨k - temperatures.length, by omega⟩
      have hj : j < rest.length * temperatures.length := by
        rw [List.length_cons, Nat.succ_mul] at hk
        omega
      obtain ⟨density', temperature, hdensity, htemperature, hjob⟩ := ih hj
      refine ⟨density', temperature, ?_, ?_, ?_⟩
      · rw [Nat.add_div_right _ hpos, List.getElem?_cons_succ, hdensity]
      · rw [Nat.add_mod_right, htemperature]
      · rw [List.getElem?_append_right (by simp), List.length_map, Nat.add_sub_cancel, hjob]

end Jobs

/-! ## The submission of a list -/

section Submission

variable {σ : Type} (run : Runner σ)

/-- A runner that refuses no line is handed all of them. -/
theorem submitFrom_of_accepted (count : ℕ) (handed : List String) {lines : List String} {state : σ}
    (h : ∀ k < lines.length, run.failure? lines state k = none) :
    submitFrom run count handed lines state =
      ⟨.ok (count + lines.length), run.after lines state, handed ++ lines⟩ := by
  induction lines generalizing count handed state with
  | nil => simp [submitFrom]
  | cons line rest ih =>
    have hfirst : (run line state).1 = none := by simpa using h 0 (by simp)
    have hrest : ∀ k < rest.length, run.failure? rest (run line state).2 k = none :=
      fun k hk => by simpa using h (k + 1) (by simpa using hk)
    rw [submitFrom]
    generalize hanswer : run line state = answer at hfirst hrest
    obtain ⟨failure?, state'⟩ := answer
    subst hfirst
    simp only [ih _ _ hrest, Runner.after_cons, hanswer, List.length_cons, List.append_assoc,
      List.singleton_append, Nat.add_assoc, Nat.add_comm 1]

/-- The first line that a runner refuses is the last one that it is handed. -/
theorem submitFrom_of_refused (count : ℕ) (handed : List String) {lines : List String} {state : σ}
    {k : ℕ} {failure : Failure} (haccepted : ∀ i < k, run.failure? lines state i = none)
    (hrefused : run.failure? lines state k = some failure) :
    submitFrom run count handed lines state =
      ⟨.error failure, run.after (lines.take (k + 1)) state, handed ++ lines.take (k + 1)⟩ := by
  induction lines generalizing count handed state k with
  | nil => simp [Runner.failure?] at hrefused
  | cons line rest ih =>
    rw [submitFrom]
    cases k with
    | zero =>
      rw [Runner.failure?_cons_zero] at hrefused
      rw [List.take_succ_cons, List.take_zero, Runner.after_cons, Runner.after_nil]
      generalize run line state = answer at hrefused
      obtain ⟨failure?, state'⟩ := answer
      subst hrefused
      rfl
    | succ k =>
      have hfirst : (run line state).1 = none := by simpa using haccepted 0 (by simp)
      have hrest : ∀ i < k, run.failure? rest (run line state).2 i = none :=
        fun i hi => by simpa using haccepted (i + 1) (by simpa using hi)
      rw [Runner.failure?_cons_succ] at hrefused
      rw [List.take_succ_cons, Runner.after_cons]
      generalize run line state = answer at hfirst hrest hrefused
      obtain ⟨failure?, state'⟩ := answer
      subst hfirst
      simp only [ih _ _ hrest hrefused, List.append_assoc, List.singleton_append]

end Submission

/-! ## The submission of a grid -/

/-- **The order of a submission.**  A grid without densities or without temperatures is refused as
bad input before any call.  Otherwise the lines are those of all pairs, the temperature changing
fastest: a runner that accepts them is handed all of them, and one that refuses a line is handed
those up to it, and its failure is what the submission ends in. -/
theorem submitPairs_densityMajor {σ : Type} (make : Float → Float → Job Float)
    (densities temperatures : List Float) (run : Runner σ) (folders : JobFolders) (memory : ℕ)
    (state : σ) :
    (densities = [] ∨ temperatures = [] →
        submitPairs make densities temperatures run folders memory state =
            ⟨.error nothing, state, []⟩ ∧
          nothing = .input nothing.message) ∧
      (densities ≠ [] → temperatures ≠ [] → ∃ lines : List String,
        lines.length = densities.length * temperatures.length ∧
        (∀ k < densities.length * temperatures.length, ∃ density temperature,
          densities[k / temperatures.length]? = some density ∧
          temperatures[k % temperatures.length]? = some temperature ∧
          lines[k]? = some ((make density temperature).submission folders memory).line) ∧
        ((∀ k < lines.length, run.failure? lines state k = none) →
          submitPairs make densities temperatures run folders memory state =
            ⟨.ok (densities.length * temperatures.length), run.after lines state, lines⟩) ∧
        ∀ k failure, (∀ i < k, run.failure? lines state i = none) →
          run.failure? lines state k = some failure →
          submitPairs make densities temperatures run folders memory state =
            ⟨.error failure, run.after (lines.take (k + 1)) state, lines.take (k + 1)⟩) := by
  refine ⟨fun hempty => ⟨?_, rfl⟩, fun hdensities htemperatures => ?_⟩
  · rw [submitPairs, if_pos (by simpa using hempty)]
  · have hsubmit : submitPairs make densities temperatures run folders memory state =
        submitFrom run 0 [] (lines (jobs make densities temperatures) folders memory) state := by
      rw [submitPairs, if_neg (by simpa using ⟨hdensities, htemperatures⟩)]
    have hlength : (lines (jobs make densities temperatures) folders memory).length =
        densities.length * temperatures.length := by
      rw [lines, List.length_map, length_jobs]
    refine ⟨lines (jobs make densities temperatures) folders memory, hlength, ?_, ?_, ?_⟩
    · intro k hk
      obtain ⟨density, temperature, hdensity, htemperature, hjob⟩ :=
        getElem?_jobs make densities temperatures hk
      exact ⟨density, temperature, hdensity, htemperature, by simp [lines, hjob]⟩
    · intro haccepted
      rw [hsubmit, submitFrom_of_accepted run 0 [] haccepted, hlength, Nat.zero_add,
        List.nil_append]
    · intro k failure haccepted hrefused
      rw [hsubmit, submitFrom_of_refused run 0 [] haccepted hrefused, List.nil_append]

/-- A runner that has taken two lines and refuses the third one of four. -/
theorem submitPairs_densityMajor_third :
    let run : Runner ℕ := fun _ calls =>
      (if calls = 2 then some (.external "queue is full") else none, calls + 1)
    let submitted := submitPairs (fun density temperature => ⟨.walls 0, density, temperature⟩)
      [0.2, 0.5] [0.2, 1.0] run ⟨"figs", "."⟩ 60 0
    submitted.outcome = .error (.external "queue is full") ∧ submitted.state = 3 ∧
      submitted.handed.length = 3 := by
  intro run submitted
  obtain ⟨lines, hlength, -, -, hrefused⟩ := (submitPairs_densityMajor
    (fun density temperature => ⟨.walls 0, density, temperature⟩) [0.2, 0.5] [0.2, 1.0] run
    ⟨"figs", "."⟩ 60 0).2 (by simp) (by simp)
  obtain ⟨a, b, c, d, rfl⟩ := List.length_eq_four.mp hlength
  have hsubmitted : submitted = ⟨.error (.external "queue is full"), 3, [a, b, c]⟩ :=
    hrefused 2 (.external "queue is full") (fun i hi => by interval_cases i <;> rfl) rfl
  rw [hsubmitted]
  exact ⟨rfl, rfl, rfl⟩

end JobGrid

end SphereLab
