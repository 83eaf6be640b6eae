import SphereLab.Jobs.Job

/-!
# Grids of jobs

A grid has one job for each pair of a density and a temperature, where the temperature changes
fastest.  Its jobs are handed to a runner in order; the first that the runner refuses ends the
submission.  What job a pair stands for is a parameter, and so is the runner, which has a state of
its own.
-/

namespace SphereLab

/-- A runner with a state of its own: what being handed a line does to the state, and the
failure it ends in, if it does. -/
abbrev Runner (σ : Type) := String → σ → Option Failure × σ

/-- A grid of jobs of one kind. -/
structure JobGrid (α : Type) where
  kind : JobKind α
  densities : List α
  temperatures : List α

/-- What the submission of a grid came to. -/
structure Submitted (σ : Type) where
  /-- The number of jobs, or the failure that ended the submission. -/
  outcome : Except Failure Nat
  state : σ
  /-- The lines that the runner was handed, in order, with one that it refused. -/
  handed : List String

namespace JobGrid

/-- The jobs that are made of the pairs of a density and a temperature, density by density. -/
def jobs {α : Type} (make : α → α → Job α) (densities temperatures : List α) : List (Job α) :=
  densities.flatMap fun density => temperatures.map fun temperature => make density temperature

/-- The lines of jobs. -/
def lines (jobs : List (Job Float)) (folders : JobFolders) (memory : Nat) : List String :=
  jobs.map fun job => (job.submission folders memory).line

/-- The failure of a grid without jobs. -/
def nothing : Failure := .input "At least one reduced density and one temperature are required."

/-- Hand lines to a runner until it refuses one; `count` and `handed` tell of the lines
before. -/
def submitFrom {σ : Type} (run : Runner σ) (count : Nat) (handed : List String) :
    List String → σ → Submitted σ
  | [], state => ⟨.ok count, state, handed⟩
  | line :: rest, state =>
    match run line state with
    | (some failure, state) => ⟨.error failure, state, handed ++ [line]⟩
    | (none, state) => submitFrom run (count + 1) (handed ++ [line]) rest state

/-- Hand the jobs that are made of densities and temperatures to a runner. -/
def submitPairs {σ : Type} (make : Float → Float → Job Float) (densities temperatures : List Float)
    (run : Runner σ) (folders : JobFolders) (memory : Nat) (state : σ) : Submitted σ :=
  if densities.isEmpty || temperatures.isEmpty then ⟨.error nothing, state, []⟩
  else submitFrom run 0 [] (lines (jobs make densities temperatures) folders memory) state

/-- Hand a grid to a runner. -/
def submit {σ : Type} (g : JobGrid Float) (run : Runner σ) (folders : JobFolders)
    (memory : Nat) (state : σ) : Submitted σ :=
  submitPairs (Job.mk g.kind) g.densities g.temperatures run folders memory state

end JobGrid

end SphereLab
