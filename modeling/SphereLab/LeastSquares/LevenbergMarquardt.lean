import SphereLab.Failure
import SphereLab.Scalar

/-!
# Nonlinear least squares by Levenberg's and Marquardt's method

Minimise the sum of squares of a residual vector that depends on a few parameters.  Each
iteration approximates the residuals to first order, by forward differences, and solves the
linear problem with a damping block `sqrt (λ D)` below: `D` is the running maximum of the
squared column lengths, and the damping `λ` grows tenfold with every step that does not make
the residuals smaller, and falls tenfold with every step that does.

A `Task` says what to minimise and how, and what is said about its `minimise` is said for all
residual functions and for all solvers of the linear problems, also for solvers that answer the
same problem in one way today and in another tomorrow.  The number of evaluations counts the
calls of the residual function.

A parameter that the residuals do not depend on has a zero column, and stays where it is.
-/

namespace SphereLab

namespace LevenbergMarquardt

variable {α : Type} [Scalar α]

/-! ## Inputs and results -/

/-- When to stop, and how much damping to start with. -/
structure Options (α : Type) where
  maxIterations : Nat
  /-- The relative reduction of the sum of squares up to which we stop. -/
  reductionTolerance : α
  /-- The relative length of a step up to which we stop. -/
  stepTolerance : α
  /-- The largest entry of the gradient up to which we stop. -/
  gradientTolerance : α
  initialDamping : α

/-- The options that a fit has unless it says otherwise. -/
def Options.standard : Options α := ⟨200, 1.49012e-8, 1.49012e-8, 0, 1e-3⟩

/-- Why a minimisation ended. -/
inductive Outcome where
  | smallGradient
  | smallReduction
  | smallStep
  | noReduction
  | singular
  | iterationLimit
  deriving DecidableEq, Repr

/-- Did the minimisation end at a minimum, as far as it can tell? -/
def Outcome.converged : Outcome → Bool
  | .smallGradient => true
  | .smallReduction => true
  | .smallStep => true
  | .noReduction => true
  | .singular => false
  | .iterationLimit => false

/-- The reason in words. -/
def Outcome.message : Outcome → String
  | .smallGradient => "gradient below tolerance"
  | .smallReduction => "relative reduction below ftol"
  | .smallStep => "step size below xtol"
  | .noReduction => "no further reduction possible"
  | .singular => "damped system is singular"
  | .iterationLimit => "iteration limit reached"

/-- A step that made the residuals smaller. -/
structure Accepted (α : Type) where
  /-- The iteration that found the step. -/
  iteration : Nat
  /-- The sum of squares after the step. -/
  cost : α
  /-- The damping after the step. -/
  damping : α

/-- The outcome of a minimisation. -/
structure Report (α : Type) where
  params : List α
  /-- The sum of squares at `params`. -/
  cost : α
  iterations : Nat
  evaluations : Nat
  outcome : Outcome
  /-- The steps on the way, in their order. -/
  accepted : List (Accepted α)

/-- Why a minimisation cannot start, or go on. -/
inductive Fault where
  | noParameters
  | noResiduals
  | notFinite
  /-- There is no entry at an index, or a matrix does not fit into its place. -/
  | outOfRange
  /-- The damping does not grow past its limit. -/
  | endlessDamping
  deriving DecidableEq, Repr

/-- The failure that a fault amounts to. -/
def Fault.failure : Fault → Failure
  | .noParameters => .output "Least squares needs at least one parameter."
  | .noResiduals => .output "Least squares needs at least one residual."
  | .notFinite => .output "Residuals are not finite at the starting point."
  | .outOfRange => .output "A least-squares problem has an index out of range."
  | .endlessDamping => .output "The damping of a least-squares step cannot grow."

/-! ## Vectors -/

/-- The sum of squares of a vector. -/
def sumOfSquares (r : List α) : α := Scalar.total (r.map fun v => v * v)

/-- The length of a vector. -/
def norm (v : List α) : α := Scalar.sqrt (sumOfSquares v)

/-- The inner product of two vectors. -/
def inner (a b : List α) : α := Scalar.total (List.zipWith (· * ·) a b)

/-! ## The linear problem of one step -/

/-- The step of the forward difference at a coordinate: `2 ^ -26` of its size, or of one. -/
def differenceStep (x : α) : α :=
  1.490116119384765625e-8 * Scalar.maxOf (Scalar.abs x) 1

/-- A vector with one coordinate moved. -/
def shiftAt (x : List α) (j : Nat) (h : α) : List α := x.modify j (· + h)

/-- The column of differences for one parameter; a difference that is not finite counts as
zero, and so does one for which there is no residual. -/
def differenceColumn (residuals : List α → List α) (x r : List α) (j : Nat) (xj : α) : List α :=
  let h := differenceStep xj
  let shifted := residuals (shiftAt x j h)
  r.mapIdx fun i ri =>
    match shifted[i]? with
    | none => 0
    | some si =>
      let d := (si - ri) / h
      if Scalar.isFinite d then d else 0

/-- The columns of differences, one for each parameter. -/
def differenceColumns (residuals : List α → List α) (x r : List α) : List (List α) :=
  x.mapIdx (differenceColumn residuals x r)

/-- The scales for the next problem: no scale falls, and none is below `10 ^ -12`.  There are none
if a scale has no column. -/
def rescaled? (scale : List α) (columns : List (List α)) : Option (List α) :=
  scale.zipIdx.mapM fun (d, j) =>
    columns[j]?.map fun c => Scalar.maxOf (Scalar.maxOf d (sumOfSquares c)) 1e-12

/-- The rows of the damped problem: those of the differences, then one for each parameter
with the damping on the diagonal.  There are none if the differences do not fill their place, or
a scale is missing. -/
def dampedRows? (count size : Nat) (columns : List (List α)) (damping : α) (scale : List α) :
    Option (List (List α)) := do
  guard (columns.length = size ∧ columns.all (·.length == count) = true)
  let differences ← (List.range count).mapM fun i => columns.mapM (·[i]?)
  let block ← (List.range size).mapM fun j => scale[j]?.map fun d =>
    (List.range size).map fun k => if k = j then Scalar.sqrt (damping * d) else 0
  return differences ++ block

/-- The right-hand side of the damped problem; there is none if a residual is missing. -/
def dampedTarget? (count size : Nat) (r : List α) : Option (List α) := do
  let opposite ← (List.range count).mapM fun i => r[i]?.map (-·)
  return opposite ++ List.replicate size 0

/-! ## Iterations -/

/-- What a minimisation works on. -/
structure Task (α : Type) where
  residuals : List α → List α
  /-- The step that the solver of linear problems finds for a matrix, given by its rows, and a
  right-hand side.  The number counts the problems that it was given before. -/
  solve : Nat → List (List α) → List α → Option (List α)
  options : Options α

/-- What a minimisation carries from step to step. -/
structure State (α : Type) where
  params : List α
  residuals : List α
  cost : α
  damping : α
  scale : List α
  iteration : Nat
  evaluations : Nat
  /-- The number of linear problems that the solver was given. -/
  solved : Nat
  accepted : List (Accepted α)

/-- The report of a state. -/
def State.report (s : State α) (outcome : Outcome) : Report α :=
  ⟨s.params, s.cost, s.iteration, s.evaluations, outcome, s.accepted⟩

/-- The sum of squares of a residual vector all of whose entries are finite. -/
def finiteCost? (r : List α) : Option α :=
  if r.all Scalar.isFinite then some (sumOfSquares r) else none

/-- What comes of an iteration: the search ends, cannot go on, or has taken a step. -/
inductive Progress (α : Type) where
  | ended (report : Report α)
  | failed (fault : Fault)
  | taken (state : State α)

/-- What comes of one damped problem: the iteration is settled, or a problem with more damping
follows. -/
inductive Attempt (α : Type) where
  | settled (progress : Progress α)
  | rejected (state : State α)

/-- The state after a step that made the residuals smaller, and whether the search ends with
it. -/
def accept (options : Options α) (s : State α) (step trial r : List α) (cost : α) : Progress α :=
  let reduction := (s.cost - cost) / Scalar.maxOf s.cost 2.2250738585072014e-308
  let reach := options.stepTolerance * (norm s.params + options.stepTolerance)
  let damping := Scalar.maxOf (s.damping / 10.0) 1e-12
  let next : State α :=
    { s with
      params := trial
      residuals := r
      cost := cost
      damping := damping
      accepted := s.accepted ++ [⟨s.iteration, cost, damping⟩] }
  if reduction ≤ options.reductionTolerance then .ended (next.report .smallReduction)
  else if norm step ≤ reach then .ended (next.report .smallStep)
  else .taken next

/-- More damping after a problem that gave no step to take, up to a limit. -/
def reject (s : State α) (outcome : Outcome) : Attempt α :=
  let more : State α := { s with damping := s.damping * 10.0 }
  if 1e16 < more.damping then .settled (.ended (more.report outcome)) else .rejected more

namespace Task

variable (t : Task α) (count size : Nat)

/-- Solve one damped problem, and take its step if that makes the residuals smaller. -/
def attempt (columns : List (List α)) (s : State α) : Attempt α :=
  match dampedRows? count size columns s.damping s.scale, dampedTarget? count size s.residuals with
  | some rows, some target =>
    let asked : State α := { s with solved := s.solved + 1 }
    match t.solve s.solved rows target with
    | none => reject asked .singular
    | some step =>
      let trial := List.zipWith (· + ·) s.params step
      let r := t.residuals trial
      let tried : State α := { asked with evaluations := s.evaluations + 1 }
      match (finiteCost? r).filter fun cost => cost < s.cost with
      | some cost => .settled (accept t.options tried step trial r cost)
      | none => reject tried .noReduction
  | _, _ => .settled (.failed .outOfRange)

/-- Solve damped problems, with more damping each time, until one gives a step to take.  Out of
patience, the search is given up. -/
def search (columns : List (List α)) (s : State α) : Nat → Progress α
  | 0 => .failed .endlessDamping
  | patience + 1 =>
    match attempt t count size columns s with
    | .settled progress => progress
    | .rejected s => search columns s patience

/-- One iteration: differences, gradient test, scaling, search for a step. -/
def iterate (patience : Nat) (s : State α) : Progress α :=
  let columns := differenceColumns t.residuals s.params s.residuals
  let s := { s with iteration := s.iteration + 1, evaluations := s.evaluations + size }
  let gradient := columns.map fun c => inner c s.residuals
  let largest := gradient.foldl (fun m g => Scalar.maxOf m (Scalar.abs g)) 0
  if largest ≤ t.options.gradientTolerance then .ended (s.report .smallGradient)
  else
    match rescaled? s.scale columns with
    | none => .failed .outOfRange
    | some scale => search t count size columns { s with scale := scale } patience

/-- Iterate, with some iterations to go. -/
def run (patience : Nat) (s : State α) : Nat → Except Fault (Report α)
  | 0 => .ok (s.report .iterationLimit)
  | left + 1 =>
    match iterate t count size patience s with
    | .ended report => .ok report
    | .failed fault => .error fault
    | .taken s => run patience s left

/-- Where a minimisation begins. -/
def initial (start : List α) (cost : α) : State α :=
  ⟨start, t.residuals start, cost, t.options.initialDamping, start.map fun _ => 0, 0, 1, 0, []⟩

/-- Minimise the sum of squares of the residuals, from a starting point on. -/
def minimise (patience : Nat) (start : List α) : Except Fault (Report α) :=
  if start.isEmpty then .error .noParameters
  else if (t.residuals start).isEmpty then .error .noResiduals
  else
    match finiteCost? (t.residuals start) with
    | none => .error .notFinite
    | some cost =>
      run t (t.residuals start).length start.length patience (t.initial start cost)
        t.options.maxIterations

end Task

/-- The number of tenfold steps that carry the damping from the smallest positive double past
its limit, with some to spare. -/
def dampingFuel : Nat := 400

/-- Minimise with a solver that answers a problem in one way only, and with patience for every
damping that a double can be. -/
def minimise (residuals : List α → List α) (solve : List (List α) → List α → Option (List α))
    (options : Options α) (start : List α) : Except Fault (Report α) :=
  Task.minimise ⟨residuals, fun _ => solve, options⟩ dampingFuel start

end LevenbergMarquardt

end SphereLab
