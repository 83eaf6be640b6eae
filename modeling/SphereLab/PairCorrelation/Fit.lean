import SphereLab.LeastSquares.LevenbergMarquardt
import SphereLab.PairCorrelation.Ansatz
import SphereLab.PairCorrelation.DataSet

/-!
# Fitting the ansatz

The residuals of a fit are the model less the simulation, for every data set and, within it,
every distance below a cutoff.  The parameters that the search finds are rounded to a number
of decimals, and everything that is reported about the quality of the fit is reported for the
rounded ones: the sum of squares, and the largest deviation with its place, which is the last
place where it occurs.
-/

namespace SphereLab

variable {α : Type} [Scalar α]

namespace Fit

/-- Where the search starts: the coefficients row by row, then the decay rate. -/
def initialGuess : List α :=
  [0.68, 0.16, 0.79, 1e-3, 2e-4, 3e-3, 1e-3, 2e-4, 3e-3, 0, 0, 0, 0, 0, 0, 0, 3.0]

/-- What a fit is asked for. -/
structure Options (α : Type) where
  /-- Only distances below the cutoff count. -/
  cutoff : α
  /-- The decimals that the parameters keep. -/
  digits : Nat
  search : LevenbergMarquardt.Options α

/-- The options that a fit has unless it says otherwise. -/
def Options.standard : Options α := ⟨6.0, 3, .standard⟩

/-! ## Residuals -/

/-- The points of a data set below the cutoff. -/
def pointsBelow (cutoff : α) (set : DataSet α) : List (α × α) :=
  (set.r.zip set.g).filter fun p => p.1 < cutoff

/-- The residuals; there are none with too few parameters, unless there is no point. -/
def residuals? (model : Program α) (sets : List (DataSet α)) (cutoff : α) (params : List α) :
    Option (List α) :=
  (sets.flatMap fun set => (pointsBelow cutoff set).map fun p => (set.contact, p)).mapM
    fun (contact, p) => (Ansatz.modelValue? model params contact p.1).map (· - p.2)

/-- The filling fraction and the distance of every point that counts. -/
def places (sets : List (DataSet α)) (cutoff : α) : List (α × α) :=
  sets.flatMap fun set => (set.r.filter fun r => r < cutoff).map fun r => (set.eta, r)

/-! ## Rounding -/

/-- A number rounded to some decimals.  The number of decimals is taken as a signed number of
thirty-two bits. -/
def roundTo (v : α) (digits : Nat) : α :=
  let scale := Scalar.powInt (10.0 : α) (Int.bmod digits (Nat.pow 2 32))
  Scalar.round (v * scale) / scale

/-! ## The worst point -/

/-- A deviation and where it occurs. -/
structure Worst (α : Type) where
  deviation : α
  eta : α
  r : α

/-- The worst of the points seen so far and one more: of equal deviations the later counts. -/
def Worst.step (w : Worst α) (point : α × α × α) : Worst α :=
  let size := Scalar.abs point.1
  if w.deviation ≤ size then ⟨size, point.2.1, point.2.2⟩ else w

/-- The worst point of residuals and their places. -/
def worstOf (deviations : List α) (places : List (α × α)) : Worst α :=
  (deviations.zip places).foldl Worst.step ⟨0, 0, 0⟩

end Fit

/-! ## Fitting -/

/-- A fit and how good it is. -/
structure Fit (α : Type) where
  /-- The parameters, rounded. -/
  params : List α
  unrounded : List α
  /-- The sum of squares where the search started. -/
  initialSquares : α
  /-- The sum of squares at the rounded parameters. -/
  squares : α
  worst : Fit.Worst α
  cutoff : α
  iterations : Nat
  converged : Bool
  message : String

namespace Fit

/-- Why there is no fit. -/
inductive Fault (α : Type) where
  | noPoints (cutoff : α)
  | search (fault : LevenbergMarquardt.Fault)

/-- The failure that a fault amounts to. -/
def Fault.failure : Fault Float → Failure
  | .noPoints cutoff =>
    .data ("No Monte Carlo points below the fit cutoff r < " ++ Style.plain.text cutoff)
  | .search fault => fault.failure

/-- The fit that a finished search amounts to. -/
def ofReport (model : Program α) (sets : List (DataSet α)) (options : Options α)
    (initialSquares : α) (report : LevenbergMarquardt.Report α) : Fit α :=
  let params := report.params.map (roundTo · options.digits)
  let deviations := (residuals? model sets options.cutoff params).getD []
  { params := params
    unrounded := report.params
    initialSquares := initialSquares
    squares := LevenbergMarquardt.sumOfSquares deviations
    worst := worstOf deviations (places sets options.cutoff)
    cutoff := options.cutoff
    iterations := report.iterations
    converged := report.outcome.converged
    message := report.outcome.message }

/-- Fit the model to data, with a solver for the linear problems. -/
def run (solve : List (List α) → List α → Option (List α)) (model : Program α)
    (sets : List (DataSet α)) (options : Options α) : Except (Fault α) (Fit α) :=
  let objective (x : List α) := (residuals? model sets options.cutoff x).getD []
  let initial := objective initialGuess
  if initial.isEmpty then .error (.noPoints options.cutoff)
  else
    match LevenbergMarquardt.minimise objective solve options.search initialGuess with
    | .error fault => .error (.search fault)
    | .ok report =>
      .ok (ofReport model sets options (LevenbergMarquardt.sumOfSquares initial) report)

/-- The coefficient of a row and a column, both counted from one. -/
def kappa? (fit : Fit α) (i j : Nat) : Option α := fit.params[(i - 1) * 4 + (j - 1)]?

/-- The decay rate. -/
def alpha? (fit : Fit α) : Option α := fit.params[Ansatz.parameterCount - 1]?

end Fit

end SphereLab
