import SphereLab.Decimal.General
import SphereLab.PairCorrelation.Fit
import SphereLab.Text.Document
import SphereLab.Text.Timestamp

/-!
# Reporting a fit

What a fit found, as a summary for the terminal and as a document for other programs, and the
comparison of excess integrals.
-/

namespace SphereLab

namespace Fit

/-! ## The summary -/

/-- One line of the summary: a fitted parameter beside its starting value. -/
def parameterLine (i : Nat) (fitted : String) (start : Float) : String :=
  "vals[" ++ naturalText i ++ "]: " ++ fitted ++ "\t x[" ++ naturalText i ++ "]: " ++
    general start ++ "\n"

/-- The summary of a fit that started from a list of parameters, unless these are to be written
with too many digits. -/
def summary? (fit : Fit Float) (start : List Float) (digits : Nat) : Option String := do
  let parameters ← (fit.params.zip start).mapM fun (v, x) => do
    return (← fixedText? digits v, x)
  return "=== short-range g(r) fit ===\n" ++
    "chi^2 initial: " ++ general fit.initialSquares ++ "\n" ++
    "chi^2 fitted:  " ++ general fit.squares ++ "\n" ++
    "iterations: " ++ naturalText fit.iterations ++ " (" ++ fit.message ++ ")\n" ++
    String.join (parameters.mapIdx fun i (v, x) => parameterLine i v x) ++
    "max |error| " ++ general fit.worst.deviation ++ " at eta = " ++ general fit.worst.eta ++
    ", r = " ++ general fit.worst.r ++ "\n"

/-! ## The document -/

/-- A fit with the names of its parameters, made at a moment. -/
def toDocument (fit : Fit Float) (moment : Int) : Document :=
  .record
    [("tool", .text "smc fit-ghs"),
     ("generated_at", .text (stampText moment)),
     ("names", .list (Ansatz.parameterNames.map .text)),
     ("params", .list (fit.params.map .number)),
     ("unrounded", .list (fit.unrounded.map .number)),
     ("chi2_initial", .number fit.initialSquares),
     ("chi2", .number fit.squares),
     ("max_error", .number fit.worst.deviation),
     ("eta_max_error", .number fit.worst.eta),
     ("r_max_error", .number fit.worst.r),
     ("r_cut", .number fit.cutoff),
     ("iterations", .natural fit.iterations),
     ("converged", .flag fit.converged),
     ("message", .text fit.message)]

/-- The failure to create the document. -/
def uncreatable (path : String) (e : PathError) : Failure :=
  .output ("Failed to create fit JSON '" ++ path ++ "': " ++ e.message)

/-- The directory with the document of a fit at a path. -/
def writeDocument (d : Directory) (path : String) (fit : Fit Float) (moment : Int) :
    Except Failure Directory :=
  (d.writeText path ((fit.toDocument moment).render 0)).mapError (uncreatable path)

end Fit

/-! ## Integrals -/

/-- One line of the comparison of integrals. -/
def IntegralComparison.line (c : IntegralComparison) : String :=
  let cell (v : Float) := alignRight 6 (fixedText 3 v)
  "eta = " ++ fixedText 2 c.eta ++ "  Int_mc: " ++ cell c.simulated ++ ", Int_ours: " ++
    cell c.fitted ++ ", Diff: " ++ cell c.difference ++ "\n"

/-- The comparison of integrals, a line for each filling fraction. -/
def integralLines (cs : List IntegralComparison) : String :=
  String.join (cs.map IntegralComparison.line)

end SphereLab
