import SphereLab.CommandLine.Request
import SphereLab.DataFile.Variables
import SphereLab.Figure.Canvas
import SphereLab.FreeEnergy.Report
import SphereLab.Outside
import SphereLab.PairCorrelation.Report
import SphereLab.Text.Timestamp

/-!
# Sessions

A session carries out one request in a directory.  It prints as it goes, changes the directory,
and has others do work outside.  The first failure ends it: what was printed and written before
stays, the message is printed as an error, and the code of the failure is that of the session.
-/

namespace SphereLab

/-- A computation in a session. -/
abbrev Session (σ α : Type) := ExceptT Failure (StateM (Console σ)) α

namespace Session

variable {σ : Type}

/-! ## Steps -/

/-- Print a text. -/
def say (text : String) : Session σ Unit := fun c => (.ok (), c.print .out text)

/-- Work in the directory of the session. -/
def file {α : Type} (work : Filing α) : Session σ α := fun c =>
  match work.carryOut c.directory with
  | (result, directory) => (result, { c with directory := directory })

/-- Do something that may end in a failure. -/
def attempt (f : Console σ → Option Failure × Console σ) : Session σ Unit := fun c =>
  match f c with
  | (some failure, c) => (.error failure, c)
  | (none, c) => (.ok (), c)

/-- Show a figure on the terminal, if the request wants that. -/
def preview (r : Request) (figure : Figure Float) : Session σ Unit :=
  if r.preview then say (figure.toText r.width r.height ++ "\n") else pure ()

/-- The runner that prints the lines of jobs. -/
def printer : Runner (Console σ) := fun line c => (none, c.print .out (line ++ "\n"))

variable (o : Outside σ)

/-- Write a figure to a file. -/
def draw (path : String) (figure : Figure Float) : Session σ Unit :=
  file (figure.write o.render path)

/-! ## Jobs -/

/-- Submit a grid, or print its lines. -/
def launch (settings : Settings) (g : GridRequest) : Session σ Unit := fun c =>
  let folders := JobFolders.choose c.directory g.figs g.bin settings
  let submitted := g.grid.submit (if g.dryRun then printer else o.runner) folders
    (g.memory.getD settings.memory) c
  (submitted.outcome.map fun _ => (), submitted.state)

/-! ## Sweeps -/

/-- The sweep for a number of spheres. -/
def sweepPlan (settings : Settings) (r : SweepRequest) (spheres : Nat) : SweepPlan Float :=
  { flavor := if r.absolute then .absolute r.wellWidth r.boxLength r.level r.radius
      else .periodic r.start
    steps := r.steps
    increment := r.increment
    halveEvery := r.halveEvery
    spheres := spheres
    iterations := r.iterations
    seed := r.seed
    dataFolder := (r.dataFolder <|> settings.dataFolder).getD (if r.absolute then "." else "data")
    binFolder := (r.binFolder <|> settings.binFolder).getD
      (if r.absolute then "../../.." else "../..") }

/-- Run one sweep. -/
def runSweep (p : SweepPlan Float) : Session σ (Sweep Float) := fun c =>
  match p.run o.simulator ⟨c, c.directory, []⟩ with
  | (result, site) => (result, { site.state with directory := site.directory })

/-- Run one sweep and print its summary. -/
def reportSweep (p : SweepPlan Float) : Session σ (Sweep Float) := do
  let sweep ← runSweep o p
  say (sweep.summary ++ "\n")
  return sweep

/-- Run the sweeps of a request, one for each number of spheres. -/
def sweep (settings : Settings) (r : Request) (q : SweepRequest) : Session σ Unit := do
  let sweeps ← q.spheres.mapM fun spheres => reportSweep o (sweepPlan settings q spheres)
  let figure := Sweep.figure sweeps
  draw o q.figurePath figure
  preview r figure
  match q.tablePath with
  | some path => file (Sweep.writeTable path sweeps)
  | none => pure ()

/-! ## Fits -/

/-- The study that a request asks for, at a moment. -/
def studyPlan (settings : Settings) (moment : Int) (q : FitRequest) : StudyPlan :=
  { base := q.base
    folder := (q.folder <|> settings.figsFolder).getD StudyPlan.standard.folder
    name := q.name
    ansatz := { StudyPlan.standard.ansatz with sigma := q.sigma }
    fit := { StudyPlan.standard.fit with cutoff := q.cutoff, digits := q.digits }
    alternate := !q.allPanels
    stamp := clockText moment }

/-- Fit the pair correlation. -/
def fit (settings : Settings) (moment : Int) (r : Request) (q : FitRequest) : Session σ Unit := do
  let plan := studyPlan settings moment q
  let study ← file (plan.run o.render)
  if q.typeset then attempt (o.typeset plan.documentPath)
  say ((← file (.need (study.fit.summary? Fit.initialGuess q.digits))) ++ "\n")
  say (integralLines study.integrals)
  study.written.forM fun path => say ("wrote " ++ path ++ "\n")
  study.figures.forM fun (_, figure) => preview r figure
  match q.exportPath with
  | some path => file (.change fun d => Fit.writeDocument d path study.fit moment)
  | none => pure ()

/-! ## Profiles -/

/-- Plot the density profile of a file. -/
def profile (r : Request) (folder : Option String) (path : String) : Session σ Unit := do
  let figure ← file (.look fun d => DensityProfile.figure d path)
  let target := DensityProfile.figurePath path folder
  draw o target figure
  say ("wrote " ++ target ++ "\n")
  preview r figure

/-! ## Requests -/

/-- Carry a request out. -/
def perform (settings : Settings) (moment : Int) (r : Request) : Session σ Unit :=
  match r.task with
  | .launch g => launch o settings g
  | .sweep q => sweep o settings r q
  | .fit q => fit o settings moment r q
  | .profiles q => q.files.forM (profile o r q.folder)

/-- The name of the file that gives values to variables. -/
def variablesFile : String := ".env"

/-- The contents of the file that gives values to variables: the one in the working folder, or
else the nearest above it. -/
def variablesContents? (d : Directory) : Option Contents :=
  (List.range (d.home.length + 1)).findSome? fun up =>
    match d.entryAt (d.home.take (d.home.length - up) ++ [variablesFile]) with
    | some (.file contents _) => some contents
    | _ => none

/-- The console with the variables of that file. -/
def withVariables (c : Console σ) : Console σ :=
  match variablesContents? c.directory with
  | some (.text text) => { c with bindings := Variables.extend c.bindings text }
  | _ => c

/-- Carry a request out with the settings that variables give. -/
def carryOut (moment : Int) (r : Request) : Session σ Unit := fun c =>
  let c := withVariables c
  match Settings.ofLookup (c.bindings.lookup ·) with
  | .error failure => (.error failure, c)
  | .ok settings => perform o settings moment r c

/-- Run a command line at a moment: the exit code and the console afterwards, unless it is
refused. -/
def run (moment : Int) (pieces : List String) (c : Console σ) :
    Except CommandLine.Refusal (Nat × Console σ) :=
  match CommandLine.requestOf pieces with
  | .error e => .error e
  | .ok r =>
    match carryOut o moment r c with
    | (.ok (), c) => .ok (0, c)
    | (.error failure, c) => .ok (failure.code, c.print .err (failure.message ++ "\n"))

end Session

end SphereLab
