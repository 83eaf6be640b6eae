import SphereLab.CommandLine.Options
import SphereLab.DensityProfile
import SphereLab.FreeEnergy.Schedule
import SphereLab.Jobs.Grid
import SphereLab.PairCorrelation.Study

/-!
# Requests

What can be asked for on the command line: to submit a grid of jobs, to run sweeps, to fit the
pair correlation, or to plot density profiles.  Every request may come with previews of its
figures on the terminal.

A request has what was said, and the standard for what was not; folders that settings could
still decide stay open.
-/

namespace SphereLab

/-! ## What is asked for -/

/-- A grid of jobs. -/
structure GridRequest where
  grid : JobGrid Float
  figs : Option String
  bin : Option String
  memory : Option Nat
  /-- Are the lines printed instead of submitted? -/
  dryRun : Bool

/-- Sweeps, one for each number of spheres. -/
structure SweepRequest where
  /-- Is the cell a fixed box? -/
  absolute : Bool
  steps : Nat
  start : Float
  increment : Float
  halveEvery : Nat
  spheres : List Nat
  iterations : Nat
  seed : Nat
  dataFolder : Option String
  binFolder : Option String
  wellWidth : Float
  boxLength : Float
  level : Nat
  radius : Float
  /-- The path of the figure. -/
  figurePath : String
  /-- The path of the table, if one is wanted. -/
  tablePath : Option String

/-- A fit of the pair correlation. -/
structure FitRequest where
  base : String
  folder : Option String
  name : String
  sigma : Float
  cutoff : Float
  digits : Nat
  allPanels : Bool
  /-- Is the document typeset? -/
  typeset : Bool
  /-- The path of the exported fit, if one is wanted. -/
  exportPath : Option String

/-- Figures of density profiles. -/
structure ProfileRequest where
  files : List String
  folder : Option String

/-- What is to be done. -/
inductive Task where
  | launch (r : GridRequest)
  | sweep (r : SweepRequest)
  | fit (r : FitRequest)
  | profiles (r : ProfileRequest)

/-- A request. -/
structure Request where
  /-- Are figures shown on the terminal? -/
  preview : Bool
  width : Nat
  height : Nat
  task : Task

namespace CommandLine

/-! ## Values -/

/-- A natural number below `2 ^ 32`; a sign may stand before it. -/
def word? (s : String) : Option Nat :=
  match readInteger? s.toList with
  | some n => if 0 ≤ n ∧ n < (Nat.pow 2 32 : Nat) then some n.toNat else none
  | none => none

/-- A natural number below `2 ^ 64`. -/
def natural? (s : String) : Option Nat := readNatural? (Nat.pow 2 64) s.toList

/-- A double. -/
def double? (s : String) : Option Float := readDouble? s.toList

/-- A path, which is not empty. -/
def path? (s : String) : Option String := if s.isEmpty then none else some s

/-! ## Options -/

/-- An option that takes one value. -/
def one {α : Type} (name : String) (read : String → Option α) : Flag :=
  ⟨name, none, .one, false, fun s => (read s).isSome⟩

/-- An option that takes many values. -/
def many {α : Type} (name : String) (letter : Char) (required : Bool) (read : String → Option α) :
    Flag :=
  ⟨name, some letter, .many, required, fun s => (read s).isSome⟩

/-- An option that takes no value. -/
def switch (name : String) : Flag := ⟨name, none, .nothing, false, fun _ => true⟩

/-- The option with a letter as well. -/
def Flag.lettered (f : Flag) (letter : Char) : Flag := { f with letter := some letter }

/-- The option made necessary. -/
def Flag.needed (f : Flag) : Flag := { f with required := true }

/-- The options of every command. -/
def everywhere : List Flag :=
  [switch "show", one "width" natural?, one "height" natural?,
   ⟨"help", some 'h', .help, false, fun _ => true⟩]

/-- The options of every grid. -/
def gridFlags : List Flag :=
  [many "density" 'n' true double?, many "temperature" 't' true double?,
   one "figs-dir" path?, one "bin-dir" path?, one "mem" word?, switch "dry-run"]

/-- The command of one kind of jobs. -/
def gridCommand (flags : List Flag) : Command := .mk (gridFlags ++ flags ++ everywhere) none []

/-- Is a text one of some words? -/
def oneOf? (choices : List String) (s : String) : Option String :=
  if choices.contains s then some s else none

/-- The commands for all kinds of jobs. -/
def launchCommand : Command :=
  .mk everywhere none
    [("homogeneous", gridCommand [one "potential" some]),
     ("walls", gridCommand [one "spheres" word?]),
     ("soft-walls", gridCommand [one "spheres" word?]),
     ("test-particle",
      gridCommand [(one "sigma" double?).needed, (one "epsilon" double?).needed,
        one "potential" some])]

/-- The command for sweeps. -/
def sweepCommand : Command :=
  .mk ([one "flavor" (oneOf? ["periodic", "absolute"]), one "steps" natural?,
    one "initial-ff" double?, one "step-size" double?, one "halve-every" natural?,
    many "spheres" 'N' false word?, one "iterations" natural?, one "seed" natural?,
    one "data-dir" path?, one "bin-dir" path?, one "well-width" double?,
    one "box-length" double?, one "level" word?, one "radius" double?,
    (one "output" path?).lettered 'o', one "export" path?] ++ everywhere) none []

/-- The command for a fit. -/
def fitCommand : Command :=
  .mk ([one "data-base" some, one "out-dir" path?, one "prefix" some, one "sigma" double?,
    one "fit-rcutoff" double?, one "digits" word?, switch "all-panels", switch "pdflatex",
    one "export-json" path?] ++ everywhere) none []

/-- The command for density profiles. -/
def profileCommand : Command :=
  .mk (one "out-dir" path? :: everywhere)
    (some ⟨"files", none, .many, true, fun s => (path? s).isSome⟩) []

/-- All commands. -/
def allCommands : Command :=
  .mk (⟨"version", some 'V', .version, false, fun _ => true⟩ :: everywhere) none
    [("launch", launchCommand), ("free-energy", sweepCommand), ("fit-ghs", fitCommand),
     ("plot-density", profileCommand)]

/-! ## From options to requests -/

namespace Parsed

/-- The value of an option, or the standard. -/
def valueOr {α : Type} (p : Parsed) (name : String) (read : String → Option α)
    (standard : α) : α :=
  ((p.valueOf? name).bind read).getD standard

/-- The values of an option. -/
def list {α : Type} (p : Parsed) (name : String) (read : String → Option α) : List α :=
  ((p.valuesOf? name).getD []).filterMap read

/-- What kind of jobs is asked for. -/
def jobKind (p : Parsed) (name : String) : JobKind Float :=
  let potential := p.valueOr "potential" some ""
  let spheres := p.valueOr "spheres" word? 0
  match name with
  | "walls" => .walls spheres
  | "soft-walls" => .softWalls spheres
  | "test-particle" =>
    .testParticle (p.valueOr "sigma" double? 0) (p.valueOr "epsilon" double? 0) potential
  | _ => .homogeneous potential

/-- The grid that is asked for. -/
def gridRequest (p : Parsed) (name : String) : GridRequest :=
  { grid := ⟨p.jobKind name, p.list "density" double?, p.list "temperature" double?⟩
    figs := p.valueOf? "figs-dir"
    bin := p.valueOf? "bin-dir"
    memory := (p.valueOf? "mem").bind word?
    dryRun := p.has "dry-run" }

/-- The sweeps that are asked for. -/
def sweepRequest (p : Parsed) : SweepRequest :=
  let standard : SweepPlan Float := .standard
  let spheres := p.list "spheres" word?
  { absolute := p.valueOf? "flavor" == some "absolute"
    steps := p.valueOr "steps" natural? standard.steps
    start := p.valueOr "initial-ff" double? 0
    increment := p.valueOr "step-size" double? standard.increment
    halveEvery := p.valueOr "halve-every" natural? standard.halveEvery
    spheres := if spheres.isEmpty then [standard.spheres] else spheres
    iterations := p.valueOr "iterations" natural? standard.iterations
    seed := p.valueOr "seed" natural? standard.seed
    dataFolder := p.valueOf? "data-dir"
    binFolder := p.valueOf? "bin-dir"
    wellWidth := p.valueOr "well-width" double? 1.3
    boxLength := p.valueOr "box-length" double? 5.0
    level := p.valueOr "level" word? 0
    radius := p.valueOr "radius" double? 1.0
    figurePath := p.valueOr "output" path? "free-energy.svg"
    tablePath := p.valueOf? "export" }

/-- The fit that is asked for. -/
def fitRequest (p : Parsed) : FitRequest :=
  let standard := StudyPlan.standard
  { base := p.valueOr "data-base" some standard.base
    folder := p.valueOf? "out-dir"
    name := p.valueOr "prefix" some standard.name
    sigma := p.valueOr "sigma" double? standard.ansatz.sigma
    cutoff := p.valueOr "fit-rcutoff" double? standard.fit.cutoff
    digits := p.valueOr "digits" word? standard.fit.digits
    allPanels := p.has "all-panels"
    typeset := p.has "pdflatex"
    exportPath := p.valueOf? "export-json" }

/-- The task that the names of commands ask for. -/
def task? (p : Parsed) : Option Task :=
  match p.path with
  | ["launch", name] => some (.launch (p.gridRequest name))
  | ["free-energy"] => some (.sweep p.sweepRequest)
  | ["fit-ghs"] => some (.fit p.fitRequest)
  | ["plot-density"] =>
    some (.profiles ⟨p.list "files" path?, p.valueOf? "out-dir"⟩)
  | _ => none

/-- The request of a command line. -/
def request? (p : Parsed) : Option Request :=
  p.task?.map fun task =>
    ⟨p.has "show", p.valueOr "width" natural? 100, p.valueOr "height" natural? 25, task⟩

end Parsed

/-- Read the request of a command line. -/
def requestOf (pieces : List String) : Except Refusal Request :=
  match read allCommands pieces with
  | .error e => .error e
  | .ok parsed =>
    match parsed.request? with
    | some r => .ok r
    | none => .error .usage

end CommandLine

end SphereLab
