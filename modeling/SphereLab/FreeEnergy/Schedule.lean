import SphereLab.Decimal.General
import SphereLab.PathText
import SphereLab.Scalar

/-!
# The schedule of a sweep

A sweep goes from a dilute system to a dense one in steps.  A step at a filling fraction tries
to put the sampled configuration into a slightly smaller cell, whose filling fraction is that
of the next step.  The increment is halved every so many steps.

A step is one run of the simulation.  Its output file is named after what makes the run what
it is, so that a step whose file is there need not be run again.
-/

namespace SphereLab

/-- Which cell is simulated. -/
inductive Flavor (α : Type) where
  /-- A periodic cell.  The sweep starts at a filling fraction of choice. -/
  | periodic (start : α)
  /-- A fixed box with spheres of a given radius, run through the scheduler and filed by
  renormalization level. -/
  | absolute (wellWidth boxLength : α) (level : Nat) (radius : α)

/-- What a sweep is asked for. -/
structure SweepPlan (α : Type) where
  flavor : Flavor α
  steps : Nat
  /-- The first increment of the filling fraction. -/
  increment : α
  /-- After how many steps the increment is halved; never, if zero. -/
  halveEvery : Nat
  spheres : Nat
  iterations : Nat
  seed : Nat
  dataFolder : String
  binFolder : String

/-- One step: where it starts, where it leads, and the run that takes it there. -/
structure SweepStep (α : Type) where
  index : Nat
  ff : α
  /-- The filling fraction of the smaller cell. -/
  ffSmall : α
  /-- The name of the run. -/
  name : String
  folder : String
  /-- The command line of the run. -/
  command : List String

/-- The file that a step's run leaves behind. -/
def SweepStep.output {α : Type} (s : SweepStep α) : String :=
  joinPath s.folder (s.name ++ "-g.dat")

namespace SweepPlan

section Numbers

variable {α : Type} [Scalar α]

/-- The sweep that is run unless something else is asked for. -/
def standard : SweepPlan α :=
  ⟨.periodic 0, 20, 0.05, 4, 10, 1000000, 0, "data", "../.."⟩

/-! ## Filling fractions -/

/-- How often the increment has been halved before a step. -/
def halvings (p : SweepPlan α) (index : Nat) : Nat := index / p.halveEvery

omit [Scalar α] in
@[simp] theorem halvings_of_never {p : SweepPlan α} (h : p.halveEvery = 0) (index : Nat) :
    p.halvings index = 0 := by
  simp [halvings, h]

/-- The increment at a step.  The number of halvings is taken as a signed number of thirty-two
bits. -/
def incrementAt (p : SweepPlan α) (index : Nat) : α :=
  p.increment * Scalar.powInt 0.5 (Int.bmod (p.halvings index) (Nat.pow 2 32))

/-- Where the first step starts: a filling fraction of choice, or that of one sphere in the
box. -/
def initialFraction (p : SweepPlan α) (pi : α) : α :=
  match p.flavor with
  | .periodic start => start
  | .absolute _ boxLength _ radius =>
    4.0 / 3.0 * pi * Scalar.powInt radius 3 / Scalar.powInt boxLength 3

/-- Where a step at a filling fraction leads. -/
def next (p : SweepPlan α) (index : Nat) (ff : α) : α := ff + p.incrementAt index

end Numbers

/-! ## Names -/

/-- The number of spheres in names, with three digits at least. -/
def sphereTag {α : Type} (p : SweepPlan α) : String := "N" ++ fillZeros 3 (naturalText p.spheres)

/-- The folder of the output files. -/
def folder {α : Type} (p : SweepPlan α) : String :=
  match p.flavor with
  | .periodic _ => p.dataFolder
  | .absolute _ _ level _ =>
    joinPath p.dataFolder
      ("scrunched/i" ++ naturalText level ++ "/" ++ p.sphereTag ++ "/absolute")

/-- The name of a step's run. -/
def nameAt (p : SweepPlan Float) (ff ffSmall : Float) : String :=
  match p.flavor with
  | .periodic _ =>
    "periodic-ff" ++ general ff ++ "-ff_small" ++ general ffSmall ++ "-N" ++
      naturalText p.spheres ++ "-iterations" ++ naturalText p.iterations ++ "-seed" ++
      naturalText p.seed
  | .absolute wellWidth boxLength _ _ =>
    "absolute-ww" ++ alignRight 4 (fixedText 2 wellWidth) ++ "-L" ++
      fillZeros 4 (fixedText 2 boxLength) ++ "-" ++ p.sphereTag

/-! ## Command lines -/

/-- The simulation program. -/
def program {α : Type} (p : SweepPlan α) : String := p.binFolder ++ "/free-energy-monte-carlo"

/-- How many moves pass between two adjustments of a fixed box: a tenth of the square of the
number of spheres, but no fewer than ten. -/
def adjustmentPeriod {α : Type} (p : SweepPlan α) : Nat := max (p.spheres * p.spheres / 10) 10

/-- The command line of a step.  A periodic step from filling fraction zero is an ideal gas
and has a program of its own. -/
def commandAt (p : SweepPlan Float) (ff ffSmall : Float) : List String :=
  let name := p.nameAt ff ffSmall
  let common := ["--iterations", naturalText p.iterations, "--filename", name,
    "--data_dir", p.folder]
  match p.flavor with
  | .periodic _ =>
    (if ff == 0 then [p.program ++ "-infinite-case"]
      else [p.program, "--ff", generalText 12 ff]) ++
      common ++ ["--ff_small", generalText 12 ffSmall]
  | .absolute _ _ _ _ =>
    ["srun", "-J", name, p.program, "--ff", general ff,
      "--sc_period", naturalText p.adjustmentPeriod] ++
      common ++ ["--ff_small", general ffSmall, "--N", naturalText p.spheres]

/-- The step of an index, from a filling fraction. -/
def stepAt (p : SweepPlan Float) (index : Nat) (ff : Float) : SweepStep Float :=
  let ffSmall := p.next index ff
  ⟨index, ff, ffSmall, p.nameAt ff ffSmall, p.folder, p.commandAt ff ffSmall⟩

end SweepPlan

end SphereLab
