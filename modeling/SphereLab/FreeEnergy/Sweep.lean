import SphereLab.DataFile.Header
import SphereLab.Filing
import SphereLab.FreeEnergy.Estimate
import SphereLab.FreeEnergy.Schedule

/-!
# Running a sweep

A sweep takes its steps one after another.  A step whose output file is there is read back;
any other is simulated first.  What the header of the file says --- where the step led, how
many insertions were tried and how many succeeded --- makes the record of the step, and the
next step starts where it led.

The simulator is a parameter: a function from a command line, a state of its own and a
directory.  It may do anything to the directory, and it may fail.  The site of a sweep keeps
the command lines that the simulator was called with, in order.
-/

namespace SphereLab

/-! ## Simulators -/

/-- A simulator with a state of its own: what a call with a command line does to the state and
to a directory, and the failure it ends in, if it does. -/
abbrev Simulator (σ : Type) := List String → σ × Directory → Option Failure × σ × Directory

/-- Where a sweep happens. -/
structure Site (σ : Type) where
  state : σ
  directory : Directory
  /-- The command lines of all calls, in order. -/
  calls : List (List String)

/-- The site after a call of the simulator. -/
def Site.call {σ : Type} (simulate : Simulator σ) (command : List String) (s : Site σ) :
    Option Failure × Site σ :=
  match simulate command (s.state, s.directory) with
  | (failure, state, directory) => (failure, ⟨state, directory, s.calls ++ [command]⟩)

/-! ## Records -/

/-- What a step came to. -/
structure SweepRecord (α : Type) where
  ff : α
  ffSmall : α
  /-- How many insertions were tried. -/
  tried : α
  /-- How many insertions succeeded. -/
  succeeded : α
  ratio : α

/-- What a sweep came to. -/
structure Sweep (α : Type) where
  spheres : Nat
  records : List (SweepRecord α)
  /-- The free energy for one sphere after each step. -/
  freeEnergy : List α

namespace Sweep

/-- Where the steps led. -/
def fractions {α : Type} (s : Sweep α) : List α := s.records.map (·.ffSmall)

/-- The shares of insertions that succeeded. -/
def ratios {α : Type} (s : Sweep α) : List α := s.records.map (·.ratio)

/-- The sweep that records amount to by a logarithm. -/
def ofRecordsWith {α : Type} [Scalar α] (log : α → α) (spheres : Nat)
    (records : List (SweepRecord α)) : Sweep α :=
  ⟨spheres, records, FreeEnergy.cumulativeWith log spheres (records.map (·.ratio))⟩

/-- The sweep that records amount to. -/
def ofRecords {α : Type} [Scalar α] (spheres : Nat) (records : List (SweepRecord α)) : Sweep α :=
  .ofRecordsWith Scalar.log spheres records

end Sweep

/-! ## Faults -/

/-- Why a sweep cannot be run or read. -/
inductive SweepFault where
  | noSpheres
  | nothingTried (path : String)
  | nothingSucceeded (path : String)
  deriving DecidableEq, Repr

/-- The failure that a fault amounts to. -/
def SweepFault.failure : SweepFault → Failure
  | .noSpheres => .input "The periodic sweep needs at least one sphere."
  | .nothingTried path => .data ("'" ++ path ++ "' reports no small-cell checks")
  | .nothingSucceeded path =>
    .data ("'" ++ path ++ "' reports no valid small-cell checks; the free energy diverges")

/-! ## Reading a step back -/

namespace SweepStep

/-- The number under a key of a header. -/
def entryOf (s : SweepStep Float) (h : Header) (key : String) : Except Failure Float :=
  (h.number key).mapError (·.failure s.output)

/-- The record of a step from its header.  Both counts have to be above zero. -/
def recordOf (s : SweepStep Float) (h : Header) : Except Failure (SweepRecord Float) := do
  let ffSmall ← s.entryOf h "ff_small"
  let tried ← s.entryOf h "total checks of small cell"
  let succeeded ← s.entryOf h "total valid small checks"
  if tried ≤ 0 then .error (SweepFault.failure (.nothingTried s.output))
  else if succeeded ≤ 0 then .error (SweepFault.failure (.nothingSucceeded s.output))
  else return ⟨s.ff, ffSmall, tried, succeeded, succeeded / tried⟩

/-- The record of a step from its file. -/
def record (s : SweepStep Float) (d : Directory) : Except Failure (SweepRecord Float) := do
  s.recordOf (← Header.load d s.output)

/-- See to it that a step has been simulated: its simulator is called unless its file is
there. -/
def ensure {σ : Type} (s : SweepStep Float) (simulate : Simulator σ) (site : Site σ) :
    Option Failure × Site σ :=
  if site.directory.isFile s.output then (none, site) else site.call simulate s.command

end SweepStep

/-! ## The sweep -/

namespace SweepPlan

/-- Take a number of steps from an index and a filling fraction on. -/
def recordsFrom {σ : Type} (p : SweepPlan Float) (simulate : Simulator σ) :
    Nat → Nat → Float → Site σ → Except Failure (List (SweepRecord Float)) × Site σ
  | 0, _, _, site => (.ok [], site)
  | left + 1, index, ff, site =>
    let step := p.stepAt index ff
    match step.ensure simulate site with
    | (some failure, site) => (.error failure, site)
    | (none, site) =>
      match step.record site.directory with
      | .error failure => (.error failure, site)
      | .ok record =>
        match p.recordsFrom simulate left (index + 1) record.ffSmall site with
        | (.error failure, site) => (.error failure, site)
        | (.ok records, site) => (.ok (record :: records), site)

/-- Is this a periodic sweep without spheres? -/
def isEmptyCell {α : Type} (p : SweepPlan α) : Bool :=
  match p.flavor with
  | .periodic _ => p.spheres == 0
  | .absolute _ _ _ _ => false

/-- Run a sweep, or read it back, and take its free energies by a logarithm. -/
def runWith {σ : Type} (log : Float → Float) (p : SweepPlan Float) (simulate : Simulator σ)
    (site : Site σ) : Except Failure (Sweep Float) × Site σ :=
  if p.isEmptyCell then (.error (SweepFault.failure .noSpheres), site)
  else
    match site.directory.createFolders p.folder with
    | .error e => (.error (Filing.uncreatable p.folder e), site)
    | .ok directory =>
      match p.recordsFrom simulate p.steps 0 (p.initialFraction piDouble)
          { site with directory := directory } with
      | (.error failure, site) => (.error failure, site)
      | (.ok records, site) => (.ok (.ofRecordsWith log p.spheres records), site)

/-- Run a sweep, or read it back. -/
def run {σ : Type} (p : SweepPlan Float) (simulate : Simulator σ) (site : Site σ) :
    Except Failure (Sweep Float) × Site σ :=
  p.runWith Scalar.log simulate site

end SweepPlan

end SphereLab
