import SphereLab.Figure.Basic
import SphereLab.FreeEnergy.Sweep

/-!
# Reporting sweeps

A summary of a sweep for the terminal, a table of all steps of some sweeps with commas
between cells, and a figure of their free energies beside the reference curve.
-/

namespace SphereLab

namespace Sweep

/-! ## The summary -/

/-- Numbers in brackets. -/
def listText (values : List Float) : String := "[" ++ ", ".intercalate (values.map general) ++ "]"

/-- The summary of a sweep. -/
def summary (s : Sweep Float) : String :=
  "=== free energy sweep (N = " ++ naturalText s.spheres ++ ") ===\n" ++
    "filling fractions: " ++ listText s.fractions ++ "\n" ++
    "success ratios:    " ++ listText s.ratios ++ "\n" ++
    "F/NkT:             " ++ listText s.freeEnergy ++ "\n"

/-! ## The table -/

/-- The records of a sweep with the free energies after them. -/
def points (s : Sweep Float) : List (SweepRecord Float × Float) := s.records.zip s.freeEnergy

/-- A line of cells. -/
def cells (cs : List String) : String := ",".intercalate cs ++ "\n"

/-- The names of the columns. -/
def columns : List String :=
  ["spheres", "step", "ff", "ff_small", "total_checks", "valid_checks", "ratio", "free_energy"]

/-- The line of a step. -/
def row (spheres step : Nat) (r : SweepRecord Float) (freeEnergy : Float) : String :=
  cells (naturalText spheres :: naturalText step ::
    [r.ff, r.ffSmall, r.tried, r.succeeded, r.ratio, freeEnergy].map Style.cell.text)

/-- The lines of a sweep. -/
def rows (s : Sweep Float) : List String :=
  s.points.mapIdx fun step (r, freeEnergy) => row s.spheres step r freeEnergy

/-- The table of some sweeps; one without lines has no names of columns either. -/
def table (sweeps : List (Sweep Float)) : String :=
  match sweeps.flatMap rows with
  | [] => ""
  | lines => String.join (cells columns :: lines)

/-- The failure to create the table. -/
def uncreatable (path : String) (e : PathError) : Failure :=
  .output ("Failed to create export CSV '" ++ path ++ "': " ++ e.message)

/-- Write the table of some sweeps to a file. -/
def writeTable (path : String) (sweeps : List (Sweep Float)) : Filing Unit :=
  .change fun d => (d.writeText path (table sweeps)).mapError (uncreatable path)

/-! ## The figure -/

/-- The place of a double in the order of all doubles: negative zero before zero, and
not-a-number last. -/
def orderKey (x : Float) : Nat :=
  let bits := x.toBits.toNat
  let half := Nat.pow 2 63
  if bits < half then half + bits else 2 * half - 1 - bits

/-- A list without the members that equal the one before. -/
def dropRepeats : List Float → List Float
  | [] => []
  | [x] => [x]
  | x :: y :: rest => if x == y then dropRepeats (x :: rest) else x :: dropRepeats (y :: rest)
termination_by xs => xs.length

/-- The markers of a sweep.  A sweep on its own is named for the method, one of several for
its number of spheres. -/
def markers (alone : Bool) (i : Nat) (s : Sweep Float) : Series Float :=
  let color := if alone then Color.blue else Color.ofIndex i
  let label := if alone then "Monte Carlo" else "N = " ++ naturalText s.spheres
  (Series.ofMarkers (s.points.map fun (r, freeEnergy) => (r.ffSmall, freeEnergy)) color
    .circle).labelled label

/-- The reference curve at all filling fractions that some sweeps led to. -/
def reference (sweeps : List (Sweep Float)) : List (Float × Float) :=
  let fractions := sweeps.flatMap fun s => s.points.map (·.1.ffSmall)
  (dropRepeats (fractions.mergeSort fun a b => decide (orderKey a ≤ orderKey b))).map fun eta =>
    (eta, FreeEnergy.carnahanStarling eta)

/-- The figure of some sweeps. -/
def figure (sweeps : List (Sweep Float)) : Figure Float :=
  let alone := sweeps.length == 1
  let curve := reference sweeps
  { Figure.blank "η" "F/NkT" with
    legend := some .upperLeft
    series := sweeps.mapIdx (markers alone) ++
      (if curve.isEmpty then []
        else [(Series.ofLine curve .green .solid).labelled "Carnahan-Starling"]) }

end Sweep

end SphereLab
