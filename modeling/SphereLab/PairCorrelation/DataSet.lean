import SphereLab.DataFile.Table
import SphereLab.PairCorrelation.Reference

/-!
# Simulated pair correlations

A simulation leaves one table for each filling fraction: the distance in the first column, the
number density in the second.  `DataSet.load` reads those that exist, densest first, and turns
densities into pair correlations.  All tables have to be of one height.
-/

namespace SphereLab

/-- The pair correlation of one filling fraction, point by point. -/
structure DataSet (α : Type) where
  /-- The position of the filling fraction in the list that was asked for. -/
  index : Nat
  eta : α
  /-- The contact value at the filling fraction. -/
  contact : α
  r : List α
  g : List α

namespace DataSet

/-- The filling fractions that are simulated, densest first. -/
def fillingFractions : List Float := [0.45, 0.4, 0.35, 0.3, 0.25, 0.2, 0.15, 0.1, 0.05]

/-- The path of a filling fraction's table. -/
def path (base : String) (eta : Float) : String :=
  base ++ "-" ++ alignRight 4 (fixedText 2 eta) ++ ".dat"

/-- Why the tables cannot be used together. -/
inductive Fault where
  | none (base : String)
  | heights (path : String) (height : Nat) (first : String) (expected : Nat)

/-- The failure that a fault amounts to. -/
def Fault.failure : Fault → Failure
  | .none base => .input ("No Monte Carlo g(r) files found for base '" ++ base ++ "'")
  | .heights path height first expected =>
    .data ("'" ++ path ++ "' has " ++ naturalText height ++ " radial points but '" ++ first ++
      "' has " ++ naturalText expected)

/-- The data set of a table. -/
def ofTable (index : Nat) (eta : Float) (t : Table) : Except Failure (DataSet Float) := do
  let r ← (t.column 0).mapError (·.failure)
  let n ← (t.column 1).mapError (·.failure)
  return ⟨index, eta, contactValue eta, r, n.map (· / eta)⟩

/-- Load the tables of numbered filling fractions, where `first` is the set that came first. -/
def loadFrom (d : Directory) (base : String) (first : Option (DataSet Float)) :
    List (Nat × Float) → Except Failure (List (DataSet Float))
  | [] => .ok []
  | (index, eta) :: rest => do
    let path := path base eta
    if d.isFile path then
      let set ← ofTable index eta (← Table.load d path)
      match first with
      | some f =>
        if f.r.length = set.r.length then
          return set :: (← loadFrom d base first rest)
        else
          .error (Fault.failure
            (.heights path set.r.length (DataSet.path base f.eta) f.r.length))
      | none => return set :: (← loadFrom d base (some set) rest)
    else loadFrom d base first rest

/-- Load the tables that exist; there has to be one. -/
def load (d : Directory) (base : String) (etas : List Float) :
    Except Failure (List (DataSet Float)) := do
  let sets ← loadFrom d base none (etas.mapIdx fun i eta => (i, eta))
  if sets.isEmpty then .error (Fault.failure (.none base)) else return sets

end DataSet

end SphereLab
