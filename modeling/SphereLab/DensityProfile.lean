import SphereLab.DataFile.Table
import SphereLab.Figure.Basic
import SphereLab.PairCorrelation.Reference
import SphereLab.PathText

/-!
# Density profiles

A profile file has the radius in its first column and nine number densities behind it.  They
are shown as filling fractions of spheres of radius one.
-/

namespace SphereLab

namespace DensityProfile

/-- The names of the density columns. -/
def columnNames : List String :=
  ["density", "small contact density", "small centered contact density",
   "medium contact density", "medium centered contact density", "large contact density",
   "large centered contact density", "huge contact density", "huge centered contact density"]

/-- The volume of a sphere of radius one. -/
def unitVolume : Float := 4.0 * piDouble / 3.0

/-- The failure of a file with too few columns. -/
def tooNarrow (path : String) (width : Nat) : Failure :=
  .data ("'" ++ path ++ "' has " ++ naturalText width ++
    " columns; a radius column plus " ++ naturalText columnNames.length ++
    " density columns are required")

/-- One column of densities; circles and crosses take turns. -/
def series (radius : List Float) (t : Table) (i : Nat) (name : String) : Series Float :=
  let values := t.rows.filterMap (·[i + 1]?)
  let points := (radius.zip values).map fun (r, n) => (r, n * unitVolume)
  ⟨some name, points, Color.ofIndex i, .solid, if i % 2 = 0 then .circle else .cross⟩

/-- The figure of a profile file. -/
def figure (d : Directory) (path : String) : Except Failure (Figure Float) :=
  match Table.load d path with
  | .error e => .error e
  | .ok t =>
    if t.width < columnNames.length + 1 then .error (tooNarrow path t.width)
    else
      let radius := t.rows.filterMap (·[0]?)
      .ok
        { Figure.blank "radius" "filling fraction" with
          legend := some .upperLeft
          title := PathText.fileName? path
          series := columnNames.mapIdx (series radius t) }

/-- The path of the figure of a file: beside it, or in a given folder. -/
def figurePath (input : String) (folder : Option String) : String :=
  let stem := (PathText.stem? input).getD "density"
  let folder := folder <|> PathText.parent? input
  joinPath (folder.getD "") (stem ++ ".svg")

end DensityProfile

end SphereLab
