import SphereLab.Scalar

/-!
# Figures

A figure is plain data: series of points with a look, guide lines across the whole plot,
texts at points, and optional ranges and ticks.  `Figure.bounds?` gives the ranges of the
axes.  How a figure is shown is the business of `Figure.Canvas` (characters) and of
`Figure.Drawing` (vector graphics).
-/

namespace SphereLab

/-! ## Looks -/

/-- The colours of plots. -/
inductive Color where
  | red
  | green
  | blue
  | cyan
  | magenta
  | black
  | yellow
  deriving DecidableEq, Repr

namespace Color

/-- The order in which curves get their colours. -/
def cycle : List Color :=
  [.red, .green, .blue, .cyan, .magenta, .black, .yellow, .green, .red, .blue]

/-- The colour of a curve by its position; after the last colour comes the first. -/
def ofIndex (i : Nat) : Color := (cycle[i % cycle.length]?).getD .red

/-- The parts of red, green and blue, out of 255. -/
def rgb : Color → Nat × Nat × Nat
  | .red => (255, 0, 0)
  | .green => (0, 128, 0)
  | .blue => (0, 0, 255)
  | .cyan => (0, 191, 191)
  | .magenta => (191, 0, 191)
  | .black => (0, 0, 0)
  | .yellow => (191, 191, 0)

end Color

/-- How the points of a series are connected. -/
inductive LineStyle where
  | solid
  | dashed
  | dotted
  | none
  deriving DecidableEq, Repr

/-- What stands at the points of a series. -/
inductive Marker where
  | none
  | circle
  | cross
  | dot
  deriving DecidableEq, Repr

/-! ## Parts of a figure -/

/-- Points in the order in which they are connected, and their look. -/
structure Series (α : Type) where
  label : Option String
  points : List (α × α)
  color : Color
  line : LineStyle
  marker : Marker

namespace Series

variable {α : Type}

/-- Points connected by a line. -/
def ofLine (points : List (α × α)) (color : Color) (line : LineStyle) : Series α :=
  ⟨none, points, color, line, .none⟩

/-- Points with markers and no line. -/
def ofMarkers (points : List (α × α)) (color : Color) (marker : Marker) : Series α :=
  ⟨none, points, color, .none, marker⟩

/-- The series with a label. -/
def labelled (s : Series α) (label : String) : Series α := { s with label := some label }

end Series

/-- The direction of a guide. -/
inductive Orientation where
  | horizontal
  | vertical
  deriving DecidableEq, Repr

/-- A line across the whole plot. -/
structure Guide (α : Type) where
  orientation : Orientation
  place : α
  color : Color
  line : LineStyle

/-- A text centred below a point. -/
structure Note (α : Type) where
  text : String
  x : α
  y : α

/-- The corner of the legend. -/
inductive LegendCorner where
  | upperLeft
  | upperRight
  deriving DecidableEq, Repr

/-- A range: a lower and an upper end. -/
abbrev Range (α : Type) := α × α

/-- A figure. -/
structure Figure (α : Type) where
  title : Option String
  xLabel : String
  yLabel : String
  xRange : Option (Range α)
  yRange : Option (Range α)
  series : List (Series α)
  guides : List (Guide α)
  notes : List (Note α)
  /-- Ticks of the vertical axis with their labels, unless they are chosen automatically. -/
  yTicks : Option (List (α × String))
  legend : Option LegendCorner
  /-- The size in pixels, as vector graphics. -/
  size : Nat × Nat

namespace Figure

variable {α : Type}

/-- A figure with nothing but labels of its axes. -/
def blank (xLabel yLabel : String) : Figure α :=
  ⟨none, xLabel, yLabel, none, none, [], [], [], none, none, (800, 600)⟩

/-- Has some series a label? -/
def hasLabels (f : Figure α) : Bool := f.series.any (·.label.isSome)

/-! ## Bounds -/

variable [Scalar α]

/-- The least and the greatest of the finite values, if there are any. -/
def extent? (values : List α) : Option (Range α) :=
  match values.filter Scalar.isFinite with
  | [] => none
  | v :: vs => some (vs.foldl Scalar.minOf v, vs.foldl Scalar.maxOf v)

/-- A range with a twentieth of its length added at both ends, or, if it is a single value, a
twentieth of that value's size or of one. -/
def padded (r : Range α) : Range α :=
  let span := Scalar.abs (r.2 - r.1)
  let pad := if 0 < span then span * 0.05 else Scalar.maxOf (Scalar.abs r.1) 1 * 0.05
  (r.1 - pad, r.2 + pad)

/-- The range of an axis: the one that is set, or that of the values, padded. -/
def axisRange? (set : Option (Range α)) (values : List α) : Option (Range α) :=
  match set with
  | some r => some r
  | none => (extent? values).map padded

/-- All horizontal coordinates. -/
def xs (f : Figure α) : List α := f.series.flatMap fun s => s.points.map (·.1)

/-- All vertical coordinates. -/
def ys (f : Figure α) : List α := f.series.flatMap fun s => s.points.map (·.2)

/-- The ranges of both axes.  There are none without a finite coordinate on an axis that has
no range set, and none that do not go upward. -/
def bounds? (f : Figure α) : Option (Range α × Range α) :=
  match axisRange? f.xRange f.xs, axisRange? f.yRange f.ys with
  | some x, some y => if x.1 < x.2 ∧ y.1 < y.2 then some (x, y) else none
  | _, _ => none

end Figure

end SphereLab
