import SphereLab.Decimal.Style
import SphereLab.Figure.Basic

/-!
# Figures in characters

A figure is drawn on a grid of characters in three layers: guides, then lines, then markers.
A line writes only on cells that hold a blank or a guide, so the first of two lines wins and
a guide never hides data; a marker writes on anything.

`lineCells` is the path of a straight line through the grid; it starts and ends at the given
cells and goes from each cell to a neighbour.
-/

namespace SphereLab

namespace Canvas

/-! ## Straight lines -/

/-- A cell: its column and its row. -/
abbrev Cell := Int × Int

/-- The state of a straight line on its way: the cell, and the error term. -/
structure Pen where
  x : Int
  y : Int
  error : Int
  deriving DecidableEq, Repr

/-- One step of a straight line with the given extents (the second one negative) and
directions. -/
def Pen.step (dx dy sx sy : Int) (p : Pen) : Pen :=
  let twice := 2 * p.error
  let p' : Pen := if dy ≤ twice then ⟨p.x + sx, p.y, p.error + dy⟩ else p
  if twice ≤ dx then ⟨p'.x, p'.y + sy, p'.error + dx⟩ else p'

/-- The cells of a line from a pen on until it is at the target, at most `fuel` of them
besides the first. -/
def cellsFrom (dx dy sx sy : Int) (target : Cell) (p : Pen) : Nat → List Cell
  | 0 => [(p.x, p.y)]
  | fuel + 1 =>
    if p.x = target.1 ∧ p.y = target.2 then [(p.x, p.y)]
    else (p.x, p.y) :: cellsFrom dx dy sx sy target (p.step dx dy sx sy) fuel

/-- The cells of a straight line, from its start to its end. -/
def lineCells (start target : Cell) : List Cell :=
  let dx : Int := (target.1 - start.1).natAbs
  let dy : Int := -((target.2 - start.2).natAbs : Int)
  let sx : Int := if start.1 < target.1 then 1 else -1
  let sy : Int := if start.2 < target.2 then 1 else -1
  cellsFrom dx dy sx sy target ⟨start.1, start.2, dx + dy⟩
    (max (target.1 - start.1).natAbs (target.2 - start.2).natAbs)

/-! ## The grid -/

/-- Rows of characters, from top to bottom. -/
abbrev Grid := List (List Char)

/-- A grid of blanks. -/
def blankGrid (width height : Nat) : Grid := List.replicate height (List.replicate width ' ')

/-- The grid with one cell changed; a cell that is not on the grid changes nothing. -/
def modifyCell (f : Char → Char) (g : Grid) (c : Cell) : Grid :=
  if 0 ≤ c.1 ∧ 0 ≤ c.2 then g.modify c.2.toNat fun row => row.modify c.1.toNat f else g

/-- The grid with a character on a cell. -/
def put (ch : Char) (g : Grid) (c : Cell) : Grid := modifyCell (fun _ => ch) g c

/-- The grid with a character on a cell, if that holds a blank or a guide. -/
def putBelow (ch : Char) (g : Grid) (c : Cell) : Grid :=
  modifyCell (fun old => if old = ' ' ∨ old = ':' then ch else old) g c

/-- The grid with a straight line. -/
def drawLine (ch : Char) (g : Grid) (start target : Cell) : Grid :=
  (lineCells start target).foldl (putBelow ch) g

/-! ## From coordinates to cells -/

variable {α : Type} [Scalar α]

/-- A size of the grid and the ranges that it shows. -/
structure Frame (α : Type) where
  width : Nat
  height : Nat
  x : Range α
  y : Range α

/-- How far along a range a value lies, between zero and one. -/
def along (r : Range α) (v : α) : α :=
  let u := (v - r.1) / (r.2 - r.1)
  if u < 0 then 0 else if 1 < u then 1 else u

/-- The column of a horizontal coordinate. -/
def Frame.column (f : Frame α) (x : α) : Int :=
  max 0 (Scalar.toInt (Scalar.round (along f.x x * (Scalar.ofNat f.width - 1))))

/-- The row of a vertical coordinate; the greatest is on top. -/
def Frame.row (f : Frame α) (y : α) : Int :=
  let top : α := Scalar.ofNat f.height - 1
  max 0 (Scalar.toInt (Scalar.round (top - along f.y y * top)))

/-- The cell of a point. -/
def Frame.cell (f : Frame α) (p : α × α) : Cell := (f.column p.1, f.row p.2)

/-- Are both coordinates finite? -/
def isPlottable (p : α × α) : Bool := Scalar.isFinite p.1 && Scalar.isFinite p.2

/-- Does a value lie in a range, its ends included? -/
def within (r : Range α) (v : α) : Bool := decide (r.1 ≤ v) && decide (v ≤ r.2)

/-! ## Layers -/

/-- The grid with a guide, if it lies within the range. -/
def drawGuide (f : Frame α) (g : Grid) (guide : Guide α) : Grid :=
  match guide.orientation with
  | .horizontal =>
    if within f.y guide.place then
      drawLine ':' g (0, f.row guide.place) (f.width - 1, f.row guide.place)
    else g
  | .vertical =>
    if within f.x guide.place then
      drawLine ':' g (f.column guide.place, 0) (f.column guide.place, f.height - 1)
    else g

/-- The grid with the rest of a curve, of which the previous point may be on the grid.  A point
that is not finite breaks the curve; the first point after a break is written on anything. -/
def drawCurve (f : Frame α) (ch : Char) (previous : Option Cell) (g : Grid) :
    List (α × α) → Grid
  | [] => g
  | p :: rest =>
    if isPlottable p then
      let cell := f.cell p
      match previous with
      | some start => drawCurve f ch (some cell) (drawLine ch g start cell) rest
      | none => drawCurve f ch (some cell) (put ch g cell) rest
    else drawCurve f ch none g rest

/-- Is the point of a marker shown? -/
def isShown (f : Frame α) (p : α × α) : Bool :=
  isPlottable p && within f.x p.1 && within f.y p.2

/-- The grid with markers at points. -/
def drawMarkers (f : Frame α) (ch : Char) (g : Grid) (points : List (α × α)) : Grid :=
  (points.filter (isShown f)).foldl (fun g p => put ch g (f.cell p)) g

/-- The characters of lines, by the position of their series. -/
def lineGlyphs : List Char := ['*', '#', '+', '=', '%', '@', '&', '$']

/-- The character of a series. -/
def glyph (index : Nat) (s : Series α) : Char :=
  match s.marker with
  | .circle => 'o'
  | .cross => 'x'
  | .dot => '.'
  | .none => (lineGlyphs[index % lineGlyphs.length]?).getD '*'

/-- The series of a figure, each with its character. -/
def glyphed (fig : Figure α) : List (Char × Series α) :=
  fig.series.mapIdx fun i s => (glyph i s, s)

/-- Is a series shown as a line? -/
def isLine (s : Series α) : Bool := s.line != .none && s.marker == .none

/-- Is a series shown as markers? -/
def isMarked (s : Series α) : Bool := s.marker != .none

/-- The plot area of a figure: guides, lines, markers. -/
def plotArea (f : Frame α) (fig : Figure α) : Grid :=
  let guides := fig.guides.foldl (drawGuide f) (blankGrid f.width f.height)
  let lines := ((glyphed fig).filter fun s => isLine s.2).foldl
    (fun g s => drawCurve f s.1 none g s.2.points) guides
  ((glyphed fig).filter fun s => isMarked s.2).foldl
    (fun g s => drawMarkers f s.1 g s.2.points) lines

end Canvas

/-! ## The text -/

namespace Figure

/-- A range in the heading of a plot. -/
def rangeText (label : String) (r : Range Float) : String :=
  label ++ "=[" ++ fixedText 3 r.1 ++ ", " ++ fixedText 3 r.2 ++ "]"

/-- The lines of the legend. -/
def legendLines (fig : Figure Float) : List String :=
  (Canvas.glyphed fig).filterMap fun (ch, s) =>
    s.label.map fun label => "  " ++ String.ofList [ch] ++ "  " ++ label

/-- A figure in characters, with at least ten columns and five rows for the plot area. -/
def toText (fig : Figure Float) (width height : Nat) : String :=
  match fig.bounds? with
  | none => "Plot: (no data)\n"
  | some (x, y) =>
    let frame : Canvas.Frame Float := ⟨max width 10, max height 5, x, y⟩
    let heading := "Plot: " ++ rangeText fig.xLabel x ++ " | " ++ rangeText fig.yLabel y
    let rows := (Canvas.plotArea frame fig).map String.ofList
    String.join ((heading :: rows ++ fig.legendLines).map (· ++ "\n"))

end Figure

end SphereLab
