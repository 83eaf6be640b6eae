import SphereLab.Figure.Basic
import SphereLab.Filing

/-!
# Figures as vector graphics

A figure becomes a `Drawing`: what a renderer is asked for, in the order in which it is to be
drawn, with places given as points of the data.  Margins and fonts are the same for all figures
and are left to the renderer.

Which pixels and which markup come of a drawing is the renderer's business.  It is a parameter
of everything that writes figures, and all that is assumed of it is said by `Renderer.Writes`:
where its file is, and that it leaves everything else alone.

Every point of a series with markers gets its mark, also one outside the ranges.  A label
enters the legend if its series is drawn as a line or as markers.
-/

namespace SphereLab

/-! ## Elements -/

/-- A point of the data. -/
abbrev DataPoint := Float × Float

/-- What is drawn into a plot. -/
inductive Element where
  /-- A line through points, with the lengths of dashes and gaps unless it is solid. -/
  | path (points : List DataPoint) (color : Color) (dashes : Option (Nat × Nat))
  | circle (centre : DataPoint) (radius : Nat) (color : Color) (filled : Bool)
  | cross (centre : DataPoint) (radius : Nat) (color : Color)
  /-- A short line out of the vertical axis, and a text beside it. -/
  | tick (text : String) (place : DataPoint)
  /-- A text centred below a point. -/
  | note (text : String) (place : DataPoint)

/-- A drawing of a size. -/
structure Drawing where
  size : Nat × Nat
  x : Range Float
  y : Range Float
  caption : Option String
  xLabel : String
  yLabel : String
  /-- Does the renderer choose the ticks of the vertical axis? -/
  chosenTicks : Bool
  /-- What is drawn into the plot, from first to last. -/
  elements : List Element
  /-- The corner of the legend, and its entries. -/
  legend : Option (LegendCorner × List (String × Color))

namespace Drawing

/-! ## Drawing -/

/-- The lengths of dashes and gaps. -/
def dashesOf : LineStyle → Option (Nat × Nat)
  | .dashed => some (8, 5)
  | .dotted => some (2, 3)
  | .solid | .none => none

/-- A line through points, if it has a style. -/
def ofPath (points : List DataPoint) (color : Color) (style : LineStyle) : List Element :=
  if style = .none then [] else [.path points color (dashesOf style)]

/-- A guide from one end of the plot to the other. -/
def ofGuide (x y : Range Float) (g : Guide Float) : List Element :=
  let ends := match g.orientation with
    | .horizontal => [(x.1, g.place), (x.2, g.place)]
    | .vertical => [(g.place, y.1), (g.place, y.2)]
  ofPath ends g.color g.line

/-- The mark of a point. -/
def ofPoint (marker : Marker) (color : Color) (centre : DataPoint) : List Element :=
  match marker with
  | .none => []
  | .circle => [.circle centre 3 color false]
  | .dot => [.circle centre 2 color true]
  | .cross => [.cross centre 3 color]

/-- A series: its line, then its marks. -/
def ofSeries (s : Series Float) : List Element :=
  ofPath s.points s.color s.line ++ s.points.flatMap (ofPoint s.marker s.color)

/-- The label of a series that is drawn at all. -/
def legendOf (s : Series Float) : Option (String × Color) :=
  if s.line = .none ∧ s.marker = .none then none else s.label.map fun l => (l, s.color)

end Drawing

/-- The figure has no ranges. -/
structure Figure.NoBounds where

/-- The figure has no ranges, in words. -/
def Figure.NoBounds.message (_ : Figure.NoBounds) : String :=
  "figure has no finite data to derive axis ranges from"

open Drawing in
/-- The drawing of a figure. -/
def Figure.draw (fig : Figure Float) : Except Figure.NoBounds Drawing :=
  match fig.bounds? with
  | none => .error ⟨⟩
  | some (x, y) =>
    .ok
      { size := fig.size
        x := x
        y := y
        caption := fig.title
        xLabel := fig.xLabel
        yLabel := fig.yLabel
        chosenTicks := fig.yTicks.isNone
        elements :=
          fig.guides.flatMap (ofGuide x y) ++ fig.series.flatMap ofSeries ++
          ((fig.yTicks.getD []).map fun (place, label) => .tick label (x.1, place)) ++
          fig.notes.map fun a => .note a.text (a.x, a.y)
        legend := if fig.hasLabels then
            fig.legend.map fun corner => (corner, fig.series.filterMap legendOf)
          else none }

/-! ## Renderers -/

/-- What puts a drawing at a path of a directory.  It may fail, for a reason in words, and may
have changed the directory even then. -/
abbrev Renderer := Drawing → String → Directory → Option String × Directory

namespace Renderer

/-- A renderer that succeeds has written its image of the drawing to the path, and nothing
else. -/
def Writes (render : Renderer) (image : Drawing → Contents) : Prop :=
  ∀ ⦃drawing path d d'⦄, render drawing path d = (none, d') →
    d.writeFrom d.home path (image drawing) = .ok d'

/-- The renderer that writes images as texts and can do no more than fail to write them. -/
def ofTexts (image : Drawing → String) : Renderer := fun drawing path d =>
  match d.writeText path (image drawing) with
  | .ok d' => (none, d')
  | .error e => (some ("backend error: Drawing backend error: " ++ e.message), d)

theorem ofTexts_writes (image : Drawing → String) :
    (ofTexts image).Writes fun drawing => .text (image drawing) := by
  intro drawing path d d' h
  rw [ofTexts, Directory.writeText] at h
  split at h
  · rename_i written hwrite
    rw [hwrite, (Prod.mk.inj h).2]
  · exact absurd (Prod.mk.inj h).1 (by simp)

end Renderer

/-! ## Files -/

/-- The failure to make a figure file. -/
def Figure.unrendered (path reason : String) : Failure :=
  .output ("Failed to render figure '" ++ path ++ "': " ++ reason)

/-- Put the drawing of a figure at a path. -/
def Figure.write (render : Renderer) (path : String) (fig : Figure Float) : Filing Unit :=
  match fig.draw with
  | .error e => .look fun _ => .error (Figure.unrendered path e.message)
  | .ok drawing => fun d =>
    match render drawing path d with
    | (some reason, d) => (.error (Figure.unrendered path reason), d)
    | (none, d) => (.ok (), d)

end SphereLab
