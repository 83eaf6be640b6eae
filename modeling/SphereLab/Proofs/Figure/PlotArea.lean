import Mathlib
import SphereLab.Proofs.Figure.Cells

/-!
# The plot area of a figure

A figure whose axes have ranges is shown as a heading, the rows of its plot area and its legend.  The
plot area has the size that was asked for, or ten columns and five rows if that is more, and its cells
show data before guides and markers before lines, whatever the coordinates are.

* `IsPlot`: what a plot area is like.
* `isPlot_plotArea`: every plot area is like that.
* `toText_of_bounds`: figures in characters.
-/

namespace SphereLab

namespace Canvas

section Plot

variable {α : Type} [Scalar α]

/-- A grid shows a figure in a frame. -/
structure IsPlot (f : Frame α) (fig : Figure α) (g : Grid) : Prop where
  /-- It has the rows and columns of the frame. -/
  size : HasSize g f.width f.height
  /-- A cell shows the last marker on it, or else a line through it, or else a guide, or else
  nothing. -/
  shows : ∀ c, f.Contains c → ∃ ch, at? g c = some ch ∧ Shows f fig c ch
  /-- With other guides, the cells with data on them would show the same. -/
  guides_below : ∀ guides c, f.Contains c →
    (markersOn f fig c ≠ [] ∨ ∃ s ∈ lineSeries fig, OnPath f s.2.points c) →
      at? (plotArea f { fig with guides := guides }) c = at? g c
  /-- The cell of a finite marker in range shows a marker. -/
  markers_above : ∀ s ∈ markedSeries fig, ∀ p ∈ s.2.points, isShown f p = true →
    f.Contains (f.cell p) → ∃ ch ∈ markerGlyphs, at? g (f.cell p) = some ch
  /-- Without the other markers, the grid would be the same. -/
  outside : plotArea f { fig with series := fig.series.map (onlyShown f) } = g

theorem hasSize_plotArea (f : Frame α) (fig : Figure α) :
    HasSize (plotArea f fig) f.width f.height := by
  rw [plotArea_eq_paint]
  exact (hasSize_blankGrid f.width f.height).paint (strokes f fig)

theorem isPlot_plotArea (f : Frame α) (fig : Figure α) : IsPlot f fig (plotArea f fig) where
  size := hasSize_plotArea f fig
  shows _ hc := exists_shows hc
  guides_below guides _ hc hdata := at?_plotArea_of_guides guides hc hdata
  markers_above _ hs _ hp hshown hc := exists_marker_at? hs hp hshown hc
  outside := plotArea_onlyShown f fig

end Plot

end Canvas

namespace Figure

open Canvas

/-- **Figures in characters.**  A figure whose axes have ranges is shown as its heading, its plot area
and its legend.  The plot area is what the strokes of the figure leave on a blank grid; none of them is
off the grid, wherever the points are, as long as doubles tell the columns and the rows apart: a row of
`2 ^ 53` characters fits no memory. -/
theorem toText_of_bounds {fig : Figure Float} {x y : Range Float} (h : fig.bounds? = some (x, y))
    (width height : ℕ) :
    let f : Frame Float := ⟨max width 10, max height 5, x, y⟩
    fig.toText width height =
        String.join (((("Plot: " ++ rangeText fig.xLabel x ++ " | " ++ rangeText fig.yLabel y) ::
          (plotArea f fig).map String.ofList) ++ fig.legendLines).map (· ++ "\n")) ∧
      IsPlot f fig (plotArea f fig) ∧
      plotArea f fig = paint (blankGrid f.width f.height) (strokes f fig) ∧
      (f.width < 2 ^ 53 → f.height < 2 ^ 53 →
        (∀ p, f.Contains (f.cell p)) ∧ ∀ s ∈ strokes f fig, f.Contains s.cell) := by
  intro f
  have hwidth : 0 < f.width := Nat.lt_of_lt_of_le (by decide) (le_max_right width 10)
  have hheight : 0 < f.height := Nat.lt_of_lt_of_le (by decide) (le_max_right height 5)
  refine ⟨?_, isPlot_plotArea f fig, plotArea_eq_paint f fig, fun hwidth' hheight' => ?_⟩
  · rw [toText, h]
  · have hall : ∀ p, f.Contains (f.cell p) := contains_cell hwidth hwidth' hheight hheight'
    exact ⟨hall, fun s hs => contains_of_mem_strokes hall hs⟩

/-- A line that rises across a guide, with a marker on its end and one out of range. -/
def crossing : Figure Float :=
  { blank "x" "y" with
    xRange := some (0.0, 9.0)
    yRange := some (0.0, 4.0)
    series := [.ofLine [(0.0, 0.0), (9.0, 4.0)] .blue .solid,
      .ofMarkers [(9.0, 4.0), (20.0, 1.0)] .red .circle]
    guides := [⟨.horizontal, 2.0, .black, .dashed⟩] }

/-- The frame of that figure, one column and one row for each unit. -/
def crossingFrame : Frame Float := ⟨10, 5, (0.0, 9.0), (0.0, 4.0)⟩

theorem toText_crossing :
    crossing.bounds? = some ((0.0, 9.0), (0.0, 4.0)) ∧
      IsPlot crossingFrame crossing (plotArea crossingFrame crossing) ∧
      (∀ s ∈ strokes crossingFrame crossing, crossingFrame.Contains s.cell) ∧
      (plotArea crossingFrame crossing).map String.ofList =
        ["        *o",
         "      **  ",
         "::::**::::",
         "  **      ",
         "**        "] := by
  have hbounds : crossing.bounds? = some ((0.0, 9.0), (0.0, 4.0)) := by decide +kernel
  obtain ⟨-, hplot, -, hcontained⟩ := toText_of_bounds hbounds 10 5
  exact ⟨hbounds, hplot, (hcontained (by decide) (by decide)).2, by decide +kernel⟩

end Figure

end SphereLab
