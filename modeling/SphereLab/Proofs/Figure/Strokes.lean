import Mathlib
import SphereLab.Proofs.Figure.Straight

/-!
# A plot as a list of strokes

All that is drawn on a grid are strokes: a character for a cell, which is written on anything or only
on a blank or a guide.  A plot area is a blank grid with strokes on it, one after the other, and what a
cell shows at the end is decided by the strokes on that cell alone.

* `at?_paint`: a cell of a painted grid.
* `HasSize`: a grid has rows of one length, and painting keeps them.
* `plotArea_eq_paint`: the strokes of a figure.
-/

namespace SphereLab

namespace Canvas

/-! ## Looking at a grid -/

/-- The character on a cell, if that is on the grid. -/
def at? (g : Grid) (c : Cell) : Option Char :=
  if 0 ≤ c.1 ∧ 0 ≤ c.2 then g[c.2.toNat]?.bind (·[c.1.toNat]?) else none

/-- A grid has so many rows of so many characters. -/
structure HasSize (g : Grid) (width height : ℕ) : Prop where
  height : g.length = height
  width : ∀ row ∈ g, row.length = width

section Grid

variable {g : Grid} {width height : ℕ}

theorem hasSize_blankGrid (width height : ℕ) : HasSize (blankGrid width height) width height := by
  refine ⟨List.length_replicate, fun row hrow => ?_⟩
  rw [List.eq_of_mem_replicate hrow, List.length_replicate]

theorem HasSize.modifyCell (h : HasSize g width height) (f : Char → Char) (c : Cell) :
    HasSize (modifyCell f g c) width height := by
  rw [Canvas.modifyCell]
  split
  · refine ⟨by rw [List.length_modify, h.height], fun row hrow => ?_⟩
    obtain ⟨k, hk⟩ := List.mem_iff_getElem?.mp hrow
    rw [List.getElem?_modify] at hk
    obtain ⟨before, hbefore, rfl⟩ := Option.map_eq_some_iff.mp hk
    have hlength := h.width before (List.mem_of_getElem? hbefore)
    split
    · rwa [List.length_modify]
    · exact hlength
  · exact h

/-- The cells of a grid have a character. -/
theorem HasSize.exists_at? (h : HasSize g width height) {c : Cell} (hcolumn : 0 ≤ c.1)
    (hcolumn' : c.1 < width) (hrow : 0 ≤ c.2) (hrow' : c.2 < height) :
    ∃ ch, at? g c = some ch := by
  have hheight := h.height
  have hrow : c.2.toNat < g.length := by omega
  have hwidth := h.width g[c.2.toNat] (List.getElem_mem hrow)
  have hcolumn : c.1.toNat < (g[c.2.toNat]).length := by omega
  refine ⟨(g[c.2.toNat])[c.1.toNat], ?_⟩
  rw [at?, if_pos ⟨by assumption, by assumption⟩, List.getElem?_eq_getElem hrow, Option.bind_some,
    List.getElem?_eq_getElem hcolumn]

theorem at?_blankGrid {c : Cell} {ch : Char} (h : at? (blankGrid width height) c = some ch) :
    ch = ' ' := by
  rw [at?] at h
  split at h
  · obtain ⟨row, hrow, hch⟩ := Option.bind_eq_some_iff.mp h
    rw [List.eq_of_mem_replicate (List.mem_of_getElem? hrow)] at hch
    exact List.eq_of_mem_replicate (List.mem_of_getElem? hch)
  · exact absurd h (by simp)

theorem at?_modifyCell (f : Char → Char) (g : Grid) (c c' : Cell) :
    at? (modifyCell f g c) c' = if c = c' then (at? g c').map f else at? g c' := by
  by_cases hc : 0 ≤ c.1 ∧ 0 ≤ c.2
  · by_cases hc' : 0 ≤ c'.1 ∧ 0 ≤ c'.2
    · rw [modifyCell, if_pos hc, at?, if_pos hc', at?, if_pos hc', List.getElem?_modify]
      have heq : c = c' ↔ c.1.toNat = c'.1.toNat ∧ c.2.toNat = c'.2.toNat := by
        rw [Prod.ext_iff]
        omega
      simp only [heq]
      cases g[c'.2.toNat]? with
      | none => simp
      | some row =>
        by_cases hrow : c.2.toNat = c'.2.toNat
        · by_cases hcolumn : c.1.toNat = c'.1.toNat
          · simp [hrow, hcolumn]
          · simp [hrow, hcolumn]
        · simp [hrow]
    · have hnone : ∀ g, at? g c' = none := fun g => if_neg hc'
      rw [hnone, hnone, Option.map_none, ite_self]
  · rw [modifyCell, if_neg hc]
    split
    · rename_i heq
      rw [at?, if_neg (heq ▸ hc), Option.map_none]
    · rfl

end Grid

/-! ## Strokes -/

/-- A character for a cell, written on anything or only on a blank or a guide. -/
structure Stroke where
  ch : Char
  overwrites : Bool
  cell : Cell

/-- What a stroke makes of a character. -/
def Stroke.on (s : Stroke) (old : Char) : Char :=
  if s.overwrites || old == ' ' || old == ':' then s.ch else old

/-- A grid with strokes on it, one after the other. -/
def paint (g : Grid) (strokes : List Stroke) : Grid :=
  strokes.foldl (fun g s => modifyCell s.on g s.cell) g

theorem paint_append (g : Grid) (strokes others : List Stroke) :
    paint g (strokes ++ others) = paint (paint g strokes) others :=
  List.foldl_append

/-- What strokes on one cell make of its character. -/
def painted (strokes : List Stroke) (old : Char) : Char :=
  strokes.foldl (fun old s => s.on old) old

/-- A cell shows what the strokes on it have left. -/
theorem at?_paint (g : Grid) (strokes : List Stroke) (c : Cell) :
    at? (paint g strokes) c = (at? g c).map (painted (strokes.filter (·.cell = c))) := by
  induction strokes generalizing g with
  | nil => exact Option.map_id'.symm
  | cons s rest ih =>
    change at? (paint (modifyCell s.on g s.cell) rest) c = _
    rw [ih, at?_modifyCell]
    by_cases h : s.cell = c
    · rw [if_pos h, Option.map_map, List.filter_cons_of_pos (by simpa using h)]
      rfl
    · rw [if_neg h, List.filter_cons_of_neg (by simpa using h)]

theorem HasSize.paint {g : Grid} {width height : ℕ} (h : HasSize g width height)
    (strokes : List Stroke) : HasSize (paint g strokes) width height := by
  induction strokes generalizing g with
  | nil => exact h
  | cons s rest ih => exact ih (h.modifyCell s.on s.cell)

/-! ## The strokes of a figure -/

section Figure

variable {α : Type} [Scalar α] (f : Frame α)

/-- The strokes of a straight line. -/
def lineStrokes (ch : Char) (start target : Cell) : List Stroke :=
  (lineCells start target).map (⟨ch, false, ·⟩)

/-- The strokes of a guide, if it lies within the range. -/
def guideStrokes (guide : Guide α) : List Stroke :=
  match guide.orientation with
  | .horizontal =>
    if within f.y guide.place then
      lineStrokes ':' (0, f.row guide.place) (f.width - 1, f.row guide.place)
    else []
  | .vertical =>
    if within f.x guide.place then
      lineStrokes ':' (f.column guide.place, 0) (f.column guide.place, f.height - 1)
    else []

/-- The strokes of the rest of a curve. -/
def curveStrokes (ch : Char) (previous : Option Cell) : List (α × α) → List Stroke
  | [] => []
  | p :: rest =>
    if isPlottable p then
      (match previous with
        | some start => lineStrokes ch start (f.cell p)
        | none => [⟨ch, true, f.cell p⟩]) ++ curveStrokes ch (some (f.cell p)) rest
    else curveStrokes ch none rest

/-- The strokes of markers. -/
def markerStrokes (ch : Char) (points : List (α × α)) : List Stroke :=
  (points.filter (isShown f)).map fun p => ⟨ch, true, f.cell p⟩

/-- The series of a figure that are drawn as lines. -/
def lineSeries (fig : Figure α) : List (Char × Series α) :=
  (glyphed fig).filter fun s => isLine s.2

/-- The series of a figure that are drawn as markers. -/
def markedSeries (fig : Figure α) : List (Char × Series α) :=
  (glyphed fig).filter fun s => isMarked s.2

/-- The strokes of a figure: guides, lines, markers. -/
def strokes (fig : Figure α) : List Stroke :=
  fig.guides.flatMap (guideStrokes f) ++
    ((lineSeries fig).flatMap (fun s => curveStrokes f s.1 none s.2.points) ++
      (markedSeries fig).flatMap fun s => markerStrokes f s.1 s.2.points)

theorem putBelow_eq (ch : Char) : putBelow ch = fun g c =>
    modifyCell (Stroke.on ⟨ch, false, c⟩) g c := by
  funext g c
  rw [putBelow]
  congr 1
  funext old
  simp [Stroke.on]

theorem put_eq (ch : Char) : put ch = fun g c => modifyCell (Stroke.on ⟨ch, true, c⟩) g c := by
  funext g c
  rw [put]
  congr 1

theorem drawLine_eq_paint (ch : Char) (g : Grid) (start target : Cell) :
    drawLine ch g start target = paint g (lineStrokes ch start target) := by
  rw [drawLine, paint, lineStrokes, List.foldl_map, putBelow_eq]

theorem drawGuide_eq_paint (g : Grid) (guide : Guide α) :
    drawGuide f g guide = paint g (guideStrokes f guide) := by
  rw [drawGuide, guideStrokes]
  cases guide.orientation with
  | horizontal =>
    dsimp only
    split
    · rw [drawLine_eq_paint]
    · rfl
  | vertical =>
    dsimp only
    split
    · rw [drawLine_eq_paint]
    · rfl

theorem drawCurve_eq_paint (ch : Char) (previous : Option Cell) (g : Grid)
    (points : List (α × α)) :
    drawCurve f ch previous g points = paint g (curveStrokes f ch previous points) := by
  induction points generalizing previous g with
  | nil => rfl
  | cons p rest ih =>
    cases previous with
    | some start =>
      rw [drawCurve, curveStrokes]
      split
      · rw [paint_append, ← drawLine_eq_paint, ← ih]
      · rw [ih]
    | none =>
      rw [drawCurve, curveStrokes]
      split
      · rw [paint_append, ← ih, put_eq]
        rfl
      · rw [ih]

theorem drawMarkers_eq_paint (ch : Char) (g : Grid) (points : List (α × α)) :
    drawMarkers f ch g points = paint g (markerStrokes f ch points) := by
  rw [drawMarkers, paint, markerStrokes, List.foldl_map, put_eq]

/-- A plot area is a blank grid with the strokes of its figure. -/
theorem plotArea_eq_paint (fig : Figure α) :
    plotArea f fig = paint (blankGrid f.width f.height) (strokes f fig) := by
  have hpaint : ∀ (β : Type) (g : Grid) (xs : List β) (draw : β → List Stroke),
      paint g (xs.flatMap draw) = xs.foldl (fun g x => paint g (draw x)) g := fun β g xs draw =>
    List.foldl_flatMap
  have hguide : drawGuide f = fun g guide => paint g (guideStrokes f guide) := by
    funext g guide
    exact drawGuide_eq_paint f g guide
  rw [plotArea, strokes, paint_append, paint_append, hpaint, hpaint, hpaint, hguide]
  simp only [drawCurve_eq_paint, drawMarkers_eq_paint]
  rfl

end Figure

end Canvas

end SphereLab
