import Mathlib
import SphereLab.Proofs.Figure.Strokes

/-!
# What the cells of a plot show

Guides, lines and markers are drawn over each other in this order, but not in one way: a line stroke
spares what is not blank and not a guide, the first point of every unbroken piece of a line is written
on anything, and so is a marker.  For a cell this comes to a rule that does not speak of the order of
strokes: the last marker on it, or else a line through it, or else a guide, or else nothing.

* `OnPath`, `exists_mem_curveStrokes_iff`: the cells that a curve goes through, by its points.
* `Covers`: the cells of a guide.
* `Shows`: what a cell may show.
* `exists_shows`: every cell of a plot area shows what it may.
* `at?_plotArea_of_guides`: guides do not matter where there are data.
* `plotArea_onlyShown`: markers that are not shown do not matter.
* `contains_of_mem_strokes`: nothing is written off the grid.
-/

namespace SphereLab

namespace Canvas

/-! ## Characters of several strokes -/

section Painted

variable {ss : List Stroke} {old : Char}

/-- A character that a line may be drawn over: a blank or a guide. -/
def IsVacant (ch : Char) : Prop := ch = ' ' ∨ ch = ':'

theorem Stroke.on_of_isVacant (s : Stroke) (h : IsVacant old) : s.on old = s.ch := by
  rw [Stroke.on, if_pos]
  rcases h with rfl | rfl <;> simp

theorem painted_append (ss others : List Stroke) (old : Char) :
    painted (ss ++ others) old = painted others (painted ss old) :=
  List.foldl_append

/-- What strokes leave is one of their characters, or what was there. -/
theorem painted_eq_or (ss : List Stroke) (old : Char) :
    painted ss old = old ∨ ∃ s ∈ ss, painted ss old = s.ch := by
  induction ss generalizing old with
  | nil => exact Or.inl rfl
  | cons s rest ih =>
    have hcons : painted (s :: rest) old = painted rest (s.on old) := rfl
    rcases ih (s.on old) with heq | ⟨other, hother, heq⟩
    · rw [hcons, heq, Stroke.on]
      split
      · exact Or.inr ⟨s, List.mem_cons_self, rfl⟩
      · exact Or.inl rfl
    · exact Or.inr ⟨other, List.mem_cons_of_mem _ hother, hcons.trans heq⟩

/-- Strokes on a vacant cell leave one of their characters, whether it held a guide or not. -/
theorem exists_painted_of_isVacant (h : ss ≠ []) :
    ∃ s ∈ ss, ∀ old, IsVacant old → painted ss old = s.ch := by
  obtain ⟨s, rest, rfl⟩ := List.exists_cons_of_ne_nil h
  have hcons : ∀ old, IsVacant old → painted (s :: rest) old = painted rest s.ch :=
    fun old hold => congrArg (painted rest) (s.on_of_isVacant hold)
  rcases painted_eq_or rest s.ch with heq | ⟨other, hother, heq⟩
  · exact ⟨s, List.mem_cons_self, fun old hold => (hcons old hold).trans heq⟩
  · exact ⟨other, List.mem_cons_of_mem _ hother, fun old hold => (hcons old hold).trans heq⟩

/-- Strokes that are written on anything leave the last of them. -/
theorem painted_of_overwrites (h : ∀ s ∈ ss, s.overwrites = true) (old : Char) :
    painted ss old = ((ss.map (·.ch)).getLast?).getD old := by
  induction ss using List.reverseRecOn with
  | nil => rfl
  | append_singleton rest s ih =>
    have hs : s.overwrites = true := h s (by simp)
    rw [painted_append, List.map_append, List.map_singleton, List.getLast?_concat,
      Option.getD_some]
    simp [painted, Stroke.on, hs]

end Painted

section Figure

variable {α : Type} [Scalar α] (f : Frame α)

/-! ## Curves -/

/-- A curve goes through a cell: one of its points is on it, or it is on the straight line between two
neighbours.  Points that are not finite do not count. -/
def OnPath (points : List (α × α)) (c : Cell) : Prop :=
  (∃ p ∈ points, isPlottable p = true ∧ f.cell p = c) ∨
    ∃ p q, [p, q] <:+: points ∧ isPlottable p = true ∧ isPlottable q = true ∧
      c ∈ lineCells (f.cell p) (f.cell q)

section Curve

variable {ch : Char} {c : Cell} {points : List (α × α)}

theorem not_onPath_nil : ¬OnPath f [] c := by
  simp [OnPath]

/-- A curve, seen from its first point: that point, the line to its neighbour, and the rest. -/
theorem onPath_cons (p : α × α) :
    OnPath f (p :: points) c ↔
      (isPlottable p = true ∧ f.cell p = c) ∨
        (∃ q, [q] <+: points ∧ isPlottable p = true ∧ isPlottable q = true ∧
          c ∈ lineCells (f.cell p) (f.cell q)) ∨ OnPath f points c := by
  rw [OnPath, OnPath]
  simp only [List.exists_mem_cons_iff, List.infix_cons_iff, List.cons_prefix_cons]
  constructor
  · rintro ((hfirst | hpoint) | ⟨p', q, (⟨rfl, hnext⟩ | hlater), hline⟩)
    · exact Or.inl hfirst
    · exact Or.inr (Or.inr (Or.inl hpoint))
    · exact Or.inr (Or.inl ⟨q, hnext, hline⟩)
    · exact Or.inr (Or.inr (Or.inr ⟨p', q, hlater, hline⟩))
  · rintro (hfirst | ⟨q, hnext, hline⟩ | hpoint | ⟨p', q, hlater, hline⟩)
    · exact Or.inl (Or.inl hfirst)
    · exact Or.inr ⟨p, q, Or.inl ⟨rfl, hnext⟩, hline⟩
    · exact Or.inl (Or.inr hpoint)
    · exact Or.inr ⟨p', q, Or.inr hlater, hline⟩

theorem exists_mem_lineStrokes_iff {start target : Cell} :
    (∃ s ∈ lineStrokes ch start target, s.cell = c) ↔ c ∈ lineCells start target := by
  rw [lineStrokes]
  simp only [List.mem_map, exists_exists_and_eq_and, exists_eq_right]

/-- The strokes of a curve are on the cells that it goes through, and those of what follows a point
are with it on the cells of the curve from that point on. -/
theorem exists_mem_curveStrokes_iff_and (points : List (α × α)) :
    ((∃ s ∈ curveStrokes f ch none points, s.cell = c) ↔ OnPath f points c) ∧
      ∀ p, isPlottable p = true →
        ((f.cell p = c ∨ ∃ s ∈ curveStrokes f ch (some (f.cell p)) points, s.cell = c) ↔
          OnPath f (p :: points) c) := by
  induction points with
  | nil =>
    refine ⟨by simp [curveStrokes, not_onPath_nil], fun p hp => ?_⟩
    rw [onPath_cons]
    simp [curveStrokes, not_onPath_nil, hp]
  | cons q rest ih =>
    obtain ⟨hfresh, hafter⟩ := ih
    have hneighbour : ∀ p : α × α, [p] <+: q :: rest ↔ p = q := by simp
    cases hq : isPlottable q with
    | true =>
      have hrest := hafter q hq
      constructor
      · rw [curveStrokes, if_pos hq, List.singleton_append, List.exists_mem_cons_iff, hrest]
      · intro p hp
        have hend : f.cell q = c → c ∈ lineCells (f.cell p) (f.cell q) := by
          rintro rfl
          exact right_mem_lineCells _ _
        rw [onPath_cons, ← hrest, curveStrokes, if_pos hq]
        simp only [List.mem_append, or_and_right, exists_or, exists_mem_lineStrokes_iff,
          hneighbour, exists_eq_left, hp, hq, true_and]
        tauto
    | false =>
      have hskip : OnPath f (q :: rest) c ↔ OnPath f rest c := by
        rw [onPath_cons]
        simp [hq]
      constructor
      · rw [curveStrokes, if_neg (by simp [hq]), hfresh, hskip]
      · intro p hp
        rw [onPath_cons, hskip, curveStrokes, if_neg (by simp [hq]), hfresh]
        simp only [hneighbour, exists_eq_left, hp, hq, true_and, Bool.false_eq_true, false_and,
          false_or]

/-- The strokes of a curve are on the cells that it goes through. -/
theorem exists_mem_curveStrokes_iff :
    (∃ s ∈ curveStrokes f ch none points, s.cell = c) ↔ OnPath f points c :=
  (exists_mem_curveStrokes_iff_and f points).1

/-- The strokes of a curve have its character. -/
theorem ch_of_mem_curveStrokes {previous : Option Cell} {s : Stroke}
    (h : s ∈ curveStrokes f ch previous points) : s.ch = ch := by
  induction points generalizing previous with
  | nil => exact absurd h List.not_mem_nil
  | cons p rest ih =>
    cases previous with
    | some start =>
      rw [curveStrokes] at h
      split at h
      · rcases List.mem_append.mp h with h | h
        · obtain ⟨c, -, rfl⟩ := List.mem_map.mp h
          rfl
        · exact ih h
      · exact ih h
    | none =>
      rw [curveStrokes] at h
      split at h
      · rcases List.mem_append.mp h with h | h
        · rw [List.mem_singleton.mp h]
        · exact ih h
      · exact ih h

end Curve

/-! ## Guides -/

/-- A cell of the grid. -/
def Frame.Contains (c : Cell) : Prop := (0 ≤ c.1 ∧ c.1 < f.width) ∧ 0 ≤ c.2 ∧ c.2 < f.height

/-- A guide goes through a cell: it is in range, and the cell is in its row or column. -/
def Covers (guide : Guide α) (c : Cell) : Prop :=
  match guide.orientation with
  | .horizontal => within f.y guide.place = true ∧ c.2 = f.row guide.place
  | .vertical => within f.x guide.place = true ∧ c.1 = f.column guide.place

section Guides

variable {f} {guide : Guide α} {c : Cell}

theorem exists_mem_guideStrokes_iff (hc : f.Contains c) :
    (∃ s ∈ guideStrokes f guide, s.cell = c) ↔ Covers f guide c := by
  obtain ⟨⟨hcolumn, hwidth⟩, hrow, hheight⟩ := hc
  have hlastColumn : ((f.width - 1 : ℕ) : ℤ) = f.width - 1 := by omega
  have hlastRow : ((f.height - 1 : ℕ) : ℤ) = f.height - 1 := by omega
  rw [guideStrokes, Covers]
  cases guide.orientation with
  | horizontal =>
    dsimp only
    split
    · rename_i hwithin
      rw [exists_mem_lineStrokes_iff, ← hlastColumn, mem_lineCells_row_iff]
      exact ⟨fun h => ⟨hwithin, h.1⟩, fun h => ⟨h.2, hcolumn, by omega⟩⟩
    · rename_i hwithin
      simp [hwithin]
  | vertical =>
    dsimp only
    split
    · rename_i hwithin
      rw [exists_mem_lineStrokes_iff, ← hlastRow, mem_lineCells_column_iff]
      exact ⟨fun h => ⟨hwithin, h.1⟩, fun h => ⟨h.2, hrow, by omega⟩⟩
    · rename_i hwithin
      simp [hwithin]

theorem ch_of_mem_guideStrokes {s : Stroke} (h : s ∈ guideStrokes f guide) : s.ch = ':' := by
  have hline : ∀ start target, s ∈ lineStrokes ':' start target → s.ch = ':' := by
    intro start target hs
    obtain ⟨c, -, rfl⟩ := List.mem_map.mp hs
    rfl
  rw [guideStrokes] at h
  cases horientation : guide.orientation with
  | horizontal =>
    simp only [horientation] at h
    split at h
    · exact hline _ _ h
    · exact absurd h List.not_mem_nil
  | vertical =>
    simp only [horientation] at h
    split at h
    · exact hline _ _ h
    · exact absurd h List.not_mem_nil

end Guides

/-! ## Cells -/

/-- The characters of the markers on a cell, in the order in which they are drawn: those of the finite
points in range. -/
def markersOn (fig : Figure α) (c : Cell) : List Char :=
  (markedSeries fig).flatMap fun s =>
    (s.2.points.filter fun p => isShown f p && decide (f.cell p = c)).map fun _ => s.1

/-- What a cell may show: the last marker on it, or else a line through it, or else a guide, or else
nothing. -/
inductive Shows (fig : Figure α) (c : Cell) : Char → Prop where
  | marker {ch : Char} (last : (markersOn f fig c).getLast? = some ch) : Shows fig c ch
  | line {s : Char × Series α} (none : markersOn f fig c = []) (drawn : s ∈ lineSeries fig)
      (path : OnPath f s.2.points c) : Shows fig c s.1
  | guide (none : markersOn f fig c = []) (away : ∀ s ∈ lineSeries fig, ¬OnPath f s.2.points c)
      (covers : ∃ guide ∈ fig.guides, Covers f guide c) : Shows fig c ':'
  | blank (none : markersOn f fig c = []) (away : ∀ s ∈ lineSeries fig, ¬OnPath f s.2.points c)
      (bare : ∀ guide ∈ fig.guides, ¬Covers f guide c) : Shows fig c ' '

section Cells

variable {f} {fig : Figure α} {c : Cell}

/-- The strokes of guides on a cell. -/
def guidesAt (f : Frame α) (fig : Figure α) (c : Cell) : List Stroke :=
  (fig.guides.flatMap (guideStrokes f)).filter (·.cell = c)

/-- The strokes of lines on a cell. -/
def linesAt (f : Frame α) (fig : Figure α) (c : Cell) : List Stroke :=
  ((lineSeries fig).flatMap fun s => curveStrokes f s.1 none s.2.points).filter (·.cell = c)

/-- The strokes of markers on a cell. -/
def markersAt (f : Frame α) (fig : Figure α) (c : Cell) : List Stroke :=
  ((markedSeries fig).flatMap fun s => markerStrokes f s.1 s.2.points).filter (·.cell = c)

/-- A cell of a plot area shows what guides, lines and markers have left. -/
theorem at?_plotArea (hc : f.Contains c) :
    at? (plotArea f fig) c =
      some (painted (markersAt f fig c)
        (painted (linesAt f fig c) (painted (guidesAt f fig c) ' '))) := by
  obtain ⟨⟨hcolumn, hwidth⟩, hrow, hheight⟩ := hc
  obtain ⟨ch, hch⟩ := (hasSize_blankGrid f.width f.height).exists_at? hcolumn hwidth hrow hheight
  obtain rfl := at?_blankGrid hch
  rw [plotArea_eq_paint, at?_paint, hch, strokes, List.filter_append, List.filter_append,
    Option.map_some, painted_append, painted_append]
  rfl

theorem ch_of_mem_guidesAt {s : Stroke} (h : s ∈ guidesAt f fig c) : s.ch = ':' := by
  obtain ⟨guide, -, hs⟩ := List.mem_flatMap.mp (List.mem_filter.mp h).1
  exact ch_of_mem_guideStrokes hs

theorem painted_guidesAt :
    painted (guidesAt f fig c) ' ' = if guidesAt f fig c = [] then ' ' else ':' := by
  split
  · rename_i hnil
    rw [hnil]
    rfl
  · rename_i hne
    obtain ⟨s, hs, hpainted⟩ := exists_painted_of_isVacant hne
    rw [hpainted ' ' (Or.inl rfl), ch_of_mem_guidesAt hs]

theorem isVacant_painted_guidesAt : IsVacant (painted (guidesAt f fig c) ' ') := by
  rw [painted_guidesAt]
  split
  · exact Or.inl rfl
  · exact Or.inr rfl

theorem map_markersAt : (markersAt f fig c).map (·.ch) = markersOn f fig c := by
  rw [markersAt, markersOn, List.filter_flatMap, List.map_flatMap]
  simp only [markerStrokes, List.filter_map, List.map_map, List.filter_filter, Bool.and_comm]
  rfl

theorem painted_markersAt (old : Char) :
    painted (markersAt f fig c) old = (markersOn f fig c).getLast?.getD old := by
  rw [← map_markersAt]
  refine painted_of_overwrites (fun s hs => ?_) old
  obtain ⟨series, -, hs⟩ := List.mem_flatMap.mp (List.mem_filter.mp hs).1
  obtain ⟨p, -, rfl⟩ := List.mem_map.mp hs
  rfl

/-- There are strokes of guides on a cell exactly if a guide goes through it. -/
theorem guidesAt_eq_nil_iff (hc : f.Contains c) :
    guidesAt f fig c = [] ↔ ∀ guide ∈ fig.guides, ¬Covers f guide c := by
  simp only [guidesAt, List.filter_eq_nil_iff, List.mem_flatMap, decide_eq_true_eq,
    ← exists_mem_guideStrokes_iff hc]
  constructor
  · rintro h guide hguide ⟨s, hs, hcell⟩
    exact h s ⟨guide, hguide, hs⟩ hcell
  · rintro h s ⟨guide, hguide, hs⟩ hcell
    exact h guide hguide ⟨s, hs, hcell⟩

/-- There are strokes of lines on a cell exactly if a line goes through it. -/
theorem linesAt_eq_nil_iff :
    linesAt f fig c = [] ↔ ∀ s ∈ lineSeries fig, ¬OnPath f s.2.points c := by
  simp only [linesAt, List.filter_eq_nil_iff, List.mem_flatMap, decide_eq_true_eq]
  constructor
  · intro h series hseries hpath
    have hstroke : ∃ s ∈ curveStrokes f series.1 none series.2.points, s.cell = c :=
      (exists_mem_curveStrokes_iff f).mpr hpath
    obtain ⟨s, hs, hcell⟩ := hstroke
    exact h s ⟨series, hseries, hs⟩ hcell
  · rintro h s ⟨series, hseries, hs⟩ hcell
    exact h series hseries ((exists_mem_curveStrokes_iff f).mp ⟨s, hs, hcell⟩)

/-- A stroke of a line on a cell has the character of a line through it. -/
theorem exists_of_mem_linesAt {s : Stroke} (h : s ∈ linesAt f fig c) :
    ∃ series ∈ lineSeries fig, s.ch = series.1 ∧ OnPath f series.2.points c := by
  obtain ⟨hmem, hcell⟩ := List.mem_filter.mp h
  obtain ⟨series, hseries, hs⟩ := List.mem_flatMap.mp hmem
  exact ⟨series, hseries, ch_of_mem_curveStrokes f hs,
    (exists_mem_curveStrokes_iff f).mp ⟨s, hs, of_decide_eq_true hcell⟩⟩

/-- **Every cell of a plot area shows what it may.** -/
theorem exists_shows (hc : f.Contains c) :
    ∃ ch, at? (plotArea f fig) c = some ch ∧ Shows f fig c ch := by
  refine ⟨_, at?_plotArea hc, ?_⟩
  rw [painted_markersAt]
  cases hlast : (markersOn f fig c).getLast? with
  | some ch => exact .marker hlast
  | none =>
    rw [List.getLast?_eq_none_iff] at hlast
    rw [Option.getD_none]
    by_cases hlines : linesAt f fig c = []
    · have haway := linesAt_eq_nil_iff.mp hlines
      rw [hlines]
      change Shows f fig c (painted (guidesAt f fig c) ' ')
      rw [painted_guidesAt]
      split
      · rename_i hguides
        exact .blank hlast haway ((guidesAt_eq_nil_iff hc).mp hguides)
      · rename_i hguides
        refine .guide hlast haway ?_
        by_contra hbare
        exact hguides ((guidesAt_eq_nil_iff hc).mpr fun guide hguide hcovers =>
          hbare ⟨guide, hguide, hcovers⟩)
    · obtain ⟨s, hs, hpainted⟩ := exists_painted_of_isVacant hlines
      obtain ⟨series, hseries, hch, hpath⟩ := exists_of_mem_linesAt hs
      rw [hpainted _ isVacant_painted_guidesAt, hch]
      exact .line hlast hseries hpath

/-- Guides do not matter to a cell with a marker on it or a line through it. -/
theorem at?_plotArea_of_guides (guides : List (Guide α)) (hc : f.Contains c)
    (hdata : markersOn f fig c ≠ [] ∨ ∃ s ∈ lineSeries fig, OnPath f s.2.points c) :
    at? (plotArea f { fig with guides := guides }) c = at? (plotArea f fig) c := by
  have hlines : linesAt f { fig with guides := guides } c = linesAt f fig c := rfl
  have hmarkers : markersOn f { fig with guides := guides } c = markersOn f fig c := rfl
  rw [at?_plotArea hc, at?_plotArea hc, painted_markersAt, painted_markersAt, hmarkers, hlines]
  congr 1
  rcases hdata with hmarked | ⟨series, hseries, hpath⟩
  · obtain ⟨ch, hch⟩ := Option.ne_none_iff_exists'.mp fun h =>
      hmarked (List.getLast?_eq_none_iff.mp h)
    rw [hch, Option.getD_some, Option.getD_some]
  · have hne : linesAt f fig c ≠ [] := fun h => linesAt_eq_nil_iff.mp h series hseries hpath
    obtain ⟨s, -, hpainted⟩ := exists_painted_of_isVacant hne
    rw [hpainted _ isVacant_painted_guidesAt, hpainted _ isVacant_painted_guidesAt]

/-- The cell of a marker that is shown has a marker on it. -/
theorem markersOn_ne_nil {s : Char × Series α} {p : α × α} (hs : s ∈ markedSeries fig)
    (hp : p ∈ s.2.points) (hshown : isShown f p = true) : markersOn f fig (f.cell p) ≠ [] := by
  rw [markersOn, Ne, List.flatMap_eq_nil_iff]
  intro h
  have hnil := h s hs
  rw [List.map_eq_nil_iff, List.filter_eq_nil_iff] at hnil
  exact hnil p hp (by simp [hshown])

/-- The characters of markers. -/
def markerGlyphs : List Char := ['o', 'x', '.']

omit [Scalar α] in
theorem mem_markerGlyphs {s : Char × Series α} (hs : s ∈ markedSeries fig) :
    s.1 ∈ markerGlyphs := by
  obtain ⟨hglyph, hmarked⟩ := List.mem_filter.mp hs
  obtain ⟨i, hi, rfl⟩ := List.mem_mapIdx.mp hglyph
  rw [isMarked] at hmarked
  dsimp only at hmarked ⊢
  rw [glyph]
  cases hmarker : fig.series[i].marker with
  | none => simp [hmarker] at hmarked
  | circle => simp [markerGlyphs]
  | cross => simp [markerGlyphs]
  | dot => simp [markerGlyphs]

/-- A marker is shown unless another one is drawn over it. -/
theorem exists_marker_at? {s : Char × Series α} {p : α × α} (hs : s ∈ markedSeries fig)
    (hp : p ∈ s.2.points) (hshown : isShown f p = true) (hc : f.Contains (f.cell p)) :
    ∃ ch ∈ markerGlyphs, at? (plotArea f fig) (f.cell p) = some ch := by
  obtain ⟨ch, hch⟩ := Option.ne_none_iff_exists'.mp fun h =>
    markersOn_ne_nil hs hp hshown (List.getLast?_eq_none_iff.mp h)
  refine ⟨ch, ?_, ?_⟩
  · obtain ⟨other, hother, hmem⟩ := List.mem_flatMap.mp (List.mem_of_getLast? hch)
    obtain ⟨_, -, rfl⟩ := List.mem_map.mp hmem
    exact mem_markerGlyphs hother
  · rw [at?_plotArea hc, painted_markersAt, hch, Option.getD_some]

end Cells

/-! ## Markers that are not shown -/

/-- A series without the markers that are not shown. -/
def onlyShown (s : Series α) : Series α :=
  if isMarked s then { s with points := s.points.filter (isShown f) } else s

theorem line_onlyShown (s : Series α) : (onlyShown f s).line = s.line := by
  rw [onlyShown]
  split <;> rfl

theorem marker_onlyShown (s : Series α) : (onlyShown f s).marker = s.marker := by
  rw [onlyShown]
  split <;> rfl

theorem glyphed_onlyShown (fig : Figure α) :
    glyphed { fig with series := fig.series.map (onlyShown f) } =
      (glyphed fig).map fun s => (s.1, onlyShown f s.2) := by
  refine List.ext_getElem? fun i => ?_
  rw [glyphed, glyphed, List.getElem?_mapIdx, List.getElem?_map, List.getElem?_map,
    List.getElem?_mapIdx, Option.map_map, Option.map_map]
  simp only [Function.comp_def, glyph, marker_onlyShown]

/-- Markers that are not shown leave no mark. -/
theorem plotArea_onlyShown (fig : Figure α) :
    plotArea f { fig with series := fig.series.map (onlyShown f) } = plotArea f fig := by
  have hline : ∀ s : Series α, isLine (onlyShown f s) = isLine s := by
    intro s
    rw [isLine, isLine, line_onlyShown, marker_onlyShown]
  have hmarked : ∀ s : Series α, isMarked (onlyShown f s) = isMarked s := by
    intro s
    rw [isMarked, isMarked, marker_onlyShown]
  have hlines : ((lineSeries { fig with series := fig.series.map (onlyShown f) }).flatMap
        fun s => curveStrokes f s.1 none s.2.points) =
      (lineSeries fig).flatMap fun s => curveStrokes f s.1 none s.2.points := by
    rw [lineSeries, lineSeries, glyphed_onlyShown, List.filter_map, List.flatMap_map]
    simp only [Function.comp_def, hline]
    refine List.flatMap_congr fun s hs => ?_
    have hnone : isMarked s.2 = false := by
      have h := (List.mem_filter.mp hs).2
      simp only [isLine, Bool.and_eq_true, beq_iff_eq] at h
      simp [isMarked, h.2]
    rw [onlyShown, hnone, if_neg (by decide)]
  have hmarkers : ((markedSeries { fig with series := fig.series.map (onlyShown f) }).flatMap
        fun s => markerStrokes f s.1 s.2.points) =
      (markedSeries fig).flatMap fun s => markerStrokes f s.1 s.2.points := by
    rw [markedSeries, markedSeries, glyphed_onlyShown, List.filter_map, List.flatMap_map]
    simp only [Function.comp_def, hmarked]
    refine List.flatMap_congr fun s hs => ?_
    rw [onlyShown, if_pos (List.mem_filter.mp hs).2]
    simp [markerStrokes]
  rw [plotArea_eq_paint, plotArea_eq_paint, strokes, strokes, hlines, hmarkers]

/-! ## Strokes on the grid -/

section OnGrid

variable {f} {fig : Figure α} {c : Cell}

omit [Scalar α] in
/-- The straight line between two cells of the grid is on the grid. -/
theorem Frame.Contains.of_mem_lineCells {start target : Cell} (hstart : f.Contains start)
    (htarget : f.Contains target) (h : c ∈ lineCells start target) : f.Contains c := by
  have hbetween := between_of_mem_lineCells start target h
  rw [Frame.Contains] at hstart htarget ⊢
  omega

theorem contains_of_mem_guideStrokes {guide : Guide α}
    (hcell : f.Contains (f.cell (guide.place, guide.place))) {s : Stroke}
    (hs : s ∈ guideStrokes f guide) : f.Contains s.cell := by
  obtain ⟨⟨hcolumn, hwidth⟩, hrow, hheight⟩ := hcell
  dsimp only [Frame.cell] at hcolumn hwidth hrow hheight
  have hline : ∀ start target, f.Contains start → f.Contains target →
      s ∈ lineStrokes ':' start target → f.Contains s.cell := fun start target hstart htarget h =>
    hstart.of_mem_lineCells htarget ((exists_mem_lineStrokes_iff (c := s.cell)).mp ⟨s, h, rfl⟩)
  rw [guideStrokes] at hs
  cases horientation : guide.orientation with
  | horizontal =>
    simp only [horientation] at hs
    split at hs
    · exact hline _ _ (by rw [Frame.Contains]; omega) (by rw [Frame.Contains]; omega) hs
    · exact absurd hs List.not_mem_nil
  | vertical =>
    simp only [horientation] at hs
    split at hs
    · exact hline _ _ (by rw [Frame.Contains]; omega) (by rw [Frame.Contains]; omega) hs
    · exact absurd hs List.not_mem_nil

/-- If the cells of all points are on the grid, then so is every cell that is written to. -/
theorem contains_of_mem_strokes (hall : ∀ p, f.Contains (f.cell p)) {s : Stroke}
    (hs : s ∈ strokes f fig) : f.Contains s.cell := by
  rw [strokes, List.mem_append, List.mem_append] at hs
  rcases hs with hs | hs | hs
  · obtain ⟨guide, -, hs⟩ := List.mem_flatMap.mp hs
    exact contains_of_mem_guideStrokes (hall _) hs
  · obtain ⟨series, -, hs⟩ := List.mem_flatMap.mp hs
    rcases (exists_mem_curveStrokes_iff f).mp ⟨s, hs, rfl⟩ with
      ⟨p, -, -, hcell⟩ | ⟨p, q, -, -, -, hline⟩
    · exact hcell ▸ hall p
    · exact (hall p).of_mem_lineCells (hall q) hline
  · obtain ⟨series, -, hs⟩ := List.mem_flatMap.mp hs
    obtain ⟨p, -, rfl⟩ := List.mem_map.mp hs
    exact hall p

end OnGrid

end Figure

end Canvas

end SphereLab
