import Mathlib
import SphereLab.Proofs.Figure.Layers
import SphereLab.Proofs.Scalar.Marked

/-!
# Ranges that are found

An axis without a range gets that of its finite coordinates, with a margin at both ends.  The margin
is a share of the length of the range, and of its only value or of one if it has no length; either
way it is positive, so that no coordinate stands on an end of the range, whatever the coordinates
are.  If both axes are of this kind, then no marker at finite coordinates is out of range.

* `IsExtent`, `extent?_cases`: the extent of values, of which only the numbers count.
* `margin_pos`: the margin is positive.
* `IsAutomatic`: the range that is found for values.
* `axisRange?_cases`: the range of an axis.
* `IsDrawn`: a marker is drawn.
* `bounds?_cover`: the ranges of a figure.
-/

namespace SphereLab

namespace Figure

open Marked

section Ranges

variable {K : Type} [ExactScalar K] {values : List (Marked K)} {lo hi : K}

/-! ## The extent of values -/

/-- The least and the greatest of the numbers among some values. -/
structure IsExtent (values : List (Marked K)) (lo hi : K) : Prop where
  lo_mem : number lo ∈ values
  hi_mem : number hi ∈ values
  bounds : ∀ v, number v ∈ values → lo ≤ v ∧ v ≤ hi

theorem IsExtent.le (h : IsExtent values lo hi) : lo ≤ hi := (h.bounds hi h.hi_mem).1

/-- Values have an extent, unless none of them is a number. -/
theorem extent?_cases (values : List (Marked K)) :
    (extent? values = none ∧ ∀ v, number v ∉ values) ∨
      ∃ lo hi, extent? values = some (number lo, number hi) ∧ IsExtent values lo hi := by
  have hall : ∀ x ∈ values.filter Scalar.isFinite, Scalar.isFinite x = true := fun x hx =>
    (List.mem_filter.mp hx).2
  obtain ⟨vs, hvs⟩ := exists_eq_map_number hall
  have hmem : ∀ v, number v ∈ values ↔ v ∈ vs := by
    intro v
    have hfinite : number v ∈ values.filter Scalar.isFinite ↔ number v ∈ values := by
      simp [List.mem_filter]
    rw [← hfinite, hvs]
    simp
  cases vs with
  | nil =>
    refine Or.inl ⟨?_, fun v hv => absurd ((hmem v).mp hv) List.not_mem_nil⟩
    rw [extent?, hvs]
    rfl
  | cons v vs =>
    have hmin : (v :: vs).min? = some (vs.foldl min v) := List.min?_cons'
    have hmax : (v :: vs).max? = some (vs.foldl max v) := List.max?_cons'
    obtain ⟨hlo, hleast⟩ := List.min?_eq_some_iff.mp hmin
    obtain ⟨hhi, hgreatest⟩ := List.max?_eq_some_iff.mp hmax
    refine Or.inr ⟨_, _, ?_, (hmem _).mpr hlo, (hmem _).mpr hhi, fun w hw =>
      ⟨hleast w ((hmem w).mp hw), hgreatest w ((hmem w).mp hw)⟩⟩
    rw [extent?, hvs, List.map_cons]
    simp only [foldl_number minOf_number, foldl_number maxOf_number]

/-! ## Margins -/

/-- What is added at both ends of an extent: a twentieth of its length or, for a single value, of
its size or of one. -/
def margin (lo hi : K) : K := if lo < hi then (hi - lo) / 20 else max |lo| 1 / 20

theorem margin_pos (lo hi : K) : 0 < margin lo hi := by
  rw [margin]
  split
  · rename_i hlt
    exact div_pos (sub_pos.mpr hlt) (by norm_num)
  · exact div_pos (lt_max_of_lt_right one_pos) (by norm_num)

theorem twentieth : (0.05 : Marked K) = number (1 / 20) := by
  rw [ofScientific_eq_number]
  norm_num

theorem padded_number (h : lo ≤ hi) :
    padded (number lo, number hi) = (number (lo - margin lo hi), number (hi + margin lo hi)) := by
  have hspan : Scalar.abs (number hi - number lo) = number (hi - lo) := by
    rw [number_sub, abs_number, ExactScalar.abs_eq_abs, abs_of_nonneg (sub_nonneg.mpr h)]
  have hsize : Scalar.maxOf (Scalar.abs (number lo)) 1 = number (max |lo| 1) := by
    rw [abs_number, ExactScalar.abs_eq_abs, one_eq, maxOf_number]
  have hpositive : 0 < number (hi - lo) ↔ lo < hi := sub_pos
  rw [padded]
  simp only [hspan, hsize, hpositive, twentieth, number_mul, margin]
  split <;> simp only [number_sub, number_add, mul_one_div]

/-! ## Axes -/

/-- The range that is found for values: their extent with its margins, so that all of them lie
strictly inside. -/
structure IsAutomatic (values : List (Marked K)) (r : Range (Marked K)) : Prop where
  extent : ∃ lo hi, IsExtent values lo hi ∧
    r = (number (lo - margin lo hi), number (hi + margin lo hi))
  inside : ∀ v, number v ∈ values → r.1 < number v ∧ number v < r.2

theorem IsExtent.isAutomatic (h : IsExtent values lo hi) :
    IsAutomatic values (number (lo - margin lo hi), number (hi + margin lo hi)) := by
  refine ⟨⟨lo, hi, h, rfl⟩, fun v hv => ?_⟩
  obtain ⟨hlow, hhigh⟩ := h.bounds v hv
  have hpos := margin_pos lo hi
  exact ⟨(number_lt _ _).mpr (by linarith), (number_lt _ _).mpr (by linarith)⟩

theorem IsAutomatic.exists_eq {r : Range (Marked K)} (h : IsAutomatic values r) :
    ∃ a b, a < b ∧ r = (number a, number b) := by
  obtain ⟨lo, hi, hextent, rfl⟩ := h.extent
  have hpos := margin_pos lo hi
  exact ⟨_, _, by linarith [hextent.le], rfl⟩

/-- The range of an axis: the one that is set, or else the one that is found. -/
def IsRange : Option (Range (Marked K)) → List (Marked K) → Range (Marked K) → Prop
  | some r', _, r => r = r'
  | none, values, r => IsAutomatic values r

/-- There is a range for an axis: the one that is set goes upward, or there is a number to find one
for. -/
def HasRange : Option (Range (Marked K)) → List (Marked K) → Prop
  | some r, _ => r.1 < r.2
  | none, values => ∃ v, number v ∈ values

theorem axisRange?_cases (set : Option (Range (Marked K))) (values : List (Marked K)) :
    (axisRange? set values = none ∧ ¬HasRange set values) ∨
      ∃ r, axisRange? set values = some r ∧ IsRange set values r ∧
        (r.1 < r.2 ↔ HasRange set values) := by
  cases set with
  | some r => exact Or.inr ⟨r, rfl, rfl, Iff.rfl⟩
  | none =>
    rcases extent?_cases values with ⟨hnone, hmem⟩ | ⟨lo, hi, hsome, hextent⟩
    · refine Or.inl ⟨?_, fun ⟨v, hv⟩ => hmem v hv⟩
      rw [axisRange?, hnone, Option.map_none]
    · have hautomatic := hextent.isAutomatic
      obtain ⟨hlow, hhigh⟩ := hautomatic.inside lo hextent.lo_mem
      refine Or.inr ⟨_, ?_, hautomatic, iff_of_true (Marked.lt_trans hlow hhigh)
        ⟨lo, hextent.lo_mem⟩⟩
      rw [axisRange?, hsome, Option.map_some, padded_number hextent.le]

/-- A figure has ranges exactly if both of its axes have, and they are the ranges of the axes. -/
theorem bounds?_spec (f : Figure (Marked K)) :
    (f.bounds?.isSome = true ↔ HasRange f.xRange f.xs ∧ HasRange f.yRange f.ys) ∧
      ∀ x y, f.bounds? = some (x, y) → IsRange f.xRange f.xs x ∧ IsRange f.yRange f.ys y := by
  rcases axisRange?_cases f.xRange f.xs with ⟨hx, hno⟩ | ⟨x, hx, hxrange, hxup⟩
  · have hbounds : f.bounds? = none := by rw [bounds?, hx]
    rw [hbounds]
    exact ⟨iff_of_false (by simp) fun h => hno h.1, fun _ _ h => absurd h (by simp)⟩
  · rcases axisRange?_cases f.yRange f.ys with ⟨hy, hno⟩ | ⟨y, hy, hyrange, hyup⟩
    · have hbounds : f.bounds? = none := by rw [bounds?, hx, hy]
      rw [hbounds]
      exact ⟨iff_of_false (by simp) fun h => hno h.2, fun _ _ h => absurd h (by simp)⟩
    · have hbounds : f.bounds? = if x.1 < x.2 ∧ y.1 < y.2 then some (x, y) else none := by
        rw [bounds?, hx, hy]
      rw [hbounds, ← hxup, ← hyup]
      split
      · rename_i hup
        refine ⟨iff_of_true rfl hup, fun x' y' h => ?_⟩
        obtain ⟨rfl, rfl⟩ := Prod.ext_iff.mp (Option.some.inj h)
        exact ⟨hxrange, hyrange⟩
      · rename_i hup
        exact ⟨iff_of_false (by simp) hup, fun _ _ h => absurd h (by simp)⟩

end Ranges

/-! ## Markers -/

open Canvas

/-- A point of a marker series is drawn: it is in range and its cell is on the grid, its marker is
among those on the cell, and the cell shows the last of these. -/
structure IsDrawn {α : Type} [Scalar α] (f : Frame α) (fig : Figure α) (s : Char × Series α)
    (p : α × α) : Prop where
  shown : isShown f p = true
  onGrid : f.Contains (f.cell p)
  marker : s.1 ∈ markersOn f fig (f.cell p)
  top : at? (plotArea f fig) (f.cell p) = (markersOn f fig (f.cell p)).getLast?

theorem isDrawn_of_isShown {α : Type} [Scalar α] {f : Frame α} {fig : Figure α}
    {s : Char × Series α} {p : α × α} (hs : s ∈ markedSeries fig) (hp : p ∈ s.2.points)
    (hshown : isShown f p = true) (hc : f.Contains (f.cell p)) : IsDrawn f fig s p := by
  refine ⟨hshown, hc, ?_, ?_⟩
  · refine List.mem_flatMap.mpr ⟨s, hs, List.mem_map.mpr ⟨p, List.mem_filter.mpr ⟨hp, ?_⟩, rfl⟩⟩
    simp [hshown]
  · obtain ⟨ch, hch⟩ := Option.ne_none_iff_exists'.mp fun h =>
      markersOn_ne_nil hs hp hshown (List.getLast?_eq_none_iff.mp h)
    rw [at?_plotArea hc, painted_markersAt, hch, Option.getD_some]

section Grid

variable {a b v z : ℝ} {n : ℕ}

/-- A number lies somewhere along a range. -/
theorem exists_along_eq (h : a < b) (v : ℝ) :
    ∃ t, along (number a, number b) (number v) = number t ∧ 0 ≤ t ∧ t ≤ 1 := by
  have hne : (b - a == 0) = false := Scalar.beq_eq_false_iff_ne.mpr (sub_pos.mpr h).ne'
  have hu : (number v - number a) / (number b - number a) = number ((v - a) / (b - a)) := by
    rw [number_sub, number_sub, number_div, hne, if_neg Bool.false_ne_true]
  rw [along]
  simp only [hu, zero_eq, one_eq, number_lt]
  split
  · exact ⟨0, rfl, le_rfl, zero_le_one⟩
  · rename_i hlow
    split
    · exact ⟨1, rfl, zero_le_one, le_rfl⟩
    · rename_i hhigh
      exact ⟨_, rfl, not_lt.mp hlow, not_lt.mp hhigh⟩

/-- A number from zero up to a whole number is rounded to a whole number up to it. -/
theorem max_toInt_round_le (hlow : 0 ≤ z) (hhigh : z ≤ n) :
    max 0 (Scalar.toInt (Scalar.round (number z))) ≤ n := by
  have hfloor : ⌊z + 1 / 2⌋ ≤ n := by
    rw [← Int.lt_add_one_iff, Int.floor_lt]
    push_cast
    linarith
  have hround : Scalar.round (number z) = number (⌊z + 1 / 2⌋ : ℝ) :=
    congrArg number (round_of_nonneg hlow)
  have htoInt : Scalar.toInt (number (⌊z + 1 / 2⌋ : ℝ)) = ⌊z + 1 / 2⌋ := toInt_real_intCast _
  rw [hround, htoInt]
  exact max_le (Int.natCast_nonneg n) hfloor

/-- The last column or row. -/
theorem ofNat_sub_one (hn : 0 < n) :
    (Scalar.ofNat n - 1 : Marked ℝ) = number ((n - 1 : ℕ) : ℝ) := by
  have hnumber : (Scalar.ofNat n : Marked ℝ) = number (n : ℝ) :=
    congrArg number (Scalar.ofNat_eq_natCast n)
  rw [hnumber, one_eq, number_sub, Nat.cast_sub hn, Nat.cast_one]

/-- Numbers have a cell on the grid of ranges that go upward. -/
theorem contains_cell_number {f : Frame (Marked ℝ)} {a b c d : ℝ} (hx : f.x = (number a, number b))
    (hab : a < b) (hy : f.y = (number c, number d)) (hcd : c < d) (hwidth : 0 < f.width)
    (hheight : 0 < f.height) (u v : ℝ) : f.Contains (f.cell (number u, number v)) := by
  have hcolumn : f.column (number u) ≤ (f.width - 1 : ℕ) := by
    obtain ⟨t, ht, hlow, hhigh⟩ := exists_along_eq hab u
    rw [Frame.column, hx, ht, ofNat_sub_one hwidth, number_mul]
    exact max_toInt_round_le (mul_nonneg hlow (Nat.cast_nonneg _))
      (mul_le_of_le_one_left (Nat.cast_nonneg _) hhigh)
  have hrow : f.row (number v) ≤ (f.height - 1 : ℕ) := by
    obtain ⟨t, ht, hlow, hhigh⟩ := exists_along_eq hcd v
    rw [Frame.row, hy, ht]
    simp only [ofNat_sub_one hheight, number_mul, number_sub]
    have hshare := mul_le_of_le_one_left (Nat.cast_nonneg (α := ℝ) (f.height - 1)) hhigh
    have hnonneg := mul_nonneg hlow (Nat.cast_nonneg (α := ℝ) (f.height - 1))
    exact max_toInt_round_le (by linarith) (by linarith)
  have hcolumn' : 0 ≤ f.column (number u) := le_max_left _ _
  have hrow' : 0 ≤ f.row (number v) := le_max_left _ _
  show (0 ≤ f.column (number u) ∧ f.column (number u) < f.width) ∧
    0 ≤ f.row (number v) ∧ f.row (number v) < f.height
  omega

end Grid

theorem mem_xs_ys {α : Type} {fig : Figure α} {s : Char × Series α} {p : α × α}
    (hs : s ∈ markedSeries fig) (hp : p ∈ s.2.points) : p.1 ∈ fig.xs ∧ p.2 ∈ fig.ys := by
  obtain ⟨i, hi, rfl⟩ := List.mem_mapIdx.mp (List.mem_filter.mp hs).1
  have hseries : fig.series[i] ∈ fig.series := List.getElem_mem hi
  exact ⟨List.mem_flatMap.mpr ⟨_, hseries, List.mem_map_of_mem hp⟩,
    List.mem_flatMap.mpr ⟨_, hseries, List.mem_map_of_mem hp⟩⟩

/-- **Ranges cover the data.**  A figure has ranges exactly if for each axis there is one, which is
the one that is set or else found for its coordinates.  If both are found, then every marker at
finite coordinates is drawn, on a plot area of any size. -/
theorem bounds?_cover (fig : Figure (Marked ℝ)) :
    (fig.bounds?.isSome = true ↔ HasRange fig.xRange fig.xs ∧ HasRange fig.yRange fig.ys) ∧
      (∀ x y, fig.bounds? = some (x, y) →
        IsRange fig.xRange fig.xs x ∧ IsRange fig.yRange fig.ys y) ∧
      (fig.xRange = none → fig.yRange = none → ∀ width height, ∀ s ∈ markedSeries fig,
        ∀ p ∈ s.2.points, isPlottable p = true → ∃ x y, fig.bounds? = some (x, y) ∧
          IsDrawn ⟨max width 10, max height 5, x, y⟩ fig s p) := by
  obtain ⟨hsome, hrange⟩ := bounds?_spec fig
  refine ⟨hsome, hrange, fun hx hy width height s hs p hp hfinite => ?_⟩
  obtain ⟨hfinite, hfinite'⟩ := Bool.and_eq_true_iff.mp hfinite
  obtain ⟨u, hu⟩ := isFinite_iff.mp hfinite
  obtain ⟨v, hv⟩ := isFinite_iff.mp hfinite'
  obtain rfl : p = (number u, number v) := Prod.ext hu hv
  obtain ⟨hmem, hmem'⟩ := mem_xs_ys hs hp
  rw [hx, hy] at hsome hrange
  obtain ⟨⟨x, y⟩, hbounds⟩ := Option.isSome_iff_exists.mp (hsome.mpr ⟨⟨u, hmem⟩, ⟨v, hmem'⟩⟩)
  obtain ⟨hxrange, hyrange⟩ := hrange x y hbounds
  obtain ⟨a, b, hab, hxeq⟩ := hxrange.exists_eq
  obtain ⟨c, d, hcd, hyeq⟩ := hyrange.exists_eq
  obtain ⟨hxlow, hxhigh⟩ := hxrange.inside u hmem
  obtain ⟨hylow, hyhigh⟩ := hyrange.inside v hmem'
  refine ⟨x, y, hbounds, isDrawn_of_isShown hs hp ?_ ?_⟩
  · simp only [isShown, isPlottable, within, isFinite_number, Bool.and_eq_true, decide_eq_true_eq,
      and_self, true_and]
    exact ⟨⟨Marked.le_of_lt hxlow, Marked.le_of_lt hxhigh⟩, Marked.le_of_lt hylow,
      Marked.le_of_lt hyhigh⟩
  · exact contains_cell_number hxeq hab hyeq hcd (by positivity) (by positivity) u v

/-- Dots, the second of which has no horizontal coordinate. -/
def dots : Series (Marked ℝ) :=
  .ofMarkers [(number 2, number (-3)), (undefined, number 5)] .black .dot

/-- With one horizontal coordinate the margin is a twentieth of its size, and the coordinate of the
dot that is not drawn counts for the vertical range. -/
theorem bounds?_cover_single :
    let fig : Figure (Marked ℝ) := { blank "x" "y" with series := [dots] }
    fig.xRange = none ∧ fig.yRange = none ∧ ('.', dots) ∈ markedSeries fig ∧
      (number 2, number (-3)) ∈ dots.points ∧
      isPlottable ((number 2, number (-3)) : Marked ℝ × Marked ℝ) = true ∧
      ∃ x y, fig.bounds? = some (x, y) ∧ x = (number (19 / 10), number (21 / 10)) ∧
        y = (number (-17 / 5), number (27 / 5)) ∧
        IsDrawn ⟨20, 5, x, y⟩ fig ('.', dots) (number 2, number (-3)) := by
  intro fig
  have hs : ('.', dots) ∈ markedSeries fig := List.mem_singleton_self _
  have hp : (number 2, number (-3)) ∈ dots.points := List.mem_cons_self
  obtain ⟨-, hrange, hdrawn⟩ := bounds?_cover fig
  obtain ⟨x, y, hbounds, hdrawn⟩ := hdrawn rfl rfl 20 4 _ hs _ hp rfl
  obtain ⟨hx, hy⟩ := hrange x y hbounds
  refine ⟨rfl, rfl, hs, hp, rfl, x, y, hbounds, ?_, ?_, hdrawn⟩
  · obtain ⟨lo, hi, hextent, rfl⟩ := hx.extent
    have hlo : number lo ∈ [number 2, undefined] := hextent.lo_mem
    have hhi : number hi ∈ [number 2, undefined] := hextent.hi_mem
    obtain rfl : lo = 2 := by simpa using hlo
    obtain rfl : hi = 2 := by simpa using hhi
    norm_num [margin]
  · obtain ⟨lo, hi, hextent, rfl⟩ := hy.extent
    have hlo : number lo ∈ [number (-3), number 5] := hextent.lo_mem
    have hhi : number hi ∈ [number (-3), number 5] := hextent.hi_mem
    have hleast := (hextent.bounds (-3) List.mem_cons_self).1
    have hgreatest := (hextent.bounds 5 (List.mem_cons_of_mem _ List.mem_cons_self)).2
    obtain rfl : lo = -3 := by
      rcases (by simpa using hlo : lo = -3 ∨ lo = 5) with h | h
      · exact h
      · linarith
    obtain rfl : hi = 5 := by
      rcases (by simpa using hhi : hi = -3 ∨ hi = 5) with h | h
      · linarith
      · exact h
    norm_num [margin]

end Figure

end SphereLab
