import Mathlib
import SphereLab.PairCorrelation.Panels

/-!
# Windows of listed panels

Windows are given from the bottom up and panels are listed from the top down, both counted from
zero.  Where every other panel is left out, the windows at even places are collapsed, and the panels
at odd positions are listed.  A panel's position and the place of its window are of one parity only
if the number of windows is odd.  Then the listed panels are those that have windows of their own;
for an even number of windows they are just the others.

* `getElem?_collapseEven`: which windows are collapsed.
* `Keeps`: some panels have their own windows, and all others collapsed ones.
* `ofRanges?_keeps`: which panels these are.
-/

namespace SphereLab

variable {α : Type} [Scalar α]

/-- The window of a panel. -/
def Panel.window (p : Panel α) : Range α := (p.low, p.high)

namespace PanelLayout

/-! ## Windows by position -/

/-- The window of the panel at a position. -/
def window? (l : PanelLayout α) (i : ℕ) : Option (Range α) := l.panels[i]?.map Panel.window

theorem map_window_stackOn (offset high : α) (windows : List (Range α)) :
    (stackOn offset high windows).map Panel.window = windows := by
  induction windows generalizing offset high with
  | nil => rfl
  | cons r rest ih => rw [stackOn, List.map_cons, ih]; rfl

theorem map_window_stack (windows : List (Range α)) :
    (stack windows).map Panel.window = windows := by
  cases windows with
  | nil => rfl
  | cons r rest => rw [stack, List.map_cons, map_window_stackOn]; rfl

theorem getElem?_collapseEven (ranges : List (Range α)) (k : ℕ) :
    (collapseEven ranges)[k]? = ranges[k]?.map fun r => if k % 2 = 0 then (0, 0) else r := by
  induction ranges using collapseEven.induct generalizing k with
  | case1 => simp [collapseEven]
  | case2 r =>
    rw [collapseEven]
    cases k <;> simp
  | case3 r r' rest ih =>
    rw [collapseEven]
    match k with
    | 0 => simp
    | 1 => simp
    | k + 2 => simpa using ih k

theorem length_collapseEven (ranges : List (Range α)) :
    (collapseEven ranges).length = ranges.length := by
  induction ranges using collapseEven.induct with
  | case1 => rfl
  | case2 r => rfl
  | case3 r r' rest ih => simp [collapseEven, ih]

/-! ## Layouts with every other window collapsed -/

/-- The layout with every other window collapsed. -/
def alternating (ranges : List (Range α)) : PanelLayout α :=
  ⟨(List.range ranges.length).filter (· % 2 == 1), (stack (collapseEven ranges)).reverse⟩

variable {ranges : List (Range α)}

theorem ofRanges?_eq_alternating (hne : ranges ≠ []) :
    ofRanges? ranges ranges.length true = some (alternating ranges) := by
  rw [ofRanges?, if_neg (by simp [hne]), if_pos rfl, alternating]

theorem mem_indexes_alternating (i : ℕ) :
    i ∈ (alternating ranges).indexes ↔ i < ranges.length ∧ i % 2 = 1 := by
  simp [alternating]

theorem length_panels_alternating : (alternating ranges).panels.length = ranges.length := by
  rw [alternating, List.length_reverse, ← List.length_map Panel.window, map_window_stack,
    length_collapseEven]

/-- The position of a panel is counted from the other end than the place of its window. -/
theorem window?_alternating {i : ℕ} (hi : i < ranges.length) :
    (alternating ranges).window? i = ranges[ranges.length - 1 - i]?.map fun r =>
      if (ranges.length - 1 - i) % 2 = 0 then (0, 0) else r := by
  rw [window?, alternating, ← List.getElem?_map, List.map_reverse, map_window_stack,
    List.getElem?_reverse (by rwa [length_collapseEven]), length_collapseEven,
    getElem?_collapseEven]

/-! ## Panels that keep their windows -/

/-- Some panels have their own windows, given from the bottom up, and all others have collapsed
ones. -/
structure Keeps (ranges : List (Range α)) (kept : ℕ → Prop) (l : PanelLayout α) : Prop where
  own : ∀ i < ranges.length, kept i → l.window? i = ranges[ranges.length - 1 - i]?
  collapsed : ∀ i < ranges.length, ¬kept i → l.window? i = some (0, 0)

/-- The panels whose windows are at odd places keep them. -/
theorem keeps_alternating {kept : ℕ → Prop}
    (h : ∀ i < ranges.length, kept i ↔ (ranges.length - 1 - i) % 2 = 1) :
    Keeps ranges kept (alternating ranges) := by
  refine ⟨fun i hi hkept => ?_, fun i hi hkept => ?_⟩
  · have hodd : ¬(ranges.length - 1 - i) % 2 = 0 := by
      rw [(h i hi).mp hkept]
      exact one_ne_zero
    simp only [window?_alternating hi, hodd, if_false, Option.map_id']
  · have heven : (ranges.length - 1 - i) % 2 = 0 := by
      rw [h i hi] at hkept
      omega
    have hk : ranges.length - 1 - i < ranges.length := by omega
    rw [window?_alternating hi, List.getElem?_eq_getElem hk, Option.map_some, if_pos heven]

/-- If just the others keep their windows, then these have theirs only if all windows are
collapsed. -/
theorem Keeps.iff_of_not {kept : ℕ → Prop} {l : PanelLayout α}
    (h : Keeps ranges (fun i => ¬kept i) l) : Keeps ranges kept l ↔ ∀ r ∈ ranges, r = (0, 0) := by
  constructor
  · intro hkept r hr
    obtain ⟨k, hk, rfl⟩ := List.getElem_of_mem hr
    have hi : ranges.length - 1 - k < ranges.length := by omega
    have hplace : ranges.length - 1 - (ranges.length - 1 - k) = k := by omega
    have hwindow : ranges[k]? = some (0, 0) := by
      rw [← hplace]
      by_cases hcase : kept (ranges.length - 1 - k)
      · rw [← hkept.own _ hi hcase, h.collapsed _ hi (not_not.mpr hcase)]
      · rw [← h.own _ hi hcase, hkept.collapsed _ hi hcase]
    exact (List.getElem_eq_iff hk).mpr hwindow
  · intro hzero
    have hwindow : ∀ i < ranges.length, ranges[ranges.length - 1 - i]? = some (0, 0) := by
      intro i hi
      have hk : ranges.length - 1 - i < ranges.length := by omega
      rw [List.getElem?_eq_getElem hk, hzero _ (List.getElem_mem hk)]
    refine ⟨fun i hi hcase => ?_, fun i hi hcase => ?_⟩
    · rw [h.collapsed i hi (not_not.mpr hcase), hwindow i hi]
    · rw [h.own i hi hcase, hwindow i hi]

/-- **Which panels keep their windows** when every other window is collapsed.  The panels at odd
positions are listed.  They keep their windows, and all others are collapsed, if the number of
windows is odd.  If it is even, the others keep theirs and the listed panels are collapsed, so that
the listed ones have what was given for them only if all windows were given as collapsed. -/
theorem ofRanges?_keeps (hne : ranges ≠ []) :
    ∃ l, ofRanges? ranges ranges.length true = some l ∧
      (∀ i, i ∈ l.indexes ↔ i < ranges.length ∧ i % 2 = 1) ∧
      l.panels.length = ranges.length ∧
      (ranges.length % 2 = 1 → Keeps ranges (fun i => i ∈ l.indexes) l) ∧
      (ranges.length % 2 = 0 → Keeps ranges (fun i => ¬i ∈ l.indexes) l) ∧
      (Keeps ranges (fun i => i ∈ l.indexes) l ↔
        ranges.length % 2 = 1 ∨ ∀ r ∈ ranges, r = (0, 0)) := by
  have hodd : ranges.length % 2 = 1 →
      Keeps ranges (fun i => i ∈ (alternating ranges).indexes) (alternating ranges) := fun _ =>
    keeps_alternating fun i hi => by
      rw [mem_indexes_alternating]
      omega
  have heven : ranges.length % 2 = 0 →
      Keeps ranges (fun i => ¬i ∈ (alternating ranges).indexes) (alternating ranges) := fun _ =>
    keeps_alternating fun i hi => by
      rw [mem_indexes_alternating]
      omega
  refine ⟨_, ofRanges?_eq_alternating hne, mem_indexes_alternating, length_panels_alternating, hodd,
    heven, ?_⟩
  rcases Nat.mod_two_eq_zero_or_one ranges.length with hparity | hparity
  · rw [(heven hparity).iff_of_not, or_iff_right (by omega)]
  · exact iff_of_true (hodd hparity) (Or.inl hparity)

/-- Of two windows the one of the listed panel is collapsed, and the other one is kept. -/
theorem ofRanges?_keeps_two :
    ([(0.9, 1.2), (0.8, 1.8)] : List (Range Float)) ≠ [] ∧
    ∃ l : PanelLayout Float, ofRanges? [(0.9, 1.2), (0.8, 1.8)] 2 true = some l ∧
      (0 ∉ l.indexes ∧ l.window? 0 = some (0.8, 1.8)) ∧
      (1 ∈ l.indexes ∧ l.window? 1 = some (0, 0)) ∧
      ¬Keeps [(0.9, 1.2), (0.8, 1.8)] (fun i => i ∈ l.indexes) l := by
  have hne : ([(0.9, 1.2), (0.8, 1.8)] : List (Range Float)) ≠ [] := List.cons_ne_nil _ _
  obtain ⟨l, hl, hmem, -, -, heven, hkeeps⟩ := ofRanges?_keeps hne
  have hothers := heven rfl
  have hunlisted : 0 ∉ l.indexes := fun h => absurd ((hmem 0).mp h).2 (by decide)
  have hlisted : 1 ∈ l.indexes := (hmem 1).mpr ⟨by decide, rfl⟩
  refine ⟨hne, l, hl, ⟨hunlisted, hothers.own 0 (by decide) hunlisted⟩,
    ⟨hlisted, hothers.collapsed 1 (by decide) (not_not.mpr hlisted)⟩, fun h => ?_⟩
  rcases hkeeps.mp h with hodd | hzero
  · exact absurd hodd (by decide)
  · have hfirst := hzero _ List.mem_cons_self
    have hends := congrArg (fun r : Range Float => r.1 < r.2) hfirst
    exact absurd hends (by decide +kernel)

end PanelLayout

end SphereLab
