import Mathlib
import SphereLab.Proofs.PairCorrelation.Windows
import SphereLab.Proofs.Scalar.Exact

/-!
# Panels without gaps

A panel's offset is found from the offset and the upper end of the panel below it and from its own
lower end, and the list is turned around at the end, when some of the windows have been collapsed.
None of this is seen in where the panels begin and end: over exact arithmetic a panel begins as high
as the windows below it are together, whatever these windows are, and it ends its own height above
that.  Everything else follows from these two heights.

* `stackOn_bottom_top`: where a panel of a stack begins and ends.
* `stackHeight_stacked`: collapsed windows add nothing to the height.
* `Tiles`: panels that are stacked without gaps.
* `ofRanges?_tiles`: every layout is.
-/

namespace SphereLab

variable {α : Type} [ExactScalar α]

/-- The height of a window. -/
def Range.height (r : Range α) : α := r.2 - r.1

/-- How high windows are together. -/
def stackHeight (windows : List (Range α)) : α := (windows.map Range.height).sum

@[simp] theorem stackHeight_nil : stackHeight ([] : List (Range α)) = 0 := rfl

@[simp] theorem stackHeight_cons (r : Range α) (windows : List (Range α)) :
    stackHeight (r :: windows) = r.height + stackHeight windows := by
  simp [stackHeight]

namespace PanelLayout

/-! ## Stacks from the bottom up -/

theorem length_stackOn (offset high : α) (windows : List (Range α)) :
    (stackOn offset high windows).length = windows.length := by
  rw [← List.length_map Panel.window, map_window_stackOn]

/-- The first of the windows is stacked on nothing. -/
theorem stack_eq_stackOn (windows : List (Range α)) : stack windows = stackOn 0 0 windows := by
  cases windows with
  | nil => rfl
  | cons r rest =>
    have hoffset : (0 : α) + 0 - r.1 = -r.1 := by ring
    rw [stack, stackOn, hoffset]

/-- A panel of a stack has its window, begins as high as the windows below it are together, and ends
its own height above that. -/
theorem stackOn_bottom_top {offset high : α} {windows : List (Range α)} {k : ℕ} {p : Panel α}
    (h : (stackOn offset high windows)[k]? = some p) :
    windows[k]? = some (p.low, p.high) ∧
      p.bottom = offset + high + stackHeight (windows.take k) ∧
      p.top = offset + high + stackHeight (windows.take (k + 1)) := by
  induction windows generalizing offset high k with
  | nil => exact absurd h (by simp [stackOn])
  | cons r rest ih =>
    rw [stackOn] at h
    cases k with
    | zero =>
      obtain rfl := Option.some.inj h
      refine ⟨rfl, ?_, ?_⟩
      · simp [Panel.bottom]
      · simp only [Panel.top, List.take_succ_cons, List.take_zero, stackHeight_cons,
          stackHeight_nil, Range.height]
        ring
    | succ k =>
      -- The panel above `r` is stacked on its upper end, which is its height above `offset + high`.
      obtain ⟨hwindow, hbottom, htop⟩ := ih h
      have hnext : offset + high - r.1 + r.2 = offset + high + r.height := by
        rw [Range.height]
        ring
      rw [hnext] at hbottom htop
      refine ⟨hwindow, ?_, ?_⟩
      · rw [hbottom, List.take_succ_cons, stackHeight_cons, add_assoc]
      · rw [htop, List.take_succ_cons, stackHeight_cons, add_assoc]

/-- More windows are not less high. -/
theorem stackHeight_take_mono {windows : List (Range α)} (h : ∀ r ∈ windows, r.1 ≤ r.2) {k m : ℕ}
    (hle : k ≤ m) : stackHeight (windows.take k) ≤ stackHeight (windows.take m) := by
  refine List.Sublist.sum_le_sum ((List.take_sublist_take_left hle).map _) fun height hheight => ?_
  obtain ⟨r, hr, rfl⟩ := List.mem_map.mp hheight
  exact sub_nonneg.mpr (h r (List.mem_of_mem_take hr))

/-! ## Collapsed windows -/

/-- Is the window at a position, counted from the bottom, collapsed? -/
def Collapses (alternate : Bool) (k : ℕ) : Prop := alternate = true ∧ k % 2 = 0

instance (alternate : Bool) : DecidablePred (Collapses alternate) := fun k =>
  inferInstanceAs (Decidable (alternate = true ∧ k % 2 = 0))

/-- The windows as they are stacked. -/
def stacked (ranges : List (Range α)) (alternate : Bool) : List (Range α) :=
  if alternate then collapseEven ranges else ranges

/-- The windows that are not collapsed. -/
def shown (ranges : List (Range α)) (alternate : Bool) : List (Range α) :=
  (ranges.zipIdx.filter fun r => ¬Collapses alternate r.2).map Prod.fst

theorem getElem?_stacked (ranges : List (Range α)) (alternate : Bool) (k : ℕ) :
    (stacked ranges alternate)[k]? =
      ranges[k]?.map fun r => if Collapses alternate k then (0, 0) else r := by
  unfold stacked Collapses
  cases alternate with
  | true => simp [getElem?_collapseEven]
  | false => simp

theorem stacked_eq_map (ranges : List (Range α)) (alternate : Bool) :
    stacked ranges alternate =
      ranges.zipIdx.map fun r => if Collapses alternate r.2 then (0, 0) else r.1 := by
  ext1 k
  rw [getElem?_stacked, List.getElem?_map, List.getElem?_zipIdx, Option.map_map, zero_add]
  rfl

theorem length_stacked (ranges : List (Range α)) (alternate : Bool) :
    (stacked ranges alternate).length = ranges.length := by
  rw [stacked_eq_map, List.length_map, List.length_zipIdx]

/-- Collapsed windows add nothing to the height. -/
theorem stackHeight_stacked (ranges : List (Range α)) (alternate : Bool) :
    stackHeight (stacked ranges alternate) = stackHeight (shown ranges alternate) := by
  rw [stacked_eq_map, shown]
  induction ranges.zipIdx with
  | nil => rfl
  | cons r rest ih =>
    by_cases hcollapsed : Collapses alternate r.2
    · simp [hcollapsed, ih, Range.height]
    · simp [hcollapsed, ih]

/-- Collapsed windows are not upside down either. -/
theorem forall_mem_stacked {ranges : List (Range α)} (h : ∀ r ∈ ranges, r.1 ≤ r.2)
    (alternate : Bool) : ∀ r ∈ stacked ranges alternate, r.1 ≤ r.2 := by
  intro r hr
  obtain ⟨k, hk⟩ := List.mem_iff_getElem?.mp hr
  rw [getElem?_stacked] at hk
  obtain ⟨r', hr', rfl⟩ := Option.map_eq_some_iff.mp hk
  split
  · exact le_rfl
  · exact h r' (List.mem_of_getElem? hr')

/-! ## Layouts -/

/-- A layout of windows, given from the bottom up.  There is a panel for each of them, from the top
down, with its own window or a collapsed one; `indexes` says of every position whether it has a
curve of its own; the panels begin at zero, each where the one below it ends, none overlaps another,
and together they are as high as the windows that are not collapsed. -/
structure Tiles (ranges : List (Range α)) (alternate : Bool) (l : PanelLayout α) : Prop where
  size : l.panels.length = ranges.length
  mem_indexes_iff : ∀ i, i ∈ l.indexes ↔ i < ranges.length ∧ (alternate = true → i % 2 = 1)
  increasing : l.indexes.Pairwise (· < ·)
  window : ∀ i k, i + k + 1 = ranges.length → ∃ p r, l.panels[i]? = some p ∧ ranges[k]? = some r ∧
    (p.low, p.high) = if Collapses alternate k then (0, 0) else r
  adjacent : ∀ i upper lower, l.panels[i]? = some upper → l.panels[i + 1]? = some lower →
    upper.bottom = lower.top
  lowest : ∃ p, l.panels.getLast? = some p ∧ p.bottom = 0
  upright : ∀ p ∈ l.panels, p.bottom ≤ p.top
  apart : l.panels.Pairwise fun upper lower => lower.top ≤ upper.bottom
  yRange : l.yRange? = some (0, ((shown ranges alternate).map fun r => r.2 - r.1).sum)

/-- Where the panel at a position of a turned stack begins and ends. -/
theorem reverse_stack_bottom_top {windows : List (Range α)} {i : ℕ} {p : Panel α}
    (h : (stack windows).reverse[i]? = some p) :
    i < windows.length ∧ windows[windows.length - 1 - i]? = some (p.low, p.high) ∧
      p.bottom = stackHeight (windows.take (windows.length - 1 - i)) ∧
      p.top = stackHeight (windows.take (windows.length - i)) := by
  rw [stack_eq_stackOn] at h
  have hi : i < windows.length := by
    have hlt := (List.getElem?_eq_some_iff.mp h).1
    rwa [List.length_reverse, length_stackOn] at hlt
  rw [List.getElem?_reverse (by rwa [length_stackOn]), length_stackOn] at h
  obtain ⟨hwindow, hbottom, htop⟩ := stackOn_bottom_top h
  have hnext : windows.length - 1 - i + 1 = windows.length - i := by omega
  rw [add_zero, zero_add] at hbottom htop
  rw [hnext] at htop
  exact ⟨hi, hwindow, hbottom, htop⟩

/-- No panel of a turned stack reaches into another one. -/
theorem reverse_stack_apart {windows : List (Range α)} (h : ∀ r ∈ windows, r.1 ≤ r.2) :
    (stack windows).reverse.Pairwise fun upper lower => lower.top ≤ upper.bottom := by
  rw [List.pairwise_iff_getElem]
  intro i j hi hj hij
  obtain ⟨-, -, hupper, -⟩ := reverse_stack_bottom_top (List.getElem?_eq_getElem hi)
  obtain ⟨-, -, -, hlower⟩ := reverse_stack_bottom_top (List.getElem?_eq_getElem hj)
  rw [hupper, hlower]
  exact stackHeight_take_mono h (by omega)

/-- What a layout is made of. -/
theorem ofRanges?_eq {ranges : List (Range α)} (hne : ranges ≠ []) (alternate : Bool) :
    ofRanges? ranges ranges.length alternate =
      some ⟨if alternate then (List.range ranges.length).filter (· % 2 == 1)
        else List.range ranges.length, (stack (stacked ranges alternate)).reverse⟩ := by
  rw [ofRanges?, if_neg (by simp [hne])]
  cases alternate with
  | true => rfl
  | false => rfl

/-- There is a layout only of windows that are as many as was said, and not none. -/
theorem length_eq_of_ofRanges?_eq_some {ranges : List (Range α)} {count : ℕ} {alternate : Bool}
    {l : PanelLayout α} (h : ofRanges? ranges count alternate = some l) :
    ranges.length = count ∧ ranges ≠ [] := by
  by_contra hnot
  rw [not_and_or, ne_eq, not_not, ← List.isEmpty_iff] at hnot
  rw [ofRanges?, if_pos hnot] at h
  cases h

section Layout

variable {ranges : List (Range α)} {alternate : Bool} {indexes : List ℕ}

/-- The panels of a layout, by the windows that they have. -/
theorem tiles_stack (hne : ranges ≠ []) (hranges : ∀ r ∈ ranges, r.1 ≤ r.2)
    (hmem : ∀ i, i ∈ indexes ↔ i < ranges.length ∧ (alternate = true → i % 2 = 1))
    (hincreasing : indexes.Pairwise (· < ·)) :
    Tiles ranges alternate ⟨indexes, (stack (stacked ranges alternate)).reverse⟩ := by
  have hpos := List.length_pos_iff.mpr hne
  have hlength := length_stacked ranges alternate
  have hupright := forall_mem_stacked hranges alternate
  have hsize : (stack (stacked ranges alternate)).reverse.length = ranges.length := by
    rw [List.length_reverse, stack_eq_stackOn, length_stackOn, hlength]
  have hpanel : ∀ i, i < ranges.length →
      ∃ p, (stack (stacked ranges alternate)).reverse[i]? = some p := fun i hi =>
    ⟨_, List.getElem?_eq_getElem (by rwa [hsize])⟩
  -- The last panel of the list is the first that was stacked, and its first panel the last.
  obtain ⟨highest, hhighest⟩ := hpanel 0 hpos
  obtain ⟨lowest, hlowest⟩ := hpanel (ranges.length - 1) (by omega)
  obtain ⟨-, -, -, htop⟩ := reverse_stack_bottom_top hhighest
  obtain ⟨-, -, hbottom, -⟩ := reverse_stack_bottom_top hlowest
  have hlast : (stack (stacked ranges alternate)).reverse.getLast? = some lowest := by
    rw [List.getLast?_eq_getElem?, hsize, hlowest]
  have hground : lowest.bottom = 0 := by
    rw [hbottom, hlength, Nat.sub_self, List.take_zero, stackHeight_nil]
  refine ⟨hsize, hmem, hincreasing, fun i k hik => ?_, fun i upper lower hupper hlower => ?_,
    ⟨lowest, hlast, hground⟩, fun p hp => ?_, reverse_stack_apart hupright, ?_⟩
  · obtain ⟨p, hp⟩ := hpanel i (by omega)
    obtain ⟨-, hwindow, -⟩ := reverse_stack_bottom_top hp
    have hk : (stacked ranges alternate).length - 1 - i = k := by omega
    rw [hk, getElem?_stacked] at hwindow
    obtain ⟨r, hr, hrange⟩ := Option.map_eq_some_iff.mp hwindow
    exact ⟨p, r, hp, hr, hrange.symm⟩
  · obtain ⟨-, -, hupper, -⟩ := reverse_stack_bottom_top hupper
    obtain ⟨-, -, -, hlower⟩ := reverse_stack_bottom_top hlower
    rw [hupper, hlower, Nat.sub_sub, Nat.add_comm 1 i]
  · obtain ⟨i, hi⟩ := List.mem_iff_getElem?.mp hp
    obtain ⟨-, -, hbottom, htop⟩ := reverse_stack_bottom_top hi
    rw [hbottom, htop]
    exact stackHeight_take_mono hupright (by omega)
  · rw [yRange?, hlast, List.head?_eq_getElem?, hhighest]
    dsimp only
    rw [hground, htop, Nat.sub_zero, List.take_length, stackHeight_stacked]
    rfl

end Layout

/-- **Panels are stacked without gaps**, over exact arithmetic, for every list of windows that are
not upside down and whether every other one is collapsed or not.  The listed positions are those of
the windows that are not collapsed, unless every other one is and their number is even: positions
are counted from the top and windows from the bottom. -/
theorem ofRanges?_tiles {ranges : List (Range α)} (hne : ranges ≠ [])
    (hranges : ∀ r ∈ ranges, r.1 ≤ r.2) (alternate : Bool) :
    ∃ l, ofRanges? ranges ranges.length alternate = some l ∧ Tiles ranges alternate l ∧
      ((∀ i k, i + k + 1 = ranges.length → (i ∈ l.indexes ↔ ¬Collapses alternate k)) ↔
        (alternate = true → ranges.length % 2 = 1)) := by
  have hpos := List.length_pos_iff.mpr hne
  refine ⟨_, ofRanges?_eq hne alternate, tiles_stack hne hranges (fun i => ?_) ?_, ?_⟩
  · cases alternate <;> simp
  · cases alternate with
    | true => exact List.pairwise_lt_range.filter _
    | false => exact List.pairwise_lt_range
  · cases alternate with
    | false =>
      refine ⟨fun _ h => absurd h Bool.false_ne_true, fun _ i k hik => ?_⟩
      exact ⟨fun _ h => Bool.false_ne_true h.1, fun _ => List.mem_range.mpr (by omega)⟩
    | true =>
      simp only [Collapses, if_true, true_and, List.mem_filter, List.mem_range, beq_iff_eq,
        forall_const]
      constructor
      · intro h
        have hfirst := h 0 (ranges.length - 1) (by omega)
        omega
      · intro hodd i k hik
        omega

/-- Three windows, the middle one reaching below zero, where the others are collapsed: the whole is
as high as the middle one, and that is where the only listed panel is. -/
theorem ofRanges?_tiles_middle :
    ([(9 / 10, 6 / 5), (-1 / 2, 2), (3 / 5, 5)] : List (Range ℝ)) ≠ [] ∧
    (∀ r ∈ ([(9 / 10, 6 / 5), (-1 / 2, 2), (3 / 5, 5)] : List (Range ℝ)), r.1 ≤ r.2) ∧
    ∃ l : PanelLayout ℝ,
      ofRanges? [(9 / 10, 6 / 5), (-1 / 2, 2), (3 / 5, 5)] 3 true = some l ∧
      l.panels.length = 3 ∧ l.yRange? = some (0, 5 / 2) ∧ (1 ∈ l.indexes ∧ 2 ∉ l.indexes) ∧
      ∀ upper lower, l.panels[0]? = some upper → l.panels[1]? = some lower →
        upper.bottom = lower.top := by
  have hne : ([(9 / 10, 6 / 5), (-1 / 2, 2), (3 / 5, 5)] : List (Range ℝ)) ≠ [] :=
    List.cons_ne_nil _ _
  have hranges : ∀ r ∈ ([(9 / 10, 6 / 5), (-1 / 2, 2), (3 / 5, 5)] : List (Range ℝ)),
      r.1 ≤ r.2 := by
    simp only [List.forall_mem_cons]
    norm_num
  obtain ⟨l, hl, htiles, -⟩ := ofRanges?_tiles hne hranges true
  refine ⟨hne, hranges, l, hl, htiles.size, ?_, ⟨?_, ?_⟩, htiles.adjacent 0⟩
  · have hshown : shown ([(9 / 10, 6 / 5), (-1 / 2, 2), (3 / 5, 5)] : List (Range ℝ)) true =
        [(-1 / 2, 2)] := rfl
    rw [htiles.yRange, hshown]
    norm_num
  · exact (htiles.mem_indexes_iff 1).mpr ⟨by decide, fun _ => rfl⟩
  · exact fun h => absurd ((htiles.mem_indexes_iff 2).mp h).2 (by decide)

end PanelLayout

end SphereLab
