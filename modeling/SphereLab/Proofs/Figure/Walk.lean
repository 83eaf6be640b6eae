import Mathlib
import SphereLab.Proofs.Figure.Strokes

/-!
# The walk of the pen

A line is drawn by a pen that writes on its cell and steps on, and that stops only where it is at
the target in both coordinates at once.  Nothing in the loop counts the steps: a pen that passed the
target in one coordinate would go on for ever.  It does not, since along each axis it has gone the
share of the extent that belongs to the steps taken, and all shares are whole at the last step and
not before.  So the walk, told without any bound, ends, and it is the one that `lineCells` lists
with as many steps to spare as the longer extent has.

* `Draws`: the loop, from a pen and a grid to the visited cells and the grid that is left.
* `draws_first_iff`: what the loop visits and leaves.
* `Connects`, `connects_lineCells`: the visited cells lead from the start to the target.
* `at?_drawLine`: the visited cells that held a blank or a guide are written, and no others.
-/

namespace SphereLab

namespace Canvas

/-! ## The loop -/

/-- The cell of a pen. -/
def Pen.cell (p : Pen) : Cell := (p.x, p.y)

section Loop

variable (ch : Char) (start target : Cell)

/-- The pen before its first step. -/
def Pen.first : Pen :=
  ⟨start.1, start.2, columnsBetween start target + -(rowsBetween start target : ℤ)⟩

/-- One step of the pen on its way from a start to a target. -/
def Pen.next (p : Pen) : Pen :=
  p.step (columnsBetween start target) (-(rowsBetween start target : ℤ))
    (direction start.1 target.1) (direction start.2 target.2)

/-- The loop that draws a line: the pen writes where there is a blank or a guide, stops on the
target, and otherwise takes a step.  The cells are those on which the pen has been, in their order,
and the second grid is the one that it leaves. -/
inductive Draws : Pen → Grid → List Cell → Grid → Prop where
  | stop {p : Pen} {g : Grid} (hat : p.cell = target) :
      Draws p g [p.cell] (putBelow ch g p.cell)
  | step {p : Pen} {g g' : Grid} {cells : List Cell} (hoff : p.cell ≠ target)
      (hrest : Draws (Pen.next start target p) (putBelow ch g p.cell) cells g') :
      Draws p g (p.cell :: cells) g'

variable {ch start target} {p : Pen} {g g' g'' : Grid} {cells cells' : List Cell}

/-- A pen has one walk at most. -/
theorem Draws.unique (h : Draws ch start target p g cells g')
    (h' : Draws ch start target p g cells' g'') : cells' = cells ∧ g'' = g' := by
  induction h generalizing cells' g'' with
  | stop hat =>
    cases h' with
    | stop => exact ⟨rfl, rfl⟩
    | step hoff => exact absurd hat hoff
  | step hoff _ ih =>
    cases h' with
    | stop hat => exact absurd hat hoff
    | step _ hrest =>
      obtain ⟨rfl, rfl⟩ := ih hrest
      exact ⟨rfl, rfl⟩

variable (ch start target)

theorem Pen.first_eq_at : Pen.first start target = Pen.at start target 0 := by
  rw [Pen.first, Pen.at, cellAt_zero, share_zero, share_zero]
  simp [sub_eq_add_neg]

/-- The walk from a pen on its way takes the steps that are left. -/
theorem draws_at (left k : ℕ) (hk : k + left = stepsBetween start target) (g : Grid) :
    Draws ch start target (Pen.at start target k) g
      ((List.range' k (left + 1)).map (cellAt start target))
      (((List.range' k (left + 1)).map (cellAt start target)).foldl (putBelow ch) g) := by
  induction left generalizing k g with
  | zero =>
    obtain rfl : k = stepsBetween start target := by omega
    exact .stop (cellAt_stepsBetween start target)
  | succ left ih =>
    have hoff : (Pen.at start target k).cell ≠ target := fun hat =>
      cellAt_ne_target start target (by omega) (Prod.ext_iff.mp hat)
    have hnext : Pen.next start target (Pen.at start target k) = Pen.at start target (k + 1) :=
      Pen.step_at start target (by omega) k
    rw [List.range'_succ, List.map_cons, List.foldl_cons]
    refine .step hoff ?_
    rw [hnext]
    exact ih (k + 1) (by omega) _

/-- **The loop ends**, and what it visits and leaves are the cells and the grid of the line. -/
theorem draws_first_iff :
    Draws ch start target (Pen.first start target) g cells g' ↔
      cells = lineCells start target ∧ g' = drawLine ch g start target := by
  have hdraws := draws_at ch start target (stepsBetween start target) 0 (Nat.zero_add _) g
  rw [← Pen.first_eq_at, ← List.range_eq_range', ← lineCells_eq] at hdraws
  constructor
  · exact fun h => hdraws.unique h
  · rintro ⟨rfl, rfl⟩
    exact hdraws

end Loop

/-! ## From the start to the target -/

/-- One cell after another on the way to a target: not more than one cell away along either axis,
and along neither farther from the target. -/
structure Nears (target c c' : Cell) : Prop where
  column : (c'.1 - c.1).natAbs ≤ 1
  row : (c'.2 - c.2).natAbs ≤ 1
  columnsLeft : (target.1 - c'.1).natAbs ≤ (target.1 - c.1).natAbs
  rowsLeft : (target.2 - c'.2).natAbs ≤ (target.2 - c.2).natAbs

/-- Cells that lead from a start to a target, one more than the longer extent has, without a gap and
without a way back. -/
structure Connects (start target : Cell) (cells : List Cell) : Prop where
  length : cells.length = max (target.1 - start.1).natAbs (target.2 - start.2).natAbs + 1
  first : cells.head? = some start
  last : cells.getLast? = some target
  steps : cells.IsChain (Nears target)
  nodup : cells.Nodup
  between : ∀ c ∈ cells, (min start.1 target.1 ≤ c.1 ∧ c.1 ≤ max start.1 target.1) ∧
    min start.2 target.2 ≤ c.2 ∧ c.2 ≤ max start.2 target.2

/-- What one step of the pen does along an axis. -/
theorem nears_axis {start target : ℤ} {gone gone' : ℕ} (hstep : gone ≤ gone' ∧ gone' ≤ gone + 1)
    (hall : gone' ≤ (target - start).natAbs) :
    (start + direction start target * gone' - (start + direction start target * gone)).natAbs ≤ 1 ∧
      (target - (start + direction start target * gone')).natAbs ≤
        (target - (start + direction start target * gone)).natAbs := by
  unfold direction
  split <;> omega

/-- Along either axis, a step goes one cell or none. -/
theorem share_step {n m : ℕ} (hpos : 0 < n) (h : m ≤ n) (k : ℕ) :
    share n m k ≤ share n m (k + 1) ∧ share n m (k + 1) ≤ share n m k + 1 := by
  rw [share_succ k hpos h]
  split <;> omega

variable (ch : Char) (g : Grid) (start target : Cell)

theorem nears_cellAt {k : ℕ} (hk : k < stepsBetween start target) :
    Nears target (cellAt start target k) (cellAt start target (k + 1)) := by
  have hpos : 0 < stepsBetween start target := by omega
  obtain ⟨hcolumn, hcolumns⟩ := nears_axis (share_step hpos (le_max_left _ _) k)
    (share_le (m := columnsBetween start target) (k := k + 1) hk)
  obtain ⟨hrow, hrows⟩ := nears_axis (share_step hpos (le_max_right _ _) k)
    (share_le (m := rowsBetween start target) (k := k + 1) hk)
  exact ⟨hcolumn, hrow, hcolumns, hrows⟩

theorem nodup_lineCells : (lineCells start target).Nodup := by
  rw [lineCells_eq]
  refine List.Nodup.map_on (fun k hk k' hk' heq => ?_) List.nodup_range
  rw [List.mem_range, Nat.lt_succ_iff] at hk hk'
  exact cellAt_inj start target hk hk' heq

/-- **A line connects its ends.** -/
theorem connects_lineCells : Connects start target (lineCells start target) where
  length := by
    rw [lineCells_eq, List.length_map, List.length_range]
    rfl
  first := by
    rw [lineCells_eq, List.range_succ_eq_map, List.map_cons, List.head?_cons, cellAt_zero]
  last := by
    rw [lineCells_eq, List.range_succ, List.map_append, List.map_singleton, List.getLast?_concat,
      cellAt_stepsBetween]
  steps := by
    rw [lineCells_eq, List.isChain_iff_getElem]
    intro k hk
    rw [List.length_map, List.length_range] at hk
    simp only [List.getElem_map, List.getElem_range]
    exact nears_cellAt start target (by omega)
  nodup := nodup_lineCells start target
  between := fun _ hc => between_of_mem_lineCells start target hc

/-! ## What is written -/

/-- What a line makes of the cells of a grid: its own character on its cells that held a blank or a
guide, and nothing elsewhere. -/
theorem at?_drawLine (c : Cell) :
    at? (drawLine ch g start target) c = (at? g c).map fun old =>
      if c ∈ lineCells start target ∧ (old = ' ' ∨ old = ':') then ch else old := by
  rw [drawLine_eq_paint, at?_paint]
  congr 1
  funext old
  have hstrokes : (lineStrokes ch start target).filter (·.cell = c) =
      List.replicate ((lineCells start target).count c) ⟨ch, false, c⟩ := by
    rw [lineStrokes, List.filter_map]
    change ((lineCells start target).filter (· = c)).map _ = _
    rw [List.filter_eq, List.map_replicate]
  rw [hstrokes]
  by_cases hc : c ∈ lineCells start target
  · rw [List.count_eq_one_of_mem (nodup_lineCells start target) hc]
    simp [painted, Stroke.on, hc]
  · rw [List.count_eq_zero_of_not_mem hc]
    simp [painted, hc]

/-! ## Lines on a grid -/

/-- Is a cell on a grid of a size? -/
def InGrid (width height : ℕ) (c : Cell) : Prop :=
  (0 ≤ c.1 ∧ c.1 < width) ∧ 0 ≤ c.2 ∧ c.2 < height

instance (width height : ℕ) : DecidablePred (InGrid width height) := fun c =>
  inferInstanceAs (Decidable ((0 ≤ c.1 ∧ c.1 < width) ∧ 0 ≤ c.2 ∧ c.2 < height))

/-- **A line is drawn in finitely many steps, from its start to its target.**  Whatever the two ends
are, the loop of the pen ends, and it visits one cell more than the longer extent has: the start
first, the target last, each a neighbour of the one before it and not farther from the target along
either axis, all between the ends and no cell twice, so all of them on every grid that has both
ends.  What it leaves is the grid with the character of the line on those of them that held a blank
or a guide. -/
theorem drawLine_connects :
    (∀ cells g', Draws ch start target (Pen.first start target) g cells g' ↔
      cells = lineCells start target ∧ g' = drawLine ch g start target) ∧
    Connects start target (lineCells start target) ∧
    (∀ width height, InGrid width height start → InGrid width height target →
      ∀ c ∈ lineCells start target, InGrid width height c) ∧
    ∀ c, at? (drawLine ch g start target) c = (at? g c).map fun old =>
      if c ∈ lineCells start target ∧ (old = ' ' ∨ old = ':') then ch else old := by
  refine ⟨fun cells g' => draws_first_iff ch start target, connects_lineCells start target,
    fun width height hstart htarget c hc => ?_, at?_drawLine ch g start target⟩
  obtain ⟨hcolumn, hrow⟩ := between_of_mem_lineCells start target hc
  unfold InGrid at *
  omega

/-- A line to the left and up, across a guide with a marker on it: seven cells are visited, and the
marker is left as it is. -/
theorem drawLine_connects_leftward :
    (Draws '*' (6, 2) (0, 0) (Pen.first (6, 2) (0, 0))
      ["       ".toList, "::o::::".toList, "       ".toList]
      [(6, 2), (5, 2), (4, 1), (3, 1), (2, 1), (1, 0), (0, 0)]
      ["**     ".toList, "::o**::".toList, "     **".toList]) ∧
    (InGrid 7 3 (6, 2) ∧ InGrid 7 3 (0, 0) ∧ ∀ c ∈ lineCells (6, 2) (0, 0), InGrid 7 3 c) ∧
    at? (drawLine '*' ["       ".toList, "::o::::".toList, "       ".toList] (6, 2) (0, 0)) (2, 1) =
      some 'o' := by
  obtain ⟨hdraws, -, hgrid, hat⟩ := drawLine_connects '*'
    ["       ".toList, "::o::::".toList, "       ".toList] (6, 2) (0, 0)
  refine ⟨(hdraws _ _).mpr ⟨by decide, by decide⟩, ⟨by decide, by decide, ?_⟩, ?_⟩
  · exact hgrid 7 3 (by decide) (by decide)
  · rw [hat]
    decide

end Canvas

end SphereLab
