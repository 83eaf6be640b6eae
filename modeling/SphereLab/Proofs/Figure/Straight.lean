import Mathlib
import SphereLab.Figure.Canvas

/-!
# Straight lines through cells

A straight line goes from its start to its target in as many steps as the longer of its two extents
has, and after each step it is on a cell that is nearest to the straight line: along either axis it
has gone as many cells as that share of the extent, rounded with halves up.  The error term of the
pen says how far it is from that line, so what a step does to it is what rounding does.

* `Pen.step_at`: one step of the pen.
* `lineCells_eq`: the cells of a line, one after the other.
* `right_mem_lineCells`: its end.
* `between_of_mem_lineCells`: it stays between them.
* `mem_lineCells_row_iff`, `mem_lineCells_column_iff`: lines along the axes.
-/

namespace SphereLab

namespace Canvas

/-! ## Shares of an extent -/

/-- How many cells of an extent have been gone after some of the steps, rounded with halves up. -/
def share (steps extent k : ℕ) : ℕ := (2 * extent * k + steps) / (2 * steps)

section Share

variable {n m : ℕ} (k : ℕ)

theorem share_bounds (h : 0 < n) :
    2 * n * share n m k ≤ 2 * m * k + n ∧ 2 * m * k + n < 2 * n * (share n m k + 1) := by
  have hpos : 0 < 2 * n := by omega
  have hmod := Nat.mod_lt (2 * m * k + n) hpos
  have hdiv := Nat.div_add_mod (2 * m * k + n) (2 * n)
  rw [share]
  constructor
  · omega
  · rw [mul_add, mul_one]
    omega

theorem share_eq_iff (h : 0 < n) {cells : ℕ} :
    share n m k = cells ↔
      2 * n * cells ≤ 2 * m * k + n ∧ 2 * m * k + n < 2 * n * (cells + 1) := by
  constructor
  · rintro rfl
    exact share_bounds k h
  · rintro ⟨hlow, hhigh⟩
    exact Nat.div_eq_of_lt_le (by linarith) (by linarith)

theorem share_zero : share n m 0 = 0 := by
  rcases Nat.eq_zero_or_pos n with rfl | h
  · simp [share]
  · rw [share_eq_iff 0 h]
    constructor <;> nlinarith

/-- Where there is nothing to go, nothing is gone. -/
theorem share_of_zero : share n 0 k = 0 := by
  rcases Nat.eq_zero_or_pos n with rfl | h
  · simp [share]
  · rw [share_eq_iff k h]
    constructor <;> nlinarith

/-- Along the longer extent, every step is one cell. -/
theorem share_self (h : 0 < n) : share n n k = k := by
  rw [share_eq_iff k h]
  constructor <;> nlinarith

/-- After all steps, all of the extent has been gone. -/
theorem share_all (h : m ≤ n) : share n m n = m := by
  rcases Nat.eq_zero_or_pos n with rfl | hpos
  · obtain rfl : m = 0 := by omega
    rfl
  · rw [share_eq_iff n hpos]
    constructor <;> nlinarith

/-- No more than the extent is gone. -/
theorem share_le {k : ℕ} (h : k ≤ n) : share n m k ≤ m := by
  rcases Nat.eq_zero_or_pos n with rfl | hpos
  · simp [share]
  · obtain ⟨hlow, -⟩ := share_bounds (m := m) k hpos
    have hall : 2 * m * k ≤ 2 * m * n := Nat.mul_le_mul_left _ h
    by_contra hmore
    have hextent : 2 * n * (m + 1) ≤ 2 * n * share n m k := Nat.mul_le_mul_left _ (by omega)
    linarith

/-- A step is at most one cell, and it is one exactly if the share is past half a cell. -/
theorem share_succ (hpos : 0 < n) (h : m ≤ n) :
    share n m (k + 1) = share n m k +
      if 2 * n * (share n m k + 1) ≤ 2 * m * (k + 1) + n then 1 else 0 := by
  obtain ⟨hlow, hhigh⟩ := share_bounds (m := m) k hpos
  rw [share_eq_iff (k + 1) hpos]
  split
  · rename_i hmove
    exact ⟨hmove, by nlinarith⟩
  · rename_i hstay
    exact ⟨by nlinarith, by simpa using hstay⟩

end Share

/-! ## The way of the pen -/

section Line

variable (start target : Cell)

/-- The number of columns from one end to the other. -/
def columnsBetween : ℕ := (target.1 - start.1).natAbs

/-- The number of rows from one end to the other. -/
def rowsBetween : ℕ := (target.2 - start.2).natAbs

/-- The number of steps of a straight line. -/
def stepsBetween : ℕ := max (columnsBetween start target) (rowsBetween start target)

/-- The direction of a line along an axis. -/
def direction (start target : ℤ) : ℤ := if start < target then 1 else -1

/-- The cell of a straight line after some of its steps. -/
def cellAt (k : ℕ) : Cell :=
  (start.1 + direction start.1 target.1 *
      share (stepsBetween start target) (columnsBetween start target) k,
    start.2 + direction start.2 target.2 *
      share (stepsBetween start target) (rowsBetween start target) k)

/-- The pen after some of the steps: at a cell of the line, with the distance from the line as its
error. -/
def Pen.at (k : ℕ) : Pen :=
  ⟨(cellAt start target k).1, (cellAt start target k).2,
    columnsBetween start target *
        (share (stepsBetween start target) (rowsBetween start target) k + 1) -
      rowsBetween start target *
        (share (stepsBetween start target) (columnsBetween start target) k + 1)⟩

/-- The error of the pen tells along which axes the next step goes. -/
theorem step_conditions {columns rows steps : ℕ} (hpos : 0 < steps) (hsteps : steps = max columns rows)
    (k : ℕ) :
    (-(rows : ℤ) ≤ 2 * (columns * (share steps rows k + 1) - rows * (share steps columns k + 1)) ↔
      2 * steps * (share steps columns k + 1) ≤ 2 * columns * (k + 1) + steps) ∧
    (2 * (columns * (share steps rows k + 1) - rows * (share steps columns k + 1)) ≤ (columns : ℤ) ↔
      2 * steps * (share steps rows k + 1) ≤ 2 * rows * (k + 1) + steps) := by
  obtain ⟨-, hcolumns⟩ := share_bounds (m := columns) k hpos
  obtain ⟨-, hrows⟩ := share_bounds (m := rows) k hpos
  rcases le_total rows columns with hle | hle
  · -- Along the rows the error says it; along the columns every step goes.
    obtain rfl : steps = columns := by omega
    rw [share_self k hpos] at hcolumns ⊢
    zify at hle hrows hpos ⊢
    constructor
    · constructor
      · intro _
        nlinarith
      · intro _
        nlinarith
    · constructor <;> intro h <;> linarith
  · obtain rfl : steps = rows := by omega
    rw [share_self k hpos] at hrows ⊢
    zify at hle hcolumns hpos ⊢
    constructor
    · constructor <;> intro h <;> linarith
    · constructor
      · intro _
        nlinarith
      · intro _
        nlinarith

/-- One step of the pen is one step along the line. -/
theorem Pen.step_at (hpos : 0 < stepsBetween start target) (k : ℕ) :
    (Pen.at start target k).step (columnsBetween start target) (-(rowsBetween start target : ℤ))
      (direction start.1 target.1) (direction start.2 target.2) = Pen.at start target (k + 1) := by
  obtain ⟨hacross, hdown⟩ := step_conditions hpos rfl k
  have hcolumns := share_succ k hpos (m := columnsBetween start target) (le_max_left _ _)
  have hrows := share_succ k hpos (m := rowsBetween start target) (le_max_right _ _)
  rw [Pen.step, Pen.at, Pen.at, cellAt, cellAt, hcolumns, hrows]
  simp only [hacross, hdown]
  split <;> split <;> simp only [Pen.mk.injEq] <;> push_cast <;> refine ⟨?_, ?_, ?_⟩ <;> ring

/-! ## The cells of a line -/

theorem add_direction_mul (start target : ℤ) :
    start + direction start target * (target - start).natAbs = target := by
  rw [direction]
  split <;> omega

theorem cellAt_zero : cellAt start target 0 = start := by
  simp [cellAt, share_zero]

theorem cellAt_stepsBetween : cellAt start target (stepsBetween start target) = target := by
  have hcolumns : share (stepsBetween start target) (columnsBetween start target)
      (stepsBetween start target) = columnsBetween start target := share_all (le_max_left _ _)
  have hrows : share (stepsBetween start target) (rowsBetween start target)
      (stepsBetween start target) = rowsBetween start target := share_all (le_max_right _ _)
  rw [cellAt, hcolumns, hrows, columnsBetween, rowsBetween, add_direction_mul, add_direction_mul]

/-- No two steps end on one cell: along the longer extent they do not. -/
theorem cellAt_inj {k k' : ℕ} (hk : k ≤ stepsBetween start target)
    (hk' : k' ≤ stepsBetween start target) (h : cellAt start target k = cellAt start target k') :
    k = k' := by
  have hcancel : ∀ a b : ℤ, ∀ m n : ℕ, a + direction a b * m = a + direction a b * n → m = n := by
    intro a b m n heq
    have hunit : direction a b ≠ 0 := by
      rw [direction]
      split <;> decide
    exact_mod_cast mul_left_cancel₀ hunit (add_left_cancel heq)
  rcases Nat.eq_zero_or_pos (stepsBetween start target) with hzero | hpos
  · omega
  · obtain ⟨hacross, hdown⟩ := Prod.ext_iff.mp h
    rcases le_total (rowsBetween start target) (columnsBetween start target) with hle | hle
    · have hsteps : stepsBetween start target = columnsBetween start target := max_eq_left hle
      have hshares := hcancel _ _ _ _ hacross
      rwa [← hsteps, share_self k hpos, share_self k' hpos] at hshares
    · have hsteps : stepsBetween start target = rowsBetween start target := max_eq_right hle
      have hshares := hcancel _ _ _ _ hdown
      rwa [← hsteps, share_self k hpos, share_self k' hpos] at hshares

/-- A line is not at its target before its last step. -/
theorem cellAt_ne_target {k : ℕ} (hk : k < stepsBetween start target) :
    ¬((cellAt start target k).1 = target.1 ∧ (cellAt start target k).2 = target.2) := by
  intro hat
  have hlast := (Prod.ext_iff.mpr hat).trans (cellAt_stepsBetween start target).symm
  exact hk.ne (cellAt_inj start target hk.le le_rfl hlast)

/-- The cells from a pen on its way: those after the steps that are left. -/
theorem cellsFrom_at (fuel k : ℕ) (hk : k + fuel = stepsBetween start target) :
    cellsFrom (columnsBetween start target) (-(rowsBetween start target : ℤ))
        (direction start.1 target.1) (direction start.2 target.2) target (Pen.at start target k)
        fuel =
      (List.range' k (fuel + 1)).map (cellAt start target) := by
  induction fuel generalizing k with
  | zero => rfl
  | succ fuel ih =>
    rw [cellsFrom, Pen.step_at start target (by omega), ih (k + 1) (by omega), List.range'_succ,
      List.map_cons]
    exact if_neg (cellAt_ne_target start target (by omega))

/-- **The cells of a straight line**: the ones that are nearest after each of its steps. -/
theorem lineCells_eq :
    lineCells start target =
      (List.range (stepsBetween start target + 1)).map (cellAt start target) := by
  have hpen : Pen.at start target 0 = ⟨start.1, start.2,
      columnsBetween start target + -(rowsBetween start target : ℤ)⟩ := by
    rw [Pen.at, cellAt_zero, share_zero, share_zero]
    simp [sub_eq_add_neg]
  have hcells := cellsFrom_at start target (stepsBetween start target) 0 (Nat.zero_add _)
  rw [hpen] at hcells
  rw [List.range_eq_range', ← hcells]
  rfl

theorem mem_lineCells_iff {c : Cell} :
    c ∈ lineCells start target ↔
      ∃ k ≤ stepsBetween start target, cellAt start target k = c := by
  rw [lineCells_eq, List.mem_map]
  simp only [List.mem_range, Nat.lt_succ_iff]

theorem right_mem_lineCells : target ∈ lineCells start target :=
  (mem_lineCells_iff _ _).mpr ⟨_, le_rfl, cellAt_stepsBetween _ _⟩

/-- Some of the way from one place to another ends between them. -/
theorem add_direction_mul_mem {start target : ℤ} {cells : ℕ}
    (h : cells ≤ (target - start).natAbs) :
    min start target ≤ start + direction start target * cells ∧
      start + direction start target * cells ≤ max start target := by
  rw [direction]
  split <;> omega

/-- A line stays between its ends along either axis. -/
theorem between_of_mem_lineCells {c : Cell} (h : c ∈ lineCells start target) :
    (min start.1 target.1 ≤ c.1 ∧ c.1 ≤ max start.1 target.1) ∧
      min start.2 target.2 ≤ c.2 ∧ c.2 ≤ max start.2 target.2 := by
  obtain ⟨k, hk, rfl⟩ := (mem_lineCells_iff start target).mp h
  exact ⟨add_direction_mul_mem (share_le hk), add_direction_mul_mem (share_le hk)⟩

/-- Rows and columns are alike to a line. -/
theorem mem_lineCells_swap_iff {c : Cell} :
    c ∈ lineCells start.swap target.swap ↔ c.swap ∈ lineCells start target := by
  have hsteps : stepsBetween start.swap target.swap = stepsBetween start target := max_comm _ _
  have hcell : ∀ k, cellAt start.swap target.swap k = (cellAt start target k).swap := by
    intro k
    rw [cellAt, hsteps]
    rfl
  rw [mem_lineCells_iff, mem_lineCells_iff, hsteps]
  simp only [hcell, Prod.swap_eq_iff_eq_swap]

end Line

/-! ## Lines along the axes -/

section Axes

variable {c : Cell} {last : ℕ} {place : ℤ}

/-- A line along a row is on one cell after the other. -/
theorem cellAt_row {k : ℕ} (hk : k ≤ last) :
    cellAt (0, place) ((last : ℤ), place) k = ((k : ℤ), place) := by
  have hcolumns : columnsBetween (0, place) ((last : ℤ), place) = last := by
    simp [columnsBetween]
  have hrows : rowsBetween (0, place) ((last : ℤ), place) = 0 := by simp [rowsBetween]
  have hsteps : stepsBetween (0, place) ((last : ℤ), place) = last := by
    rw [stepsBetween, hcolumns, hrows, Nat.max_zero]
  have hshare : direction 0 last * share last last k = k := by
    rcases Nat.eq_zero_or_pos last with rfl | hpos
    · obtain rfl : k = 0 := by omega
      simp [share_zero]
    · rw [share_self k hpos, direction, if_pos (by exact_mod_cast hpos), one_mul]
  unfold cellAt
  rw [hsteps, hcolumns, hrows, share_of_zero, hshare]
  simp

/-- A line along a row has all cells from its one end to the other. -/
theorem mem_lineCells_row_iff :
    c ∈ lineCells (0, place) ((last : ℤ), place) ↔ c.2 = place ∧ 0 ≤ c.1 ∧ c.1 ≤ last := by
  have hsteps : stepsBetween (0, place) ((last : ℤ), place) = last := by
    simp [stepsBetween, columnsBetween, rowsBetween]
  rw [mem_lineCells_iff, hsteps]
  constructor
  · rintro ⟨k, hk, rfl⟩
    rw [cellAt_row hk]
    exact ⟨rfl, Int.natCast_nonneg k, Int.ofNat_le.mpr hk⟩
  · rintro ⟨hplace, hlow, hhigh⟩
    have hk : c.1.toNat ≤ last := by omega
    refine ⟨c.1.toNat, hk, ?_⟩
    rw [cellAt_row hk, Int.toNat_of_nonneg hlow, ← hplace]

/-- A line along a column has all cells from its one end to the other. -/
theorem mem_lineCells_column_iff :
    c ∈ lineCells (place, 0) (place, (last : ℤ)) ↔ c.1 = place ∧ 0 ≤ c.2 ∧ c.2 ≤ last :=
  (mem_lineCells_swap_iff (0, place) ((last : ℤ), place)).trans mem_lineCells_row_iff

end Axes

end Canvas

end SphereLab
