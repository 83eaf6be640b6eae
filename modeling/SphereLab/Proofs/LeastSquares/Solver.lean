import Mathlib
import SphereLab.LeastSquares.Linear
import SphereLab.Proofs.LeastSquares.Descent

/-!
# The shape of a solution

A solution has one entry for each column of the matrix, whatever the numbers are: rotations of pairs
of columns keep their number, and a combination of two columns is as long as the first of them, so
the sum over the columns is as long as the zero at which it starts.

* `FitsShape`: solvers whose solutions have the width of the matrix.
* `fitsShape_solveLinear`: the solver by rotations is one.
* `answers_of_fitsShape`: what a minimisation takes of its solver.
-/

namespace SphereLab

namespace LinearSystem

/-! ## Sizes of columns -/

@[simp] theorem size_push (a : FloatArray) (x : Float) : (a.push x).size = a.size + 1 :=
  Array.size_push x

theorem size_combine (p q : Float) (a b : FloatArray) : (combine p q a b).size = a.size := by
  have hfold : ∀ n (entry : (i : ℕ) → i < n → Float), (Nat.fold n
      (fun i hi acc => acc.push (entry i hi)) (FloatArray.emptyWithCapacity a.size)).size = n := by
    intro n
    induction n with
    | zero => exact fun _ => rfl
    | succ n ih =>
      intro entry
      rw [Nat.fold_succ, size_push, ih]
  exact hfold a.size _

theorem size_columnOf (xs : List Float) : (columnOf xs).size = xs.length := by
  have hfold : ∀ a : FloatArray, (xs.foldl FloatArray.push a).size = a.size + xs.length := by
    induction xs with
    | nil => exact fun _ => rfl
    | cons x rest ih =>
      intro a
      rw [List.foldl_cons, ih, size_push, List.length_cons]
      omega
  rw [columnOf, hfold]
  exact Nat.zero_add _

/-! ## Numbers of columns -/

theorem size_rotatePair (i j : ℕ) (s : Rotated) (moved : Bool) :
    (rotatePair i j s moved).1.columns.size = s.columns.size := by
  unfold rotatePair
  split
  · dsimp only
    split
    · rfl
    · simp
  · rfl

/-- What each step of a loop leaves as it was is as it was after the loop. -/
theorem fold_eq {β γ : Type} (measure : β → γ) {n : ℕ} {step : (i : ℕ) → i < n → β → β}
    (h : ∀ i hi b, measure (step i hi b) = measure b) (b : β) :
    measure (Nat.fold n step b) = measure b := by
  induction n with
  | zero => rfl
  | succ n ih => rw [Nat.fold_succ, h, ih fun i hi => h i _]

theorem size_rotateAll (s : Rotated) : (rotateAll s).1.columns.size = s.columns.size := by
  rw [rotateAll]
  refine fold_eq (fun state : Rotated × Bool => state.1.columns.size) (fun i _ state => ?_) _
  exact fold_eq (fun state : Rotated × Bool => state.1.columns.size)
    (fun k _ state => size_rotatePair _ _ _ _) state

theorem size_orthogonalise (s : Rotated) (fuel : ℕ) :
    (orthogonalise s fuel).columns.size = s.columns.size := by
  induction fuel generalizing s with
  | zero => rfl
  | succ fuel ih =>
    rw [orthogonalise]
    dsimp only
    split
    · rw [ih, size_rotateAll]
    · exact size_rotateAll s

/-! ## Solutions -/

theorem length_solutionAt (tolerance : Float) (s : Rotated) (rhs : FloatArray) :
    (solutionAt tolerance s rhs).length = s.columns.size := by
  have hfold : ∀ (pairs : List (FloatArray × FloatArray)) (acc : FloatArray),
      (pairs.foldl (fun acc pair =>
        if tolerance < (dot pair.1 pair.1).sqrt then
          combine 1.0 (dot pair.1 rhs / dot pair.1 pair.1) acc pair.2
        else acc) acc).size = acc.size := by
    intro pairs
    induction pairs with
    | nil => exact fun _ => rfl
    | cons pair rest ih =>
      intro acc
      rw [List.foldl_cons, ih]
      split
      · exact size_combine _ _ _ _
      · rfl
  have hzero : (combine 0.0 0.0 (columnOf (List.replicate s.columns.size 0.0)) (columnOf [])).size =
      s.columns.size := by
    rw [size_combine, size_columnOf, List.length_replicate]
  rw [solutionAt, ← Array.foldl_toList]
  exact Array.length_toList.trans ((hfold _ _).trans hzero)

end LinearSystem

namespace LevenbergMarquardt

/-- A solution for a matrix, if the solver finds one, has one entry for each of its columns. -/
def FitsShape {α : Type} (solve : List (List α) → List α → Option (List α)) : Prop :=
  ∀ rows target step height width, 0 < height → IsMatrix rows height width →
    target.length = height → solve rows target = some step → step.length = width

open LinearSystem in
/-- The solver by rotations finds solutions of the right shape. -/
theorem fitsShape_solveLinear : FitsShape solveLinear := by
  intro rows target step height width hpos hmatrix _ hsolve
  obtain ⟨row, rest, rfl⟩ := List.exists_cons_of_length_pos (hmatrix.1.symm ▸ hpos)
  have hwidth : row.length = width := hmatrix.2 row List.mem_cons_self
  rw [solveLinear] at hsolve
  dsimp only at hsolve
  split at hsolve
  · obtain ⟨tolerance, -, htolerance⟩ := List.exists_of_findSome?_eq_some hsolve
    have hstep := Option.some.inj (Option.ite_none_right_eq_some.mp htolerance).2
    rw [← hstep, length_solutionAt, size_orthogonalise]
    simp [columnsOf, hwidth]
  · exact absurd hsolve (by simp)

/-- A solver of the right shape gives a minimisation what it asks for. -/
theorem answers_of_fitsShape {α : Type} [Scalar α]
    {solve : List (List α) → List α → Option (List α)} (h : FitsShape solve)
    (residuals : List α → List α) (options : Options α) {start : List α} (hstart : start ≠ []) :
    Task.Answers ⟨residuals, fun _ => solve, options⟩ start := by
  intro asked rows target step hmatrix htarget hsolve
  have hpos := List.length_pos_iff.mpr hstart
  exact h rows target step _ _ (by omega) hmatrix htarget hsolve

end LevenbergMarquardt

end SphereLab
