import Mathlib
import SphereLab.Proofs.LeastSquares.Budget

/-!
# Parameters that the residuals ignore

A parameter that the residuals do not depend on has a column of zeros, and no row of differences
says anything about it.  All that is said about it is its row in the damping block, which asks for a
step of zero, and says nothing about the other parameters.  So the problem falls apart: whatever is
best for the other parameters, the one best step of this parameter is zero, since its scale is held
above zero where its column is none.

* `OnItsOwn`: a linear problem in which a coordinate is on its own.
* `OnItsOwn.eq_zero`: where it cannot be made better, that coordinate is zero.
* `SolvesExactly`: the answers of the solver cannot be made better.
* `onItsOwn_damped`: in the damped problem an ignored parameter is on its own.
* `rests_attempt`, `rests_search`, `rests_iterate`, `rests_run`: one problem, one iteration and a
  run leave an ignored parameter where it is.
* `rests_minimise`: a minimisation reports it as it was at the start.
-/

namespace SphereLab

namespace LevenbergMarquardt

/-! ## Linear problems with a coordinate on its own -/

section Reals

/-- What a vector leaves of a linear problem: the sum of the squares of the deviations. -/
noncomputable def misfit (rows : List (List ℝ)) (target step : List ℝ) : ℝ :=
  sumOfSquares (List.zipWith (fun row b => inner row step - b) rows target)

/-- Each equation leaves the coordinate out, or has nothing but it, and zero on the right; and there
is an equation that has it. -/
structure OnItsOwn (j : ℕ) (rows : List (List ℝ)) (target : List ℝ) : Prop where
  apart : ∀ p ∈ rows.zip target,
    p.1[j]? = some 0 ∨ p.2 = 0 ∧ ∀ k v, k ≠ j → p.1[k]? = some v → v = 0
  present : ∃ row a, (row, 0) ∈ rows.zip target ∧ row[j]? = some a ∧ a ≠ 0

variable {row step : List ℝ} {j : ℕ} {a x : ℝ}

theorem misfit_eq_sum (rows : List (List ℝ)) (target step : List ℝ) :
    misfit rows target step =
      ((rows.zip target).map fun p => (inner p.1 step - p.2) ^ 2).sum := by
  rw [misfit, sumOfSquares, Scalar.total_eq_sum, List.zip, List.map_zipWith, List.map_zipWith]
  simp only [pow_two]

/-- A coordinate adds its own part to the value of an equation. -/
theorem inner_eq_add (ha : row[j]? = some a) (hx : step[j]? = some x) :
    inner row step = inner row (step.set j 0) + a * x := by
  rw [inner, inner, Scalar.total_eq_sum, Scalar.total_eq_sum]
  induction row generalizing step j with
  | nil => exact absurd ha (by simp)
  | cons b row ih =>
    cases step with
    | nil => exact absurd hx (by simp)
    | cons y step =>
      cases j with
      | zero =>
        obtain rfl : b = a := by simpa using ha
        obtain rfl : y = x := by simpa using hx
        simp [add_comm]
      | succ j =>
        have hrest : (List.zipWith (· * ·) row step).sum =
            (List.zipWith (· * ·) row (step.set j 0)).sum + a * x :=
          ih (by simpa using ha) (by simpa using hx)
        simp [hrest, add_assoc]

/-- Nothing is left of an equation that has nothing but one coordinate when that is zero. -/
theorem inner_set_eq_zero (h : ∀ k v, k ≠ j → row[k]? = some v → v = 0) :
    inner row (step.set j 0) = 0 := by
  rw [inner, Scalar.total_eq_sum]
  refine List.sum_eq_zero fun y hy => ?_
  obtain ⟨k, hk⟩ := List.mem_iff_getElem?.mp hy
  obtain ⟨v, w, hv, hw, rfl⟩ := List.getElem?_zipWith_eq_some.mp hk
  by_cases hkj : k = j
  · obtain rfl : w = 0 := by
      rw [hkj, List.getElem?_set_self'] at hw
      obtain ⟨_, _, hzero⟩ := Option.map_eq_some_iff.mp hw
      exact hzero.symm
    exact mul_zero v
  · rw [h k v hkj hv, zero_mul]

theorem OnItsOwn.rows_ne_nil {rows : List (List ℝ)} {target : List ℝ}
    (h : OnItsOwn j rows target) : rows ≠ [] := by
  obtain ⟨row, -, hmem, -⟩ := h.present
  exact List.ne_nil_of_mem (List.of_mem_zip hmem).1

/-- Where a coordinate on its own is not zero, it would be better if it were. -/
theorem OnItsOwn.eq_zero {rows : List (List ℝ)} {target : List ℝ} (h : OnItsOwn j rows target)
    (hx : step[j]? = some x) (hbest : misfit rows target step ≤ misfit rows target (step.set j 0)) :
    x = 0 := by
  by_contra hne
  refine absurd hbest (not_le.mpr ?_)
  have hleft : ∀ p ∈ rows.zip target, p.1[j]? = some 0 →
      inner p.1 (step.set j 0) = inner p.1 step := by
    intro p _ hzero
    rw [inner_eq_add hzero hx, zero_mul, add_zero]
  rw [misfit_eq_sum, misfit_eq_sum]
  refine List.sum_lt_sum _ _ (fun p hp => ?_) ?_
  · rcases h.apart p hp with hzero | ⟨hright, halone⟩
    · rw [hleft p hp hzero]
    · rw [inner_set_eq_zero halone, hright, sub_zero, sub_zero, zero_pow two_ne_zero]
      exact sq_nonneg _
  · obtain ⟨row, a, hmem, ha, hane⟩ := h.present
    refine ⟨(row, 0), hmem, ?_⟩
    rcases h.apart (row, 0) hmem with hzero | ⟨-, halone⟩
    · exact absurd (Option.some.inj (ha.symm.trans hzero)) hane
    · dsimp only at halone ⊢
      rw [inner_eq_add ha hx, inner_set_eq_zero halone, zero_add, sub_zero, sub_zero,
        zero_pow two_ne_zero]
      exact sq_pos_iff.mpr (mul_ne_zero hane hne)

/-- The row of a damping block, which has an entry for one coordinate only. -/
def dampingRow {α : Type} [Zero α] (size k : ℕ) (a : α) : List α :=
  (List.range size).map fun i => if i = k then a else 0

theorem getElem?_dampingRow {size k i : ℕ} (hi : i < size) (a : ℝ) :
    (dampingRow size k a)[i]? = some (if i = k then a else 0) := by
  rw [dampingRow, List.getElem?_map, List.getElem?_range hi, Option.map_some]

theorem eq_zero_of_getElem?_dampingRow {size k i : ℕ} {v : ℝ} (hi : i ≠ k)
    (h : (dampingRow size k a)[i]? = some v) : v = 0 := by
  have hlt : i < size := by
    have hlength := (List.getElem?_eq_some_iff.mp h).1
    rwa [dampingRow, List.length_map, List.length_range] at hlength
  rw [getElem?_dampingRow hlt, if_neg hi] at h
  exact (Option.some.inj h).symm

/-- Below equations that leave a coordinate out, a damping block puts it on its own. -/
theorem onItsOwn_append {size : ℕ} {rows : List (List ℝ)} {target : List ℝ} {entry : ℕ → ℝ}
    (hlength : rows.length = target.length) (hout : ∀ row ∈ rows, row[j]? = some 0)
    (hj : j < size) (hentry : entry j ≠ 0) :
    OnItsOwn j (rows ++ (List.range size).map fun k => dampingRow size k (entry k))
      (target ++ List.replicate size 0) := by
  constructor
  · intro p hp
    rw [List.zip_append hlength] at hp
    rcases List.mem_append.mp hp with hp | hp
    · exact Or.inl (hout p.1 (List.of_mem_zip hp).1)
    · obtain ⟨hrow, hright⟩ := List.of_mem_zip hp
      obtain ⟨k, hk, hp1⟩ := List.mem_map.mp hrow
      by_cases hkj : k = j
      · refine Or.inr ⟨List.eq_of_mem_replicate hright, fun i v hi hv => ?_⟩
        rw [← hp1, hkj] at hv
        exact eq_zero_of_getElem?_dampingRow hi hv
      · refine Or.inl ?_
        rw [← hp1, getElem?_dampingRow hj, if_neg (Ne.symm hkj)]
  · refine ⟨dampingRow size j (entry j), entry j, ?_, ?_, hentry⟩
    · rw [List.zip_append hlength]
      refine List.mem_append_right _ (List.mem_iff_getElem?.mpr ⟨j, ?_⟩)
      rw [List.getElem?_zip_eq_some, List.getElem?_map, List.getElem?_range hj,
        List.getElem?_replicate, if_pos hj]
      exact ⟨rfl, rfl⟩
    · rw [getElem?_dampingRow hj, if_pos rfl]

end Reals

/-! ## The problem of an ignored parameter -/

open Marked

/-- The residuals do not depend on a parameter. -/
def Task.Ignores {α : Type} (t : Task α) (j : ℕ) : Prop :=
  ∀ x v, t.residuals (x.set j v) = t.residuals x

/-- Whatever the solver answers to a problem in numbers, no other vector leaves less. -/
def SolvesExactly
    (solve : ℕ → List (List (Marked ℝ)) → List (Marked ℝ) → Option (List (Marked ℝ))) : Prop :=
  ∀ asked (rows : List (List ℝ)) (target : List ℝ) (width : ℕ) answer,
    rows ≠ [] → IsMatrix rows target.length width →
      solve asked (rows.map (List.map number)) (target.map number) = some answer →
        ∃ step : List ℝ, answer = step.map number ∧ step.length = width ∧
          ∀ other : List ℝ, other.length = width →
            misfit rows target step ≤ misfit rows target other

/-- Columns of numbers, one of them of zeros. -/
structure IsBlank (j : ℕ) (columns : List (List (Marked ℝ))) : Prop where
  finite : ∀ column ∈ columns, ∀ d ∈ column, Scalar.isFinite d = true
  zero : ∀ column, columns[j]? = some column → ∀ d ∈ column, d = number 0

/-- The results of a list, by their positions. -/
theorem getElem?_of_mapM {β γ : Type} {f : β → Option γ} {xs : List β} {ys : List γ}
    (h : xs.mapM f = some ys) : ys.length = xs.length ∧ ∀ i : ℕ, ys[i]? = xs[i]?.bind f := by
  induction xs generalizing ys with
  | nil =>
    obtain rfl := Option.some.inj h
    exact ⟨rfl, fun i => by simp⟩
  | cons x xs ih =>
    rw [List.mapM_cons] at h
    obtain ⟨y, hy, h⟩ := Option.bind_eq_some_iff.mp h
    obtain ⟨zs, hzs, h⟩ := Option.bind_eq_some_iff.mp h
    obtain rfl := Option.some.inj h
    obtain ⟨hlength, hget⟩ := ih hzs
    refine ⟨congrArg (· + 1) hlength, fun i => ?_⟩
    match i with
    | 0 => exact hy.symm
    | i + 1 => exact hget i

/-- A list of images is the image of a list. -/
theorem exists_eq_map {β γ : Type} {f : β → γ} {P : β → Prop} {ys : List γ}
    (h : ∀ y ∈ ys, ∃ x, y = f x ∧ P x) : ∃ xs : List β, ys = xs.map f ∧ ∀ x ∈ xs, P x := by
  induction ys with
  | nil => exact ⟨[], rfl, fun x hx => absurd hx List.not_mem_nil⟩
  | cons y ys ih =>
    obtain ⟨x, rfl, hx⟩ := h y List.mem_cons_self
    obtain ⟨xs, rfl, hxs⟩ := ih fun z hz => h z (List.mem_cons_of_mem _ hz)
    exact ⟨x :: xs, rfl, List.forall_mem_cons.mpr ⟨hx, hxs⟩⟩

section Problem

variable {t : Task (Marked ℝ)} {j count size : ℕ} {columns rows : List (List (Marked ℝ))}
  {x r scale target : List (Marked ℝ)} {damping : Marked ℝ}

theorem residuals_shiftAt (h : t.Ignores j) (x : List (Marked ℝ)) (d : Marked ℝ) :
    t.residuals (shiftAt x j d) = t.residuals x := by
  rw [shiftAt, List.modify_eq_set_getElem?]
  cases x[j]? with
  | none => rfl
  | some v => exact h x _

theorem zero_div_eq (h : Marked ℝ) :
    number 0 / h = number 0 ∨ number 0 / h = undefined := by
  cases h with
  | undefined => exact Or.inr rfl
  | number e =>
    rw [number_div]
    split
    · exact Or.inr rfl
    · exact Or.inl (congrArg number (zero_div e))

/-- The column of an ignored parameter is zero, and all columns are numbers. -/
theorem isBlank_differenceColumns (h : t.Ignores j)
    (hfinite : ∀ v ∈ t.residuals x, Scalar.isFinite v = true) :
    IsBlank j (differenceColumns t.residuals x (t.residuals x)) := by
  constructor
  · intro column hcolumn d hd
    obtain ⟨k, hk, rfl⟩ := List.mem_mapIdx.mp hcolumn
    obtain ⟨i, hi, rfl⟩ := List.mem_mapIdx.mp hd
    split
    · rfl
    · dsimp only
      split
      · assumption
      · rfl
  · intro column hcolumn d hd
    rw [differenceColumns, List.getElem?_mapIdx] at hcolumn
    obtain ⟨xj, -, rfl⟩ := Option.map_eq_some_iff.mp hcolumn
    obtain ⟨i, hi, rfl⟩ := List.mem_mapIdx.mp hd
    obtain ⟨b, hb⟩ := isFinite_iff.mp (hfinite _ (List.getElem_mem hi))
    rw [residuals_shiftAt h, List.getElem?_eq_getElem hi]
    dsimp only
    rw [hb, number_sub, sub_self]
    rcases zero_div_eq (differenceStep xj) with hquotient | hquotient
    · rw [hquotient, if_pos (isFinite_number 0)]
    · rw [hquotient]
      rfl

/-- The scales of a problem are not below the floor. -/
theorem aboveFloor_of_rescaled? {scale' : List (Marked ℝ)}
    (h : rescaled? scale columns = some scale') : ∀ d ∈ scale', AboveFloor d := by
  intro d hd
  obtain ⟨i, hi⟩ := List.mem_iff_getElem?.mp hd
  rw [(getElem?_of_mapM h).2 i] at hi
  obtain ⟨_, -, hentry⟩ := Option.bind_eq_some_iff.mp hi
  obtain ⟨_, -, rfl⟩ := Option.map_eq_some_iff.mp hentry
  exact aboveFloor_maxOf _

/-- The rows of a damped problem are those of the differences and those of the damping. -/
theorem exists_of_dampedRows? (h : dampedRows? count size columns damping scale = some rows) :
    columns.length = size ∧ ∃ differences block, rows = differences ++ block ∧
      differences.length = count ∧ block.length = size ∧
      (∀ row ∈ differences, ∃ i : ℕ, columns.mapM (·[i]?) = some row) ∧
      ∀ k : ℕ, block[k]? = (List.range size)[k]?.bind fun k =>
        scale[k]?.map fun d => dampingRow size k (Scalar.sqrt (damping * d)) := by
  rw [dampedRows?] at h
  obtain ⟨_, hguard, h⟩ := Option.bind_eq_some_iff.mp h
  obtain ⟨differences, hdifferences, h⟩ := Option.bind_eq_some_iff.mp h
  obtain ⟨block, hblock, h⟩ := Option.bind_eq_some_iff.mp h
  obtain ⟨hcount, hrow⟩ := getElem?_of_mapM hdifferences
  obtain ⟨hsize, hdamping⟩ := getElem?_of_mapM hblock
  have hcolumns : columns.length = size := by
    by_contra hne
    rw [guard, if_neg fun hboth => hne hboth.1] at hguard
    exact absurd hguard (by simp)
  refine ⟨hcolumns, differences, block, (Option.some.inj h).symm, ?_, ?_, fun row hmem => ?_,
    hdamping⟩
  · rw [hcount, List.length_range]
  · rw [hsize, List.length_range]
  · obtain ⟨k, hk⟩ := List.mem_iff_getElem?.mp hmem
    rw [hrow k] at hk
    obtain ⟨i, -, hi⟩ := Option.bind_eq_some_iff.mp hk
    exact ⟨i, hi⟩

/-- The right-hand side of a damped problem is zero at the rows of the damping. -/
theorem exists_of_dampedTarget? (h : dampedTarget? count size r = some target)
    (hfinite : ∀ v ∈ r, Scalar.isFinite v = true) :
    ∃ opposite : List ℝ, opposite.length = count ∧
      target = (opposite ++ List.replicate size 0).map number := by
  rw [dampedTarget?] at h
  obtain ⟨values, hvalues, h⟩ := Option.bind_eq_some_iff.mp h
  obtain ⟨hcount, hget⟩ := getElem?_of_mapM hvalues
  have hnumbers : ∀ v ∈ values, Scalar.isFinite v = true := by
    intro v hv
    obtain ⟨k, hk⟩ := List.mem_iff_getElem?.mp hv
    rw [hget k] at hk
    obtain ⟨i, -, hi⟩ := Option.bind_eq_some_iff.mp hk
    obtain ⟨w, hw, rfl⟩ := Option.map_eq_some_iff.mp hi
    obtain ⟨b, rfl⟩ := isFinite_iff.mp (hfinite w (List.mem_of_getElem? hw))
    rfl
  obtain ⟨opposite, rfl⟩ := exists_eq_map_number hnumbers
  refine ⟨opposite, ?_, ?_⟩
  · rw [← hcount.trans List.length_range, List.length_map]
  · rw [List.map_append, List.map_replicate]
    exact (Option.some.inj h).symm

/-- The rows of the differences are rows of numbers, with nothing of the ignored parameter. -/
theorem exists_differences (hblank : IsBlank j columns) (hj : j < columns.length)
    {differences : List (List (Marked ℝ))}
    (h : ∀ row ∈ differences, ∃ i : ℕ, columns.mapM (·[i]?) = some row) :
    ∃ values : List (List ℝ), differences = values.map (List.map number) ∧
      ∀ row ∈ values, row.length = columns.length ∧ row[j]? = some 0 := by
  refine exists_eq_map fun row hrow => ?_
  obtain ⟨i, hi⟩ := h row hrow
  obtain ⟨hlength, hget⟩ := getElem?_of_mapM hi
  have hfinite : ∀ d ∈ row, Scalar.isFinite d = true := by
    intro d hd
    obtain ⟨k, hk⟩ := List.mem_iff_getElem?.mp hd
    rw [hget k] at hk
    obtain ⟨column, hcolumn, hentry⟩ := Option.bind_eq_some_iff.mp hk
    exact hblank.finite column (List.mem_of_getElem? hcolumn) d (List.mem_of_getElem? hentry)
  obtain ⟨values, rfl⟩ := exists_eq_map_number hfinite
  rw [List.length_map] at hlength
  have hentry := hget j
  rw [List.getElem?_map, List.getElem?_eq_getElem (hlength ▸ hj), List.getElem?_eq_getElem hj,
    Option.map_some, Option.bind_some] at hentry
  have hzero := hblank.zero _ (List.getElem?_eq_getElem hj) _ (List.mem_of_getElem? hentry.symm)
  refine ⟨values, rfl, hlength, ?_⟩
  rw [List.getElem?_eq_getElem (hlength ▸ hj), number.inj hzero]

theorem map_number_dampingRow (size k : ℕ) (a : ℝ) :
    (dampingRow size k a).map number = dampingRow size k (number a) := by
  rw [dampingRow, dampingRow, List.map_map]
  exact List.map_congr_left fun i _ => apply_ite number _ _ _

/-- The entry of a damping row is not zero. -/
theorem exists_sqrt_eq {l : ℝ} (hl : 0 < l) {d : Marked ℝ} (hd : AboveFloor d) :
    ∃ a : ℝ, a ≠ 0 ∧ Scalar.sqrt (number l * d) = number a := by
  obtain ⟨e, rfl, he⟩ := aboveFloor_iff.mp hd
  have hpos : 0 < l * e := mul_pos hl (lt_of_lt_of_le (by positivity) he)
  exact ⟨Real.sqrt (l * e), (Real.sqrt_pos.mpr hpos).ne', if_neg (not_lt.mpr hpos.le)⟩

/-- The rows of the damping are those of a block whose entries are not zero. -/
theorem exists_dampingRows {l : ℝ} (hl : 0 < l) (hscale : ∀ d ∈ scale, AboveFloor d)
    {block : List (List (Marked ℝ))} (hsize : block.length = size)
    (h : ∀ k : ℕ, block[k]? = (List.range size)[k]?.bind fun k =>
      scale[k]?.map fun d => dampingRow size k (Scalar.sqrt (number l * d))) :
    ∃ entry : ℕ → ℝ, (∀ k < size, entry k ≠ 0) ∧
      block = ((List.range size).map fun k => dampingRow size k (entry k)).map
        (List.map number) := by
  have hrow : ∀ k, ∃ a : ℝ, k < size →
      a ≠ 0 ∧ block[k]? = some ((dampingRow size k a).map number) := by
    intro k
    by_cases hk : k < size
    · have hget := h k
      rw [List.getElem?_range hk, Option.bind_some,
        List.getElem?_eq_getElem (hsize.symm ▸ hk)] at hget
      obtain ⟨d, hd, hdamping⟩ := Option.map_eq_some_iff.mp hget.symm
      obtain ⟨a, hane, ha⟩ := exists_sqrt_eq hl (hscale d (List.mem_of_getElem? hd))
      refine ⟨a, fun _ => ⟨hane, ?_⟩⟩
      rw [List.getElem?_eq_getElem (hsize.symm ▸ hk), ← hdamping, ha, map_number_dampingRow]
    · exact ⟨0, fun h => absurd h hk⟩
  choose entry hentry using hrow
  refine ⟨entry, fun k hk => (hentry k hk).1, List.ext_getElem? fun k => ?_⟩
  rw [List.map_map, List.getElem?_map]
  by_cases hk : k < size
  · rw [(hentry k hk).2, List.getElem?_range hk]
    rfl
  · rw [List.getElem?_eq_none (hsize.symm ▸ not_lt.mp hk),
      List.getElem?_eq_none (by rw [List.length_range]; exact not_lt.mp hk)]
    rfl

/-- **The problem of an ignored parameter.**  A damped problem is one in numbers, and a parameter
whose column is zero is on its own in it. -/
theorem onItsOwn_damped (hblank : IsBlank j columns) (hj : j < size) {l : ℝ} (hl : 0 < l)
    (hscale : ∀ d ∈ scale, AboveFloor d) (hfinite : ∀ v ∈ r, Scalar.isFinite v = true)
    (hrows : dampedRows? count size columns (number l) scale = some rows)
    (htarget : dampedTarget? count size r = some target) :
    ∃ (values : List (List ℝ)) (right : List ℝ), rows = values.map (List.map number) ∧
      target = right.map number ∧ IsMatrix values right.length size ∧
      OnItsOwn j values right := by
  obtain ⟨rfl, differences, block, rfl, hcount, hsize, hdifferences, hblock⟩ :=
    exists_of_dampedRows? hrows
  obtain ⟨opposite, hopposite, rfl⟩ := exists_of_dampedTarget? htarget hfinite
  obtain ⟨values, rfl, hvalues⟩ := exists_differences hblank hj hdifferences
  obtain ⟨entry, hentry, rfl⟩ := exists_dampingRows hl hscale hsize hblock
  have hheight : values.length = opposite.length := by
    rw [hopposite, ← hcount, List.length_map]
  refine ⟨_, _, List.map_append.symm, rfl, ⟨?_, fun row hrow => ?_⟩,
    onItsOwn_append hheight (fun row hrow => (hvalues row hrow).2) hj (hentry j hj)⟩
  · rw [List.length_append, List.length_append, hheight, List.length_map, List.length_range,
      List.length_replicate]
  · rcases List.mem_append.mp hrow with hrow | hrow
    · exact (hvalues row hrow).1
    · obtain ⟨k, -, rfl⟩ := List.mem_map.mp hrow
      rw [dampingRow, List.length_map, List.length_range]

end Problem

/-! ## What a minimisation leaves where it is -/

/-- What holds between iterations while a parameter rests. -/
structure Rests (t : Task (Marked ℝ)) (start : List (Marked ℝ)) (j : ℕ) (s : State (Marked ℝ)) :
    Prop where
  param_eq : s.params[j]? = start[j]?
  residuals_eq : s.residuals = t.residuals s.params
  finite : ∀ v ∈ s.residuals, Scalar.isFinite v = true
  damping_pos : 0 < s.damping

/-- What an iteration comes to while a parameter rests. -/
def Progress.Rests (t : Task (Marked ℝ)) (start : List (Marked ℝ)) (j : ℕ) :
    Progress (Marked ℝ) → Prop
  | .ended report => report.params[j]? = start[j]?
  | .failed _ => True
  | .taken s => LevenbergMarquardt.Rests t start j s

/-- What one problem comes to while a parameter rests. -/
def Attempt.Rests (t : Task (Marked ℝ)) (start : List (Marked ℝ)) (j : ℕ) :
    Attempt (Marked ℝ) → Prop
  | .settled progress => progress.Rests t start j
  | .rejected s => LevenbergMarquardt.Rests t start j s ∧ ∀ d ∈ s.scale, AboveFloor d

variable {t : Task (Marked ℝ)} {start : List (Marked ℝ)} {j count : ℕ}
  {columns : List (List (Marked ℝ))} {s : State (Marked ℝ)}

theorem AboveFloor.pos {damping : Marked ℝ} (h : AboveFloor damping) : 0 < damping := by
  obtain ⟨l, rfl, hl⟩ := aboveFloor_iff.mp h
  exact lt_of_lt_of_le (by positivity) hl

theorem exists_number_of_pos {damping : Marked ℝ} (h : 0 < damping) :
    ∃ l : ℝ, damping = number l ∧ 0 < l := by
  cases damping with
  | number l => exact ⟨l, rfl, h⟩
  | undefined => exact h.elim

theorem add_number_zero (v : Marked ℝ) : v + number 0 = v := by
  cases v with
  | number a => exact congrArg number (add_zero a)
  | undefined => rfl

theorem rests_reject (h : Rests t start j s) (hscale : ∀ d ∈ s.scale, AboveFloor d)
    (outcome : Outcome) : (reject s outcome).Rests t start j := by
  rw [reject]
  dsimp only
  split
  · exact h.param_eq
  · refine ⟨⟨h.param_eq, h.residuals_eq, h.finite, ?_⟩, hscale⟩
    obtain ⟨l, hl, hpos⟩ := exists_number_of_pos h.damping_pos
    dsimp only
    rw [hl, literal_ten, number_mul]
    exact mul_pos hpos (by norm_num)

theorem rests_accept (options : Options (Marked ℝ)) (s : State (Marked ℝ))
    (step : List (Marked ℝ)) {trial : List (Marked ℝ)} (cost : Marked ℝ)
    (hparam : trial[j]? = start[j]?)
    (hfinite : ∀ v ∈ t.residuals trial, Scalar.isFinite v = true) :
    (accept options s step trial (t.residuals trial) cost).Rests t start j := by
  rw [accept]
  split
  · exact hparam
  · split
    · exact hparam
    · exact ⟨hparam, rfl, hfinite, (aboveFloor_maxOf _).pos⟩

theorem forall_isFinite_of_finiteCost? {r : List (Marked ℝ)} {cost : Marked ℝ}
    (h : finiteCost? r = some cost) : ∀ v ∈ r, Scalar.isFinite v = true := by
  rw [finiteCost?] at h
  split at h
  · rename_i hall
    exact List.all_eq_true.mp hall
  · exact absurd h (by simp)

/-- The trial has a parameter as it is if that is on its own in the damped problem. -/
theorem getElem?_trial (hsolve : SolvesExactly t.solve) (hblank : IsBlank j columns)
    (h : Rests t start j s) (hscale : ∀ d ∈ s.scale, AboveFloor d)
    {rows : List (List (Marked ℝ))} {target step : List (Marked ℝ)}
    (hrows : dampedRows? count start.length columns s.damping s.scale = some rows)
    (htarget : dampedTarget? count start.length s.residuals = some target)
    (hstep : t.solve s.solved rows target = some step) :
    (List.zipWith (· + ·) s.params step)[j]? = start[j]? := by
  have hparam := h.param_eq
  rw [List.getElem?_zipWith]
  cases hvalue : start[j]? with
  | none => rw [hparam, hvalue]
  | some v =>
    have hj : j < start.length := (List.getElem?_eq_some_iff.mp hvalue).1
    obtain ⟨l, hl, hpos⟩ := exists_number_of_pos h.damping_pos
    rw [hl] at hrows
    obtain ⟨values, right, rfl, rfl, hmatrix, hown⟩ :=
      onItsOwn_damped hblank hj hpos hscale h.finite hrows htarget
    obtain ⟨best, rfl, hlength, hbest⟩ :=
      hsolve s.solved values right start.length step hown.rows_ne_nil hmatrix hstep
    have hentry : best[j]? = some best[j] := List.getElem?_eq_getElem (hlength ▸ hj)
    have hzero := hown.eq_zero hentry (hbest _ (by rw [List.length_set, hlength]))
    rw [hparam, hvalue, List.getElem?_map, hentry, hzero]
    exact congrArg some (add_number_zero v)

/-- One damped problem leaves an ignored parameter where it is. -/
theorem rests_attempt (hsolve : SolvesExactly t.solve) (hblank : IsBlank j columns)
    (h : Rests t start j s) (hscale : ∀ d ∈ s.scale, AboveFloor d) :
    (t.attempt count start.length columns s).Rests t start j := by
  have hasked : Rests t start j { s with solved := s.solved + 1 } :=
    ⟨h.param_eq, h.residuals_eq, h.finite, h.damping_pos⟩
  have htried : Rests t start j
      { s with solved := s.solved + 1, evaluations := s.evaluations + 1 } :=
    ⟨h.param_eq, h.residuals_eq, h.finite, h.damping_pos⟩
  rw [Task.attempt]
  split
  · rename_i rows target hrows htarget
    dsimp only
    split
    · exact rests_reject hasked hscale _
    · rename_i step hstep
      split
      · rename_i cost hcost
        rw [Option.filter_eq_some_iff] at hcost
        exact rests_accept t.options _ step cost
          (getElem?_trial hsolve hblank h hscale hrows htarget hstep)
          (forall_isFinite_of_finiteCost? hcost.1)
      · exact rests_reject htried hscale _
  · trivial

/-- The problems of an iteration leave an ignored parameter where it is. -/
theorem rests_search (hsolve : SolvesExactly t.solve) (hblank : IsBlank j columns) (patience : ℕ)
    (h : Rests t start j s) (hscale : ∀ d ∈ s.scale, AboveFloor d) :
    (t.search count start.length columns s patience).Rests t start j := by
  induction patience generalizing s with
  | zero => trivial
  | succ patience ih =>
    have hattempt : (t.attempt count start.length columns s).Rests t start j :=
      rests_attempt hsolve hblank h hscale
    rw [Task.search]
    split
    · rename_i progress hsettled
      rwa [hsettled] at hattempt
    · rename_i s' hrejected
      rw [hrejected] at hattempt
      exact ih hattempt.1 hattempt.2

/-- An iteration leaves an ignored parameter where it is. -/
theorem rests_iterate (hignores : t.Ignores j) (hsolve : SolvesExactly t.solve) (patience : ℕ)
    (h : Rests t start j s) : (t.iterate count start.length patience s).Rests t start j := by
  rw [Task.iterate]
  dsimp only
  split
  · exact h.param_eq
  · split
    · trivial
    · rename_i scale hscale
      have hblank : IsBlank j (differenceColumns t.residuals s.params s.residuals) := by
        have hfinite := h.finite
        rw [h.residuals_eq] at hfinite ⊢
        exact isBlank_differenceColumns hignores hfinite
      exact rests_search hsolve hblank patience
        ⟨h.param_eq, h.residuals_eq, h.finite, h.damping_pos⟩
        (aboveFloor_of_rescaled? hscale)

/-- A run reports an ignored parameter where it was. -/
theorem rests_run (hignores : t.Ignores j) (hsolve : SolvesExactly t.solve) (patience left : ℕ)
    (h : Rests t start j s) {report : Report (Marked ℝ)}
    (hreport : t.run count start.length patience s left = .ok report) :
    report.params[j]? = start[j]? := by
  induction left generalizing s with
  | zero =>
    obtain rfl := Except.ok.inj hreport
    exact h.param_eq
  | succ left ih =>
    have hiterate : (t.iterate count start.length patience s).Rests t start j :=
      rests_iterate hignores hsolve patience h
    rw [Task.run] at hreport
    split at hreport
    · rename_i report' hended
      obtain rfl := Except.ok.inj hreport
      rwa [hended] at hiterate
    · exact absurd hreport (by simp)
    · rename_i s' htaken
      rw [htaken] at hiterate
      exact ih hiterate hreport

/-- A minimisation reports an ignored parameter as it was at the start. -/
theorem rests_minimise (hignores : t.Ignores j) (hsolve : SolvesExactly t.solve)
    (hdamping : 0 < t.options.initialDamping) (patience : ℕ) {report : Report (Marked ℝ)}
    (hreport : t.minimise patience start = .ok report) : report.params[j]? = start[j]? := by
  rw [Task.minimise] at hreport
  split at hreport
  · exact absurd hreport (by simp)
  · split at hreport
    · exact absurd hreport (by simp)
    · split at hreport
      · exact absurd hreport (by simp)
      · rename_i cost hcost
        have hinitial : Rests t start j (t.initial start cost) :=
          ⟨rfl, rfl, forall_isFinite_of_finiteCost? hcost, hdamping⟩
        exact rests_run hignores hsolve patience _ hinitial hreport

end LevenbergMarquardt

end SphereLab
