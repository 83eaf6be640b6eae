import Mathlib
import SphereLab.PairCorrelation.Smoothing
import SphereLab.Proofs.Scalar.Exact

/-!
# Runs of a curve

A run ends for one of two reasons: a point is far enough from its start, or the curve is over.  The
last point of the curve may do both, and it never belongs to a run.  So the runs, put one after
another, are the curve without its last point, whatever the distances are, and a run is never empty,
because it has its start.  From this the positions at which runs start follow: each is the sum of
the lengths of the runs before it.

* `flatten_runs`: the runs make up the curve without its last point.
* `isRun_of_mem_runs`: the points of a run are closer to its start than the reach.
* `isChain_runs`: the next run starts farther away than that.
* `cut`: where runs start.
* `Cuts`: what the averages of a curve are the means of.
* `averageRuns_cuts`: averaged curves.
-/

namespace SphereLab

namespace Smoothing

section Runs

variable {α : Type} [Scalar α] {reach : α}

/-- A run: its start, and points closer to that than `reach`. -/
def IsRun (reach : α) : List (α × α) → Prop
  | [] => False
  | start :: inside => ∀ p ∈ inside, ¬reach ≤ distance p start

/-- The start of a run is at least as far as `reach` from the start of the run before. -/
def Follows (reach : α) (before after : List (α × α)) : Prop :=
  ∀ p ∈ before.head?, ∀ q ∈ after.head?, reach ≤ distance q p

/-! ## Runs of what is left of a curve -/

theorem exists_runsFrom_eq (reach : α) (start : α × α) (run : List (α × α)) {rest : List (α × α)}
    (hne : rest ≠ []) :
    ∃ inside others, runsFrom reach start run rest = (start :: inside) :: others := by
  induction start, run, rest using runsFrom.induct reach with
  | case1 => exact absurd rfl hne
  | case2 start run p => exact ⟨run, [], by rw [runsFrom]⟩
  | case3 start run p q rest hfar => exact ⟨run, _, by rw [runsFrom, if_pos hfar]⟩
  | case4 start run p q rest hnear ih =>
    rw [runsFrom, if_neg hnear]
    exact ih (List.cons_ne_nil q rest)

theorem flatten_runsFrom (start : α × α) (run : List (α × α)) {rest : List (α × α)}
    (hne : rest ≠ []) :
    (runsFrom reach start run rest).flatten = start :: (run ++ rest.dropLast) := by
  induction start, run, rest using runsFrom.induct reach with
  | case1 => exact absurd rfl hne
  | case2 start run p => simp [runsFrom]
  | case3 start run p q rest hfar ih =>
    rw [runsFrom, if_pos hfar, List.flatten_cons, ih (List.cons_ne_nil q rest), List.nil_append,
      List.dropLast_cons_cons, List.cons_append]
  | case4 start run p q rest hnear ih =>
    rw [runsFrom, if_neg hnear, ih (List.cons_ne_nil q rest), List.dropLast_cons_cons,
      List.append_assoc, List.singleton_append]

theorem isRun_of_mem_runsFrom {start : α × α} {run rest r : List (α × α)}
    (hrun : IsRun reach (start :: run)) (hr : r ∈ runsFrom reach start run rest) :
    IsRun reach r := by
  induction start, run, rest using runsFrom.induct reach with
  | case1 => exact absurd hr List.not_mem_nil
  | case2 start run p =>
    rw [runsFrom, List.mem_singleton] at hr
    exact hr ▸ hrun
  | case3 start run p q rest hfar ih =>
    rw [runsFrom, if_pos hfar, List.mem_cons] at hr
    rcases hr with rfl | hr
    · exact hrun
    · exact ih (fun _ h => absurd h List.not_mem_nil) hr
  | case4 start run p q rest hnear ih =>
    rw [runsFrom, if_neg hnear] at hr
    refine ih (fun p' hp' => ?_) hr
    rcases List.mem_append.mp hp' with hp' | hp'
    · exact hrun p' hp'
    · exact List.mem_singleton.mp hp' ▸ hnear

theorem isChain_runsFrom (start : α × α) (run rest : List (α × α)) :
    (runsFrom reach start run rest).IsChain (Follows reach) := by
  induction start, run, rest using runsFrom.induct reach with
  | case1 => exact List.isChain_nil
  | case2 start run p => exact List.isChain_singleton _
  | case3 start run p q rest hfar ih =>
    rw [runsFrom, if_pos hfar]
    -- The rest begins with a run from `p`, and `p` is far from `start`.
    refine List.isChain_cons.mpr ⟨fun after hafter => ?_, ih⟩
    obtain ⟨inside, others, heq⟩ := exists_runsFrom_eq reach p [] (List.cons_ne_nil q rest)
    rw [heq, List.head?_cons] at hafter
    obtain rfl := Option.some.inj hafter
    intro s hs s' hs'
    obtain rfl := Option.some.inj hs
    obtain rfl := Option.some.inj hs'
    exact hfar
  | case4 start run p q rest hnear ih =>
    rw [runsFrom, if_neg hnear]
    exact ih

/-! ## Runs of a curve -/

/-- The runs make up the curve without its last point. -/
theorem flatten_runs (curve : List (α × α)) : (runs reach curve).flatten = curve.dropLast := by
  match curve with
  | [] => rfl
  | [p] => rfl
  | p :: q :: rest =>
    rw [runs, flatten_runsFrom p [] (List.cons_ne_nil q rest), List.dropLast_cons_cons,
      List.nil_append]

/-- The points of a run are closer to its start than the reach. -/
theorem isRun_of_mem_runs {curve r : List (α × α)} (h : r ∈ runs reach curve) : IsRun reach r := by
  cases curve with
  | nil => exact absurd h List.not_mem_nil
  | cons p rest => exact isRun_of_mem_runsFrom (fun _ h => absurd h List.not_mem_nil) h

/-- A run starts at least as far as the reach from the start of the run before. -/
theorem isChain_runs (curve : List (α × α)) : (runs reach curve).IsChain (Follows reach) := by
  cases curve with
  | nil => exact List.isChain_nil
  | cons p rest => exact isChain_runsFrom p [] rest

theorem IsRun.ne_nil {r : List (α × α)} (h : IsRun reach r) : r ≠ [] := by
  rintro rfl
  exact h

/-! ## Where runs start -/

/-- The position of the start of a run in the curve; the position after the last run is that of the
last point. -/
def cut (reach : α) (curve : List (α × α)) (j : ℕ) : ℕ :=
  (((runs reach curve).map List.length).take j).sum

variable {curve : List (α × α)} {j : ℕ}

theorem cut_zero : cut reach curve 0 = 0 := rfl

theorem cut_length : cut reach curve (runs reach curve).length = curve.length - 1 := by
  rw [cut, List.take_of_length_le (List.length_map _).le, ← List.length_flatten, flatten_runs,
    List.length_dropLast]

theorem cut_succ (hj : j < (runs reach curve).length) :
    cut reach curve (j + 1) = cut reach curve j + (runs reach curve)[j].length := by
  rw [cut, List.sum_take_succ _ _ (by rwa [List.length_map]), List.getElem_map, cut]

theorem cut_lt_succ (hj : j < (runs reach curve).length) :
    cut reach curve j < cut reach curve (j + 1) := by
  have hpos := List.length_pos_iff.mpr (isRun_of_mem_runs (List.getElem_mem hj)).ne_nil
  rw [cut_succ hj]
  omega

theorem cut_mono : Monotone (cut reach curve) := by
  refine monotone_nat_of_le_succ fun j => ?_
  by_cases hj : j < (runs reach curve).length
  · exact (cut_lt_succ hj).le
  · have hlength : ∀ k, (runs reach curve).length ≤ k →
        cut reach curve k = ((runs reach curve).map List.length).sum := fun k hk => by
      rw [cut, List.take_of_length_le (by rwa [List.length_map])]
    rw [hlength j (by omega), hlength (j + 1) (by omega)]

theorem cut_le (hj : j ≤ (runs reach curve).length) : cut reach curve j ≤ curve.length - 1 :=
  (cut_mono hj).trans_eq cut_length

/-- A run is the part of the curve from its start up to the next. -/
theorem getElem_runs (hj : j < (runs reach curve).length) :
    (runs reach curve)[j] = (curve.take (cut reach curve (j + 1))).drop (cut reach curve j) := by
  have hle := cut_le (show j + 1 ≤ (runs reach curve).length from hj)
  rw [← List.drop_take_succ_flatten_eq_getElem _ j hj, flatten_runs, List.dropLast_eq_take,
    List.take_take]
  change (curve.take (min (cut reach curve (j + 1)) _)).drop (cut reach curve j) = _
  rw [min_eq_left hle]

theorem getElem?_runs (hj : j < (runs reach curve).length) {i : ℕ} (hlow : cut reach curve j ≤ i)
    (hhigh : i < cut reach curve (j + 1)) :
    (runs reach curve)[j][i - cut reach curve j]? = curve[i]? := by
  rw [getElem_runs hj, List.getElem?_drop, List.getElem?_take, Nat.add_sub_cancel' hlow,
    if_pos hhigh]

end Runs

/-! ## Means over parts of a list -/

open Finset

/-- The mean of the values at positions from `a` up to `b`. -/
noncomputable def meanBetween (x : ℕ → ℝ) (a b : ℕ) : ℝ := (∑ i ∈ Ico a b, x i) / (b - a : ℕ)

theorem sum_take (l : List ℝ) {b : ℕ} (hb : b ≤ l.length) :
    (l.take b).sum = ∑ i ∈ range b, l.getD i 0 := by
  induction b with
  | zero => simp
  | succ b ih =>
    rw [List.sum_take_succ l b hb, ih (by omega), sum_range_succ, List.getD_eq_getElem l 0 hb]

theorem sum_drop_take (l : List ℝ) {a b : ℕ} (hab : a ≤ b) (hb : b ≤ l.length) :
    ((l.take b).drop a).sum = ∑ i ∈ Ico a b, l.getD i 0 := by
  have hsplit := List.sum_take_add_sum_drop (l.take b) a
  rw [List.take_take, min_eq_left hab, sum_take l (hab.trans hb), sum_take l hb] at hsplit
  rw [sum_Ico_eq_sub _ hab, ← hsplit, add_sub_cancel_left]

/-- The mean of a part of a list. -/
theorem mean_drop_take (l : List ℝ) {a b : ℕ} (hab : a ≤ b) (hb : b ≤ l.length) :
    mean ((l.take b).drop a) = meanBetween (fun i => l.getD i 0) a b := by
  rw [mean, Scalar.total_eq_sum, Scalar.ofNat_eq_natCast, sum_drop_take l hab hb, List.length_drop,
    List.length_take, min_eq_left hb, meanBetween]

/-- A value is not below the least nor above the greatest of the values at positions from `a` up to
`b`. -/
def IsAmong (x : ℕ → ℝ) (a b : ℕ) (v : ℝ) : Prop :=
  (∃ i ∈ Ico a b, x i ≤ v) ∧ ∃ i ∈ Ico a b, v ≤ x i

theorem isAmong_meanBetween (x : ℕ → ℝ) {a b : ℕ} (h : a < b) :
    IsAmong x a b (meanBetween x a b) := by
  have hne : (Ico a b).Nonempty := nonempty_Ico.mpr h
  have hpos : (0 : ℝ) < (b - a : ℕ) := by exact_mod_cast Nat.sub_pos_of_lt h
  have htotal : ∑ _i ∈ Ico a b, meanBetween x a b = ∑ i ∈ Ico a b, x i := by
    rw [sum_const, Nat.card_Ico, nsmul_eq_mul, meanBetween, mul_div_cancel₀ _ hpos.ne']
  exact ⟨exists_le_of_sum_le hne htotal.ge, exists_le_of_sum_le hne htotal.le⟩

/-- Between the first and the last of increasing cuts every position is in one part. -/
theorem existsUnique_part {c : ℕ → ℕ} (hmono : Monotone c) (hzero : c 0 = 0) (k : ℕ) {i : ℕ}
    (hi : i < c k) : ∃! j, j < k ∧ c j ≤ i ∧ i < c (j + 1) := by
  have hexists : ∃ j < k, c j ≤ i ∧ i < c (j + 1) := by
    induction k with
    | zero => exact absurd hi (by omega)
    | succ k ih =>
      by_cases hk : i < c k
      · obtain ⟨j, hj, hpart⟩ := ih hk
        exact ⟨j, by omega, hpart⟩
      · exact ⟨k, by omega, not_lt.mp hk, hi⟩
  obtain ⟨j, hj, hlow, hhigh⟩ := hexists
  refine ⟨j, ⟨hj, hlow, hhigh⟩, ?_⟩
  rintro j' ⟨-, hlow', hhigh'⟩
  rcases Nat.lt_trichotomy j' j with hlt | heq | hgt
  · exact absurd (hmono (show j' + 1 ≤ j from hlt)) (by omega)
  · exact heq
  · exact absurd (hmono (show j + 1 ≤ j' from hgt)) (by omega)

/-! ## Averaged curves -/

/-- Averages of `n` points at `(x i, y i)`, which are the means of the points from each cut up to
the next.  The inner points of such a part are closer to its first point than `reach`, and every
part but the first starts at least that far from the start of the part before. -/
structure Cuts (reach : ℝ) (x y : ℕ → ℝ) (n : ℕ) (averages : List (ℝ × ℝ)) (c : ℕ → ℕ) : Prop where
  first : c 0 = 0
  last : c averages.length = n - 1
  nonempty : ∀ j < averages.length, c j < c (j + 1)
  average : ∀ j < averages.length,
    averages[j]? = some (meanBetween x (c j) (c (j + 1)), meanBetween y (c j) (c (j + 1)))
  near : ∀ j < averages.length, ∀ i, c j < i → i < c (j + 1) →
    √((x i - x (c j)) ^ 2 + (y i - y (c j)) ^ 2) < reach
  far : ∀ j, j + 1 < averages.length →
    reach ≤ √((x (c (j + 1)) - x (c j)) ^ 2 + (y (c (j + 1)) - y (c j)) ^ 2)
  /-- Every point but the last is in one part. -/
  once : ∀ i < n - 1, ∃! j, j < averages.length ∧ c j ≤ i ∧ i < c (j + 1)
  /-- The coordinates of an average are among those of its part. -/
  among : ∀ j p, averages[j]? = some p →
    IsAmong x (c j) (c (j + 1)) p.1 ∧ IsAmong y (c j) (c (j + 1)) p.2

section Averages

variable {reach : ℝ} {x y : List ℝ} {i j : ℕ}

/-- A point of a curve has the coordinates at its position. -/
theorem getElem?_zip (hi : i < min x.length y.length) :
    (x.zip y)[i]? = some (x.getD i 0, y.getD i 0) := by
  obtain ⟨hx, hy⟩ := lt_min_iff.mp hi
  rw [List.getElem?_zip_eq_some, List.getD_eq_getElem _ _ hx, List.getD_eq_getElem _ _ hy]
  exact ⟨List.getElem?_eq_getElem hx, List.getElem?_eq_getElem hy⟩

/-- The coordinates of points, up to the shorter of the lists. -/
theorem getD_map_zip (hi : i < min x.length y.length) :
    ((x.zip y).map Prod.fst).getD i 0 = x.getD i 0 ∧
      ((x.zip y).map Prod.snd).getD i 0 = y.getD i 0 := by
  simp only [List.getD_eq_getElem?_getD, List.getElem?_map, getElem?_zip hi, Option.map_some,
    Option.getD_some, and_self]

theorem meanBetween_congr {x x' : ℕ → ℝ} {a b : ℕ} (h : ∀ i < b, x i = x' i) :
    meanBetween x a b = meanBetween x' a b := by
  rw [meanBetween, meanBetween, sum_congr rfl fun i hi => h i (mem_Ico.mp hi).2]

theorem length_averageRuns (curve : List (ℝ × ℝ)) :
    (averageRuns reach curve).length = (runs reach curve).length := by
  rw [averageRuns, List.length_map]

/-- An average is the mean point of a part of the curve. -/
theorem getElem?_averageRuns (hj : j < (runs reach (x.zip y)).length) :
    (averageRuns reach (x.zip y))[j]? =
      some (meanBetween (fun i => x.getD i 0) (cut reach (x.zip y) j) (cut reach (x.zip y) (j + 1)),
        meanBetween (fun i => y.getD i 0) (cut reach (x.zip y) j)
          (cut reach (x.zip y) (j + 1))) := by
  have hlow := (cut_lt_succ hj).le
  have hhigh := cut_le (show j + 1 ≤ (runs reach (x.zip y)).length from hj)
  rw [List.length_zip] at hhigh
  have hall : ∀ i < cut reach (x.zip y) (j + 1), i < min x.length y.length := fun i hi => by omega
  have hmean : ∀ f : ℝ × ℝ → ℝ, mean ((runs reach (x.zip y))[j].map f) =
      meanBetween (fun i => ((x.zip y).map f).getD i 0) (cut reach (x.zip y) j)
        (cut reach (x.zip y) (j + 1)) := fun f => by
    rw [getElem_runs hj, List.map_drop, List.map_take]
    refine mean_drop_take _ hlow ?_
    rw [List.length_map, List.length_zip]
    omega
  rw [averageRuns, List.getElem?_map, List.getElem?_eq_getElem hj, Option.map_some, meanPoint,
    hmean, hmean, meanBetween_congr fun i hi => (getD_map_zip (hall i hi)).1,
    meanBetween_congr fun i hi => (getD_map_zip (hall i hi)).2]

/-- The points of a run, by their positions. -/
theorem getElem?_runs_zip (hj : j < (runs reach (x.zip y)).length)
    (hlow : cut reach (x.zip y) j ≤ i) (hhigh : i < cut reach (x.zip y) (j + 1)) :
    (runs reach (x.zip y))[j][i - cut reach (x.zip y) j]? = some (x.getD i 0, y.getD i 0) := by
  have hle := cut_le (show j + 1 ≤ (runs reach (x.zip y)).length from hj)
  rw [List.length_zip] at hle
  rw [getElem?_runs hj hlow hhigh, getElem?_zip (by omega)]

/-- The start of a run. -/
theorem head?_runs (hj : j < (runs reach (x.zip y)).length) :
    (runs reach (x.zip y))[j].head? =
      some (x.getD (cut reach (x.zip y) j) 0, y.getD (cut reach (x.zip y) j) 0) := by
  have hhead := getElem?_runs_zip hj le_rfl (cut_lt_succ hj)
  rwa [Nat.sub_self, ← List.head?_eq_getElem?] at hhead

/-- The inner points of a run are closer to its start than the reach. -/
theorem distance_lt_of_isRun {r : List (ℝ × ℝ)} (h : IsRun reach r) {p q : ℝ × ℝ} {m : ℕ}
    (hp : r.head? = some p) (hq : r[m + 1]? = some q) : distance q p < reach := by
  cases r with
  | nil => exact h.elim
  | cons start inside =>
    obtain rfl := Option.some.inj hp
    exact not_le.mp (h q (List.mem_of_getElem? hq))

/-- **Averaged curves.**  Without a second point there is no average.  Otherwise the curve is cut
into parts from its first point up to its last, of which the averages are the means. -/
theorem averageRuns_cuts (reach : ℝ) (x y : List ℝ) :
    (averageRuns reach (x.zip y) = [] ↔ min x.length y.length < 2) ∧
      ∃ c, Cuts reach (fun i => x.getD i 0) (fun i => y.getD i 0) (min x.length y.length)
        (averageRuns reach (x.zip y)) c := by
  have hlast : cut reach (x.zip y) (averageRuns reach (x.zip y)).length =
      min x.length y.length - 1 := by
    rw [length_averageRuns, cut_length, List.length_zip]
  have hruns : ∀ {j}, j < (averageRuns reach (x.zip y)).length →
      j < (runs reach (x.zip y)).length := fun hj => by rwa [← length_averageRuns]
  have hmono : Monotone (cut reach (x.zip y)) := cut_mono
  refine ⟨?_, cut reach (x.zip y), ?_⟩
  · constructor
    · intro hnil
      rw [hnil, List.length_nil, cut_zero] at hlast
      omega
    · intro hshort
      by_contra hne
      have hpos := cut_lt_succ (hruns (List.length_pos_iff.mpr hne))
      have hle := hmono (show 0 + 1 ≤ (averageRuns reach (x.zip y)).length from
        List.length_pos_iff.mpr hne)
      omega
  · refine ⟨rfl, hlast, fun _ hj => cut_lt_succ (hruns hj),
      fun _ hj => getElem?_averageRuns (hruns hj), fun j hj i hlow hhigh => ?_, fun j hj => ?_,
      fun i hi => existsUnique_part hmono rfl _ (hlast ▸ hi), fun j p hp => ?_⟩
    · -- Positions behind a cut are those behind the start of the run there.
      have hinside := getElem?_runs_zip (hruns hj) hlow.le hhigh
      obtain ⟨m, hm⟩ := Nat.exists_eq_succ_of_ne_zero (Nat.sub_ne_zero_of_lt hlow)
      rw [hm] at hinside
      exact distance_lt_of_isRun (isRun_of_mem_runs (List.getElem_mem (hruns hj)))
        (head?_runs (hruns hj)) hinside
    · exact List.isChain_iff_getElem.mp (isChain_runs (x.zip y)) j (hruns hj) _
        (head?_runs (hruns (by omega))) _ (head?_runs (hruns hj))
    · have hj : j < (averageRuns reach (x.zip y)).length := (List.getElem?_eq_some_iff.mp hp).1
      have heq := getElem?_averageRuns (hruns hj)
      rw [hp] at heq
      obtain rfl := Option.some.inj heq
      have hpart := cut_lt_succ (hruns hj)
      exact ⟨isAmong_meanBetween _ hpart, isAmong_meanBetween _ hpart⟩

/-- A repeated point stays in its run, and the last point ends a run that it is near to. -/
example : averageRuns 5.0 [(0.0, 0.0), (0.0, 0.0), (3.0, 4.0), (3.0, 4.0)] =
    ([(0.0, 0.0), (3.0, 4.0)] : List (Float × Float)) := by
  decide +kernel

end Averages

end Smoothing

end SphereLab
