import Mathlib
import SphereLab.PairCorrelation.Fit
import SphereLab.Proofs.Double.Range
import SphereLab.Proofs.Formula.Compilation
import SphereLab.Proofs.LeastSquares.Ignored
import SphereLab.Proofs.LeastSquares.Solver
import SphereLab.Proofs.PairCorrelation.DataSet

/-!
# The worst point of a fit

The residuals of a fit and the places that they belong to are listed apart.  The one list runs over
the pairs of a distance and a value, the other over the distances alone, each leaves out what is not
below the cutoff, and they meet again only when they are zipped.  They are in step because a data
set has as many values as distances: both lists are read off one list of points, set by set and
distance by distance, and that list knows of no parameters.  What is left is a search for the last
of the greatest among numbers that can be compared, which those are that are finite.

* `Point`, `counted`: the points that count, in their order.
* `residuals?_eq_mapM`, `places_eq_map`: residuals and places are those of the points.
* `getElem?_zip_places`: each residual stands beside the place of its point.
* `exists_isLastGreatest`: what the search for the worst point finds.
* `worst_at_last_greatest`: where a fit has its worst point.
-/

namespace SphereLab

namespace Fit

open Ansatz LevenbergMarquardt

/-! ## Points -/

/-- A point of a data set. -/
structure Point (α : Type) where
  /-- The position of the set among the sets, and that of the point in the set. -/
  place : ℕ × ℕ
  set : DataSet α
  r : α
  g : α

section Points

variable {α : Type} [Scalar α] {sets : List (DataSet α)} {cutoff : α} {model : Program α}
  {params : List α}

/-- A point that is there, with a distance below the cutoff. -/
structure Point.IsBelow (sets : List (DataSet α)) (cutoff : α) (p : Point α) : Prop where
  set_eq : sets[p.place.1]? = some p.set
  r_eq : p.set.r[p.place.2]? = some p.r
  g_eq : p.set.g[p.place.2]? = some p.g
  lt_cutoff : p.r < cutoff

/-- One point after another: in a later set, or later in the same one. -/
def Point.Before (p q : Point α) : Prop := Prod.Lex (· < ·) (· < ·) p.place q.place

/-- The model at a point less the value there. -/
def Point.residual? (model : Program α) (params : List α) (p : Point α) : Option α :=
  (modelValue? model params p.set.contact p.r).map (· - p.g)

/-- The points of one set that count. -/
def countedIn (cutoff : α) (set : DataSet α) (position : ℕ) : List (Point α) :=
  ((set.r.zip set.g).zipIdx.filter fun q => q.1.1 < cutoff).map fun q =>
    ⟨(position, q.2), set, q.1.1, q.1.2⟩

/-- The points that count, set by set and distance by distance. -/
def counted (sets : List (DataSet α)) (cutoff : α) : List (Point α) :=
  sets.zipIdx.flatMap fun q => countedIn cutoff q.1 q.2

theorem mem_counted_iff {p : Point α} : p ∈ counted sets cutoff ↔ p.IsBelow sets cutoff := by
  simp only [counted, countedIn, List.mem_flatMap, List.mem_map, List.mem_filter, Prod.exists,
    List.mem_zipIdx_iff_getElem?, decide_eq_true_eq, List.getElem?_zip_eq_some]
  constructor
  · rintro ⟨set, s, hset, r, g, k, ⟨⟨hr, hg⟩, hlt⟩, rfl⟩
    exact ⟨hset, hr, hg, hlt⟩
  · intro h
    exact ⟨p.set, p.place.1, h.set_eq, p.r, p.g, p.place.2, ⟨⟨h.r_eq, h.g_eq⟩, h.lt_cutoff⟩, rfl⟩

/-- The members of a list are numbered in their order. -/
theorem pairwise_zipIdx {β : Type} (xs : List β) (n : ℕ) :
    (xs.zipIdx n).Pairwise fun a b => a.2 < b.2 := by
  have hmap : ((xs.zipIdx n).map Prod.snd).Pairwise (· < ·) := by
    rw [List.zipIdx_map_snd]
    exact List.pairwise_lt_range'
  exact List.pairwise_map.mp hmap

theorem pairwise_counted (sets : List (DataSet α)) (cutoff : α) :
    (counted sets cutoff).Pairwise Point.Before := by
  rw [counted, List.pairwise_flatMap]
  constructor
  · intro q _
    rw [countedIn, List.pairwise_map]
    refine ((pairwise_zipIdx _ _).filter _).imp fun hlt => ?_
    exact Prod.Lex.right _ hlt
  · refine (pairwise_zipIdx sets 0).imp fun hlt p hp q hq => ?_
    obtain ⟨_, -, rfl⟩ := List.mem_map.mp hp
    obtain ⟨_, -, rfl⟩ := List.mem_map.mp hq
    exact Prod.Lex.left _ _ hlt

omit [Scalar α] in
/-- A later point is not an earlier one. -/
theorem Point.Before.not_before {p q : Point α} (h : p.Before q) : ¬q.Before p := by
  rw [Point.Before, Prod.lex_def] at h ⊢
  omega

/-- A later point stands further behind. -/
theorem Point.Before.position_lt {p q : Point α} (h : p.Before q) {i j : ℕ}
    (hi : (counted sets cutoff)[i]? = some p) (hj : (counted sets cutoff)[j]? = some q) :
    i < j := by
  obtain ⟨hi', rfl⟩ := List.getElem?_eq_some_iff.mp hi
  obtain ⟨hj', rfl⟩ := List.getElem?_eq_some_iff.mp hj
  rcases lt_trichotomy i j with hlt | rfl | hgt
  · exact hlt
  · exact absurd h h.not_before
  · exact absurd (List.pairwise_iff_getElem.mp (pairwise_counted sets cutoff) j i hj' hi' hgt)
      h.not_before

/-- What is read off the points that count is read off the pairs of every set. -/
theorem map_counted {β : Type} (f : DataSet α → α × α → β) :
    (counted sets cutoff).map (fun p => f p.set (p.r, p.g)) =
      sets.flatMap fun set => (pointsBelow cutoff set).map (f set) := by
  have hset : ∀ set position, (countedIn cutoff set position).map (fun p => f p.set (p.r, p.g)) =
      (pointsBelow cutoff set).map (f set) := by
    intro set position
    have hpairs : pointsBelow cutoff set =
        ((set.r.zip set.g).zipIdx.filter fun q => q.1.1 < cutoff).map Prod.fst := by
      conv_lhs => rw [pointsBelow, ← List.zipIdx_map_fst 0 (set.r.zip set.g), List.filter_map]
      rfl
    rw [countedIn, hpairs, List.map_map, List.map_map]
    rfl
  rw [counted, List.map_flatMap]
  simp only [hset]
  conv_rhs => rw [← List.zipIdx_map_fst 0 sets, List.flatMap_map]

/-- The residuals are those of the points that count. -/
theorem residuals?_eq_mapM (model : Program α) (sets : List (DataSet α)) (cutoff : α)
    (params : List α) :
    residuals? model sets cutoff params =
      (counted sets cutoff).mapM (Point.residual? model params) := by
  rw [residuals?, ← map_counted fun set q => (set.contact, q), List.mapM_map]
  rfl

/-- The places are those of the points that count, where every distance has a value. -/
theorem places_eq_map (hsets : ∀ set ∈ sets, set.r.length = set.g.length) (cutoff : α) :
    places sets cutoff = (counted sets cutoff).map fun p => (p.set.eta, p.r) := by
  rw [map_counted fun set q => (set.eta, q.1), places]
  refine List.flatMap_congr fun set hset => ?_
  have hdistances : set.r.filter (fun r => r < cutoff) = (pointsBelow cutoff set).map Prod.fst := by
    conv_lhs => rw [← List.map_fst_zip (hsets set hset).le, List.filter_map]
    rfl
  rw [hdistances, List.map_map]
  rfl

/-- A program that is compiled for no more arguments than a model is given. -/
def IsCompiled (model : Program α) : Prop :=
  ∃ (f : Formula α) (names : List String), names.length ≤ parameterCount + 2 ∧
    f.compile names = .ok model

theorem isCompiled_of_compileModel {pair : Formula α} (h : compileModel pair = .ok model) :
    IsCompiled model := by
  rw [compileModel] at h
  cases hcompile : (pair.substituteOne "h_sigma" (Formula.subConst (.symbol "g_sigma") 1)).compile
      modelArguments with
  | error u => exact absurd h (by simp [hcompile, Except.mapError])
  | ok program =>
    rw [hcompile] at h
    obtain rfl := Except.ok.inj h
    exact ⟨_, modelArguments, le_of_eq (by decide), hcompile⟩

theorem IsCompiled.exists_modelValue? (h : IsCompiled model)
    (hparams : parameterCount ≤ params.length) (contact r : α) :
    ∃ v, modelValue? model params contact r = some v := by
  obtain ⟨f, names, hnames, hcompile⟩ := h
  obtain ⟨t, ht, rfl⟩ := Formula.compile_eq_ok_iff.mp hcompile
  have hargs : names.length ≤ (params.take parameterCount ++ [contact, r]).length := by
    rw [List.length_append, List.length_take_of_le hparams]
    exact hnames
  obtain ⟨v, hv⟩ := Formula.exists_eval?_of_resolve ht hargs
  exact ⟨v, by rw [modelValue?, if_neg (not_lt.mpr hparams)]; exact hv⟩

/-- With enough parameters there is a residual for every point that counts. -/
theorem IsCompiled.exists_residuals? (h : IsCompiled model)
    (hparams : parameterCount ≤ params.length) (sets : List (DataSet α)) (cutoff : α) :
    ∃ rs, residuals? model sets cutoff params = some rs := by
  have hvalue : ∀ p ∈ counted sets cutoff, ∃ v, p.residual? model params = some v ∧ True := by
    intro p _
    obtain ⟨v, hv⟩ := h.exists_modelValue? hparams p.set.contact p.r
    exact ⟨v - p.g, by rw [Point.residual?, hv, Option.map_some], trivial⟩
  obtain ⟨rs, hrs, -⟩ := exists_mapM_eq_some hvalue
  exact ⟨rs, (residuals?_eq_mapM model sets cutoff params).trans hrs⟩

theorem residuals?_eq_some {rs : List α} (h : residuals? model sets cutoff params = some rs) :
    rs.length = (counted sets cutoff).length ∧
      ∀ i : ℕ, rs[i]? = (counted sets cutoff)[i]?.bind (Point.residual? model params) := by
  rw [residuals?_eq_mapM] at h
  exact getElem?_of_mapM h

/-- The residuals stand in the order of the points that count. -/
theorem forall₂_residuals? {rs : List α} (h : residuals? model sets cutoff params = some rs) :
    List.Forall₂ (fun p v => p.residual? model params = some v) (counted sets cutoff) rs := by
  obtain ⟨hlength, hget⟩ := residuals?_eq_some h
  refine List.forall₂_iff_get.mpr ⟨hlength.symm, fun i hi hi' => ?_⟩
  have hvalue := hget i
  rw [List.getElem?_eq_getElem hi', List.getElem?_eq_getElem hi, Option.bind_some] at hvalue
  exact hvalue.symm

/-- Each of the residuals stands beside the place of its point. -/
theorem getElem?_zip_places (hsets : ∀ set ∈ sets, set.r.length = set.g.length) {rs : List α}
    (hrs : residuals? model sets cutoff params = some rs) {i : ℕ} {q : α × α × α} :
    (rs.zip (places sets cutoff))[i]? = some q ↔
      ∃ p, (counted sets cutoff)[i]? = some p ∧ p.residual? model params = some q.1 ∧
        q.2 = (p.set.eta, p.r) := by
  rw [List.getElem?_zip_eq_some, (residuals?_eq_some hrs).2, places_eq_map hsets,
    List.getElem?_map]
  cases (counted sets cutoff)[i]? with
  | none => simp
  | some p => simp [eq_comm]

end Points

/-! ## The last of the greatest -/

section Sizes

variable {x y : Float}

theorem isFinite_abs (hx : x.isFinite = true) : x.abs.isFinite = true := by
  obtain ⟨_, _, hread⟩ := Reading.isFinite_iff.mp hx
  exact Reading.isFinite_iff.mpr ⟨_, _, Reading.ofFloat_abs hread⟩

theorem abs_le_abs_iff (hx : x.isFinite = true) (hy : y.isFinite = true) :
    x.abs ≤ y.abs ↔ |realOf x| ≤ |realOf y| := by
  rw [le_iff_realOf_le (isFinite_abs hx) (isFinite_abs hy), realOf_abs hx, realOf_abs hy]

theorem abs_lt_abs_iff (hx : x.isFinite = true) (hy : y.isFinite = true) :
    x.abs < y.abs ↔ |realOf x| < |realOf y| := by
  rw [lt_iff_realOf_lt (isFinite_abs hx) (isFinite_abs hy), realOf_abs hx, realOf_abs hy]

theorem zero_le_abs (hx : x.isFinite = true) : 0.0 ≤ x.abs := by
  have hzero : (0.0 : Float).isFinite = true := Reading.isFinite_iff.mpr ⟨_, _, ofFloat_zero⟩
  rw [le_iff_realOf_le hzero (isFinite_abs hx), realOf_zero, realOf_abs hx]
  exact abs_nonneg _

end Sizes

section Search

variable {qs : List (Float × Float × Float)} {i : ℕ} {q new : Float × Float × Float}

/-- The deviation at a position is the greatest one, and those that come later are smaller. -/
structure IsLastGreatest (qs : List (Float × Float × Float)) (i : ℕ) (q : Float × Float × Float) :
    Prop where
  getElem?_eq : qs[i]? = some q
  le : ∀ q' ∈ qs, q'.1.abs ≤ q.1.abs
  lt : ∀ (j : ℕ) (q' : Float × Float × Float), qs[j]? = some q' → i < j → q'.1.abs < q.1.abs

/-- Nothing comes after a last point. -/
theorem isLastGreatest_concat (hle : ∀ q' ∈ qs, q'.1.abs ≤ new.1.abs)
    (hnew : new.1.isFinite = true) : IsLastGreatest (qs ++ [new]) qs.length new where
  getElem?_eq := List.getElem?_concat_length
  le q' hq' := by
    rcases List.mem_append.mp hq' with hmem | hmem
    · exact hle q' hmem
    · rw [List.mem_singleton.mp hmem, abs_le_abs_iff hnew hnew]
  lt j q' hj hlt := by
    have hrange := (List.getElem?_eq_some_iff.mp hj).1
    rw [List.length_append, List.length_singleton] at hrange
    omega

/-- A point with a smaller deviation changes nothing. -/
theorem IsLastGreatest.concat (h : IsLastGreatest qs i q) (hlt : new.1.abs < q.1.abs)
    (hle : new.1.abs ≤ q.1.abs) : IsLastGreatest (qs ++ [new]) i q where
  getElem?_eq := by
    rw [List.getElem?_append_left (List.getElem?_eq_some_iff.mp h.getElem?_eq).1]
    exact h.getElem?_eq
  le q' hq' := by
    rcases List.mem_append.mp hq' with hmem | hmem
    · exact h.le q' hmem
    · rwa [List.mem_singleton.mp hmem]
  lt j q' hj hij := by
    rcases Nat.lt_or_ge j qs.length with hbefore | hend
    · rw [List.getElem?_append_left hbefore] at hj
      exact h.lt j q' hj hij
    · rw [List.getElem?_append_right hend] at hj
      rwa [List.mem_singleton.mp (List.mem_of_getElem? hj)]

/-- The search for the worst point finds the last of those at which the deviation is greatest. -/
theorem exists_isLastGreatest (hfinite : ∀ q ∈ qs, q.1.isFinite = true) (hne : qs ≠ []) :
    ∃ i q, IsLastGreatest qs i q ∧
      qs.foldl Worst.step ⟨0.0, 0.0, 0.0⟩ = ⟨q.1.abs, q.2.1, q.2.2⟩ := by
  induction qs using List.reverseRecOn with
  | nil => exact absurd rfl hne
  | append_singleton qs new ih =>
    have hnew : new.1.isFinite = true := hfinite new (by simp)
    have hold : ∀ q ∈ qs, q.1.isFinite = true := fun q hq => hfinite q (List.mem_append_left _ hq)
    rw [List.foldl_append, List.foldl_cons, List.foldl_nil]
    by_cases hqs : qs = []
    · subst hqs
      exact ⟨0, new, isLastGreatest_concat (fun q' hq' => absurd hq' List.not_mem_nil) hnew,
        if_pos (zero_le_abs hnew)⟩
    · obtain ⟨i, q, hgreatest, hfold⟩ := ih hold hqs
      have hq : q.1.isFinite = true := hold q (List.mem_of_getElem? hgreatest.getElem?_eq)
      rw [hfold]
      by_cases hle : q.1.abs ≤ new.1.abs
      · refine ⟨qs.length, new, isLastGreatest_concat (fun q' hq' => ?_) hnew, if_pos hle⟩
        have hbound := hgreatest.le q' hq'
        rw [abs_le_abs_iff (hold q' hq') hq] at hbound
        rw [abs_le_abs_iff hq hnew] at hle
        rw [abs_le_abs_iff (hold q' hq') hnew]
        exact hbound.trans hle
      · refine ⟨i, q, hgreatest.concat ?_ ?_, if_neg hle⟩
        · rw [abs_le_abs_iff hq hnew, not_le] at hle
          rwa [abs_lt_abs_iff hnew hq]
        · rw [abs_le_abs_iff hq hnew, not_le] at hle
          rw [abs_le_abs_iff hnew hq]
          exact hle.le

end Search

/-! ## Fits -/

section Fits

variable {sets : List (DataSet Float)} {options : Options Float} {model : Program Float}
  {solve : List (List Float) → List Float → Option (List Float)} {fit : Fit Float}

/-- What a fit amounts to: the report of a search that has residuals where it starts. -/
theorem exists_report_of_run (h : run solve model sets options = .ok fit) :
    ∃ initialSquares report,
      (residuals? model sets options.cutoff initialGuess).getD [] ≠ [] ∧
      minimise (fun x => (residuals? model sets options.cutoff x).getD []) solve options.search
        initialGuess = .ok report ∧
      fit = ofReport model sets options initialSquares report := by
  unfold run at h
  dsimp only at h
  split at h
  · exact absurd h (by simp)
  · rename_i hinitial
    split at h
    · exact absurd h (by simp)
    · rename_i report hreport
      refine ⟨_, report, ?_, hreport, (Except.ok.inj h).symm⟩
      exact fun hnil => hinitial (by rw [hnil]; rfl)

/-- A fit has as many parameters as its search started with. -/
theorem length_params_of_run (hmodel : IsCompiled model) (hsolve : FitsShape solve)
    (h : run solve model sets options = .ok fit) : fit.params.length = parameterCount := by
  obtain ⟨squares, report, -, hreport, rfl⟩ := exists_report_of_run h
  have hstart : (initialGuess : List Float) ≠ [] := List.cons_ne_nil _ _
  have hlength : ∀ x : List Float, x.length = parameterCount →
      ((residuals? model sets options.cutoff x).getD []).length =
        (counted sets options.cutoff).length := by
    intro x hx
    obtain ⟨rs, hrs⟩ := hmodel.exists_residuals? hx.ge sets options.cutoff
    rw [hrs, Option.getD_some, (residuals?_eq_some hrs).1]
  have huniform : Task.IsUniform ⟨_, fun _ => solve, options.search⟩ initialGuess :=
    fun x hx => (hlength x hx).trans (hlength _ rfl).symm
  have hfits := (fits_of_minimise huniform
    (answers_of_fitsShape hsolve _ options.search hstart) dampingFuel).2 report hreport
  rw [ofReport, List.length_map, hfits.1.length_eq]
  rfl

/-- A fit that has its worst point at a point of the data: the deviation there is the greatest one,
and it is smaller at all points that come later. -/
structure Locates (model : Program Float) (sets : List (DataSet Float)) (cutoff : Float)
    (fit : Fit Float) (p : Point Float) : Prop where
  isBelow : p.IsBelow sets cutoff
  eta_eq : fit.worst.eta = p.set.eta
  r_eq : fit.worst.r = p.r
  deviation : ∃ v, p.residual? model fit.params = some v ∧ fit.worst.deviation = v.abs
  greatest : ∀ (q : Point Float) v, q.IsBelow sets cutoff →
    q.residual? model fit.params = some v → v.abs ≤ fit.worst.deviation
  last : ∀ (q : Point Float) v, q.IsBelow sets cutoff → p.Before q →
    q.residual? model fit.params = some v → v.abs < fit.worst.deviation

/-- The worst point of residuals that are finite is one of the data. -/
theorem exists_locates (hsets : ∀ set ∈ sets, set.r.length = set.g.length) {cutoff : Float}
    {rs : List Float} (hrs : residuals? model sets cutoff fit.params = some rs)
    (hfinite : ∀ v ∈ rs, v.isFinite = true) (hne : counted sets cutoff ≠ [])
    (hworst : fit.worst = worstOf rs (places sets cutoff)) :
    ∃ p, Locates model sets cutoff fit p := by
  have hlength := (residuals?_eq_some hrs).1
  have hnumbers : ∀ q ∈ rs.zip (places sets cutoff), q.1.isFinite = true :=
    fun q hq => hfinite q.1 (List.of_mem_zip hq).1
  have hsome : rs.zip (places sets cutoff) ≠ [] := by
    rw [places_eq_map hsets, ← List.length_pos_iff, List.length_zip, List.length_map, hlength,
      Nat.min_self]
    exact List.length_pos_iff.mpr hne
  obtain ⟨i, q, hgreatest, hfold⟩ := exists_isLastGreatest hnumbers hsome
  obtain ⟨p, hp, hresidual, hplace⟩ :=
    (getElem?_zip_places hsets hrs).mp hgreatest.getElem?_eq
  replace hworst := hworst.trans hfold
  have hfind : ∀ (p' : Point Float) v, p'.IsBelow sets cutoff →
      p'.residual? model fit.params = some v → ∃ j : ℕ, (counted sets cutoff)[j]? = some p' ∧
        (rs.zip (places sets cutoff))[j]? = some (v, p'.set.eta, p'.r) := by
    intro p' v hbelow hv
    obtain ⟨j, hj⟩ := List.mem_iff_getElem?.mp (mem_counted_iff.mpr hbelow)
    exact ⟨j, hj, (getElem?_zip_places hsets hrs).mpr ⟨p', hj, hv, rfl⟩⟩
  refine ⟨p, mem_counted_iff.mp (List.mem_of_getElem? hp), ?_, ?_, ⟨q.1, hresidual, ?_⟩, ?_, ?_⟩
  · rw [hworst, hplace]
  · rw [hworst, hplace]
  · rw [hworst]
  · intro p' v hbelow hv
    obtain ⟨j, -, hj⟩ := hfind p' v hbelow hv
    rw [hworst]
    exact hgreatest.le (v, p'.set.eta, p'.r) (List.mem_of_getElem? hj)
  · intro p' v hbelow hlater hv
    obtain ⟨j, hpoint, hj⟩ := hfind p' v hbelow hv
    rw [hworst]
    exact hgreatest.lt j (v, p'.set.eta, p'.r) hj (hlater.position_lt hp hpoint)

end Fits

/-- **The worst point of a fit is the last one at which the deviation is greatest.**  Data sets that
are loaded have as many values as distances, and for data sets that have, the residuals of every
model and at all parameters belong, in their order, to the points with a distance below the cutoff,
set by set and distance by distance.  A fit has the sum of their squares at the rounded parameters,
and where they are finite, its worst point is the last of those points at which the deviation is
greatest. -/
theorem worst_at_last_greatest :
    (∀ d base etas sets, DataSet.load d base etas = .ok sets →
      ∀ set ∈ sets, set.r.length = set.g.length) ∧
    ∀ sets : List (DataSet Float), (∀ set ∈ sets, set.r.length = set.g.length) →
      ∀ options : Options Float,
        (∃ points : List (Point Float), (∀ p, p ∈ points ↔ p.IsBelow sets options.cutoff) ∧
          points.Pairwise Point.Before ∧
          ∀ model, IsCompiled model → ∀ params : List Float, parameterCount ≤ params.length →
            ∃ rs, residuals? model sets options.cutoff params = some rs ∧
              List.Forall₂ (fun p v => p.residual? model params = some v) points rs) ∧
        ∀ model solve fit, IsCompiled model → FitsShape solve →
          run solve model sets options = .ok fit →
            ∃ rs, residuals? model sets options.cutoff fit.params = some rs ∧
              fit.squares = Scalar.total (rs.map fun v => v * v) ∧
              ((∀ v ∈ rs, v.isFinite = true) →
                ∃ p, Locates model sets options.cutoff fit p) := by
  refine ⟨fun d base etas sets hload => DataSet.length_of_load hload,
    fun sets hsets options => ⟨?_, ?_⟩⟩
  · refine ⟨counted sets options.cutoff, fun p => mem_counted_iff,
      pairwise_counted sets options.cutoff, fun model hmodel params hparams => ?_⟩
    obtain ⟨rs, hrs⟩ := hmodel.exists_residuals? hparams sets options.cutoff
    exact ⟨rs, hrs, forall₂_residuals? hrs⟩
  · intro model solve fit hmodel hsolve hrun
    have hparams := length_params_of_run hmodel hsolve hrun
    obtain ⟨rs, hrs⟩ := hmodel.exists_residuals? hparams.ge sets options.cutoff
    obtain ⟨squares, report, hstart, -, rfl⟩ := exists_report_of_run hrun
    have hdeviations : (residuals? model sets options.cutoff
        (report.params.map (roundTo · options.digits))).getD [] = rs := by
      rw [ofReport] at hrs
      rw [hrs, Option.getD_some]
    refine ⟨rs, hrs, ?_, fun hfinite => ?_⟩
    · rw [ofReport, hdeviations]
      rfl
    · have hpoints : counted sets options.cutoff ≠ [] := by
        intro hnone
        rw [residuals?_eq_mapM, hnone] at hstart
        exact hstart rfl
      refine exists_locates hsets hrs hfinite hpoints ?_
      rw [ofReport, hdeviations]

/-- Three data sets: one distance is not a number, one set has no distance below six, and of the other
points three are equally bad for a model that is one everywhere. -/
def tied : List (DataSet Float) :=
  [⟨0, 0.4, 1.0, [2.0, 0.0 / 0.0, 2.5, 7.0], [0.5, 9.0, 1.5, 9.0]⟩,
   ⟨1, 0.3, 1.0, [8.0], [9.0]⟩,
   ⟨2, 0.2, 1.0, [2.0, 2.25], [1.5, 0.75]⟩]

/-- The last of the three is reported. -/
theorem worst_at_last_greatest_tied :
    ∃ model fit, compileModel (.symbol "g_sigma") = .ok model ∧
      run solveLinear model tied .standard = .ok fit ∧
      fit.worst.eta.toBits = Float.toBits 0.2 ∧ fit.worst.r.toBits = Float.toBits 2.0 ∧
      ∃ p, Locates model tied 6.0 fit p := by
  have hmodel : compileModel (α := Float) (.symbol "g_sigma") = .ok ⟨19, .argument 17⟩ := rfl
  have hcheck : (run solveLinear ⟨19, .argument 17⟩ tied .standard).toOption.any (fun fit =>
      fit.worst.eta.toBits == Float.toBits 0.2 && fit.worst.r.toBits == Float.toBits 2.0 &&
        ((residuals? ⟨19, .argument 17⟩ tied 6.0 fit.params).getD []).all Float.isFinite) =
      true := by
    decide +kernel
  cases hrun : run solveLinear ⟨19, .argument 17⟩ tied .standard with
  | error fault => exact absurd hcheck (by simp [hrun, Except.toOption])
  | ok fit =>
    rw [hrun] at hcheck
    simp only [Except.toOption, Option.any_some, Bool.and_eq_true, beq_iff_eq] at hcheck
    obtain ⟨⟨heta, hr⟩, hall⟩ := hcheck
    obtain ⟨rs, hrs, -, hlocates⟩ := (worst_at_last_greatest.2 tied (by decide) .standard).2 _
      solveLinear fit (isCompiled_of_compileModel hmodel) fitsShape_solveLinear hrun
    have hcutoff : (Options.standard : Options Float).cutoff = 6.0 := rfl
    rw [hcutoff] at hrs hlocates
    rw [hrs, Option.getD_some, List.all_eq_true] at hall
    exact ⟨_, fit, hmodel, hrun, heta, hr, hlocates hall⟩

end Fit

end SphereLab
