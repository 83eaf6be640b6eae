import Mathlib
import SphereLab.Proofs.Formula.NormalForm

/-!
# The algebra of simplified formulas

Over exact scalars the simplified sum and product of formulas depend only on what is spliced into
them: on the members that are no constants, in their order, and on the sum or the product of those
that are.  So sums may be nested and cut at will, and so may products, except that a zero absorbs
everything beside it.

* `sumOf_congr`, `productOf_congr_parts`: sums and products with the same parts are the same.
* `sumOf_map_sumOf`, `productOf_map_productOf`: a sum of sums is one sum, a product of products one
  product.
* `map_productOf`: an operation that goes through the factors of a formula, and multiplies on
  constants, goes through simplified products.  Substitutions and integer powers are such
  operations.
* `substitute_sumOf`, `substitute_productOf_map`: substitution goes through simplified sums and
  products.
-/

namespace SphereLab

namespace Formula

variable {α : Type}

/-! ## The parts of a sum -/

/-- The terms that are spliced into a sum and are no constants. -/
def openTerms (fs : List (Formula α)) : List (Formula α) :=
  (fs.flatMap terms).filter (·.const?.isNone)

/-- The factors that are spliced into a product and are no constants. -/
def openFactors (fs : List (Formula α)) : List (Formula α) :=
  (fs.flatMap factors).filter (·.const?.isNone)

@[simp] theorem openTerms_const (c : α) : openTerms [const c] = [] := rfl

@[simp] theorem openFactors_const (c : α) : openFactors [const c] = [] := rfl

@[simp] theorem openTerms_append (fs gs : List (Formula α)) :
    openTerms (fs ++ gs) = openTerms fs ++ openTerms gs := by
  rw [openTerms, List.flatMap_append, List.filter_append]
  rfl

@[simp] theorem openFactors_append (fs gs : List (Formula α)) :
    openFactors (fs ++ gs) = openFactors fs ++ openFactors gs := by
  rw [openFactors, List.flatMap_append, List.filter_append]
  rfl

theorem openTerms_cons (f : Formula α) (fs : List (Formula α)) :
    openTerms (f :: fs) = openTerms [f] ++ openTerms fs := openTerms_append [f] fs

theorem openFactors_cons (f : Formula α) (fs : List (Formula α)) :
    openFactors (f :: fs) = openFactors [f] ++ openFactors fs := openFactors_append [f] fs

section Exact

variable [ExactScalar α]

/-- The sum of the constants that are spliced into a sum. -/
def constantTerm (fs : List (Formula α)) : α := ((fs.flatMap terms).filterMap const?).sum

/-- The product of the constants that are spliced into a product. -/
def coefficient (fs : List (Formula α)) : α := ((fs.flatMap factors).filterMap const?).prod

@[simp] theorem constantTerm_append (fs gs : List (Formula α)) :
    constantTerm (fs ++ gs) = constantTerm fs + constantTerm gs := by
  rw [constantTerm, List.flatMap_append, List.filterMap_append, List.sum_append]
  rfl

@[simp] theorem coefficient_append (fs gs : List (Formula α)) :
    coefficient (fs ++ gs) = coefficient fs * coefficient gs := by
  rw [coefficient, List.flatMap_append, List.filterMap_append, List.prod_append]
  rfl

theorem constantTerm_cons (f : Formula α) (fs : List (Formula α)) :
    constantTerm (f :: fs) = constantTerm [f] + constantTerm fs := constantTerm_append [f] fs

theorem coefficient_cons (f : Formula α) (fs : List (Formula α)) :
    coefficient (f :: fs) = coefficient [f] * coefficient fs := coefficient_append [f] fs

@[simp] theorem constantTerm_const (c : α) : constantTerm [const c] = c := by
  have hconsts : ([const c].flatMap terms).filterMap const? = [c] := rfl
  rw [constantTerm, hconsts, List.sum_singleton]

@[simp] theorem coefficient_const (c : α) : coefficient [const c] = c := by
  have hconsts : ([const c].flatMap factors).filterMap const? = [c] := rfl
  rw [coefficient, hconsts, List.prod_singleton]

theorem parts_of_open_term {f : Formula α} (hsum : ¬f.IsSum) (hconst : f.const? = none) :
    openTerms [f] = [f] ∧ constantTerm [f] = 0 := by
  have hself : [f].flatMap terms = [f] := flatMap_terms_eq_self (List.forall_mem_singleton.mpr hsum)
  have hnone : ∀ g ∈ [f], g.const? = none := List.forall_mem_singleton.mpr hconst
  rw [openTerms, constantTerm, hself, filter_isNone_eq_self hnone, filterMap_const?_eq_nil hnone]
  exact ⟨rfl, List.sum_nil⟩

theorem parts_of_open_factor {f : Formula α} (hproduct : ¬f.IsProduct) (hconst : f.const? = none) :
    openFactors [f] = [f] ∧ coefficient [f] = 1 := by
  have hself : [f].flatMap factors = [f] :=
    flatMap_factors_eq_self (List.forall_mem_singleton.mpr hproduct)
  have hnone : ∀ g ∈ [f], g.const? = none := List.forall_mem_singleton.mpr hconst
  rw [openFactors, coefficient, hself, filter_isNone_eq_self hnone, filterMap_const?_eq_nil hnone]
  exact ⟨rfl, List.prod_nil⟩

theorem sumOf_eq (fs : List (Formula α)) :
    sumOf fs = ofTerms (if constantTerm fs = 0 then openTerms fs
      else openTerms fs ++ [.const (constantTerm fs)]) := by
  have htotal : ((fs.flatMap terms).filterMap const?).foldl (· + ·) (0 : α) = constantTerm fs :=
    List.sum_eq_foldl.symm
  rw [sumOf, htotal]
  simp only [ExactScalar.beq_iff_eq]
  rfl

theorem productOf_eq (fs : List (Formula α)) :
    productOf fs = if coefficient fs = 0 then .const 0
      else ofFactors (if coefficient fs = 1 then openFactors fs
        else .const (coefficient fs) :: openFactors fs) := by
  have htotal : ((fs.flatMap factors).filterMap const?).foldl (· * ·) (1 : α) = coefficient fs :=
    List.prod_eq_foldl.symm
  rw [productOf, htotal]
  simp only [ExactScalar.beq_iff_eq]
  rfl

/-- Sums with the same parts are the same. -/
theorem sumOf_congr {fs gs : List (Formula α)} (hopen : openTerms fs = openTerms gs)
    (hconst : constantTerm fs = constantTerm gs) : sumOf fs = sumOf gs := by
  rw [sumOf_eq, sumOf_eq, hopen, hconst]

/-- Products with the same parts are the same, and one coefficient zero is enough. -/
theorem productOf_congr_parts {fs gs : List (Formula α)} (hconst : coefficient fs = coefficient gs)
    (hopen : coefficient fs ≠ 0 → openFactors fs = openFactors gs) :
    productOf fs = productOf gs := by
  rw [productOf_eq, productOf_eq, ← hconst]
  by_cases hzero : coefficient fs = 0
  · rw [if_pos hzero, if_pos hzero]
  · rw [hopen hzero]

/-! ## Splicing once is enough -/

theorem openTerms_ofTerms {ts : List (Formula α)} (h : ∀ t ∈ ts, ¬t.IsSum) :
    openTerms [ofTerms ts] = ts.filter (·.const?.isNone) ∧
      constantTerm [ofTerms ts] = (ts.filterMap const?).sum := by
  have hself := flatMap_terms_eq_self h
  match ts with
  | [] => exact ⟨rfl, constantTerm_const 0⟩
  | [t] =>
    rw [ofTerms, openTerms, constantTerm, hself]
    exact ⟨rfl, rfl⟩
  | t :: u :: ts =>
    have hspliced : [ofTerms (t :: u :: ts)].flatMap terms = t :: u :: ts := List.append_nil _
    rw [openTerms, constantTerm, hspliced]
    exact ⟨rfl, rfl⟩

theorem openFactors_ofFactors {fs : List (Formula α)} (h : ∀ f ∈ fs, ¬f.IsProduct) :
    openFactors [ofFactors fs] = fs.filter (·.const?.isNone) ∧
      coefficient [ofFactors fs] = (fs.filterMap const?).prod := by
  have hself := flatMap_factors_eq_self h
  match fs with
  | [] => exact ⟨rfl, coefficient_const 1⟩
  | [f] =>
    rw [ofFactors, openFactors, coefficient, hself]
    exact ⟨rfl, rfl⟩
  | f :: g :: fs =>
    have hspliced : [ofFactors (f :: g :: fs)].flatMap factors = f :: g :: fs := List.append_nil _
    rw [openFactors, coefficient, hspliced]
    exact ⟨rfl, rfl⟩

theorem of_mem_openTerms {fs : List (Formula α)} (hfs : ∀ f ∈ fs, f.IsNormal) {t : Formula α}
    (ht : t ∈ openTerms fs) : t.IsNormal ∧ ¬t.IsSum ∧ t.const? = none := by
  obtain ⟨hmem, hconst⟩ := List.mem_filter.mp ht
  obtain ⟨f, hf, htf⟩ := List.mem_flatMap.mp hmem
  obtain ⟨hnormal, hsum⟩ := isNormal_of_mem_terms (hfs f hf) htf
  exact ⟨hnormal, hsum, Option.isNone_iff_eq_none.mp hconst⟩

theorem of_mem_openFactors {fs : List (Formula α)} (hfs : ∀ f ∈ fs, f.IsNormal) {g : Formula α}
    (hg : g ∈ openFactors fs) : g.IsNormal ∧ ¬g.IsProduct ∧ g.const? = none := by
  obtain ⟨hmem, hconst⟩ := List.mem_filter.mp hg
  obtain ⟨f, hf, hgf⟩ := List.mem_flatMap.mp hmem
  obtain ⟨hnormal, hproduct⟩ := isNormal_of_mem_factors (hfs f hf) hgf
  exact ⟨hnormal, hproduct, Option.isNone_iff_eq_none.mp hconst⟩

/-- A simplified sum has the parts of its terms. -/
theorem parts_sumOf {fs : List (Formula α)} (hfs : ∀ f ∈ fs, f.IsNormal) :
    openTerms [sumOf fs] = openTerms fs ∧ constantTerm [sumOf fs] = constantTerm fs := by
  have hopen : ∀ t ∈ openTerms fs, t.const? = none := fun t ht => (of_mem_openTerms hfs ht).2.2
  have hsum : ∀ t ∈ openTerms fs, ¬t.IsSum := fun t ht => (of_mem_openTerms hfs ht).2.1
  rw [sumOf_eq]
  by_cases hzero : constantTerm fs = 0
  · obtain ⟨hterms, hconst⟩ := openTerms_ofTerms hsum
    rw [if_pos hzero, hterms, hconst, filter_isNone_eq_self hopen, filterMap_const?_eq_nil hopen,
      hzero]
    exact ⟨rfl, rfl⟩
  · have hsum' : ∀ t ∈ openTerms fs ++ [.const (constantTerm fs)], ¬t.IsSum :=
      List.forall_mem_append.mpr ⟨hsum, List.forall_mem_singleton.mpr id⟩
    obtain ⟨hterms, hconst⟩ := openTerms_ofTerms hsum'
    rw [if_neg hzero, hterms, hconst, List.filter_append, List.filterMap_append,
      filter_isNone_eq_self hopen, filterMap_const?_eq_nil hopen]
    simp

/-- A simplified product has the parts of its factors, unless they have been absorbed by a zero. -/
theorem parts_productOf {fs : List (Formula α)} (hfs : ∀ f ∈ fs, f.IsNormal) :
    coefficient [productOf fs] = coefficient fs ∧
      (coefficient fs ≠ 0 → openFactors [productOf fs] = openFactors fs) := by
  have hopen : ∀ g ∈ openFactors fs, g.const? = none := fun g hg => (of_mem_openFactors hfs hg).2.2
  have hproduct : ∀ g ∈ openFactors fs, ¬g.IsProduct :=
    fun g hg => (of_mem_openFactors hfs hg).2.1
  rw [productOf_eq]
  by_cases hzero : coefficient fs = 0
  · rw [if_pos hzero, hzero]
    exact ⟨by simp [coefficient, factors], fun h => absurd rfl h⟩
  · rw [if_neg hzero]
    by_cases hone : coefficient fs = 1
    · obtain ⟨hfactors, hconst⟩ := openFactors_ofFactors hproduct
      rw [if_pos hone, hfactors, hconst, filter_isNone_eq_self hopen,
        filterMap_const?_eq_nil hopen, hone]
      exact ⟨rfl, fun _ => rfl⟩
    · have hproduct' : ∀ g ∈ .const (coefficient fs) :: openFactors fs, ¬g.IsProduct :=
        List.forall_mem_cons.mpr ⟨id, hproduct⟩
      obtain ⟨hfactors, hconst⟩ := openFactors_ofFactors hproduct'
      rw [if_neg hone, hfactors, hconst]
      simp [filter_isNone_eq_self hopen, filterMap_const?_eq_nil hopen]

section Nested

variable {ι : Type} {members : ι → List (Formula α)}

/-- A sum of sums is one sum. -/
theorem sumOf_map_sumOf {xs : List ι} (h : ∀ x ∈ xs, ∀ f ∈ members x, f.IsNormal) :
    sumOf (xs.map fun x => sumOf (members x)) = sumOf (xs.flatMap members) := by
  have hparts : openTerms (xs.map fun x => sumOf (members x)) = openTerms (xs.flatMap members) ∧
      constantTerm (xs.map fun x => sumOf (members x)) = constantTerm (xs.flatMap members) := by
    induction xs with
    | nil => exact ⟨rfl, rfl⟩
    | cons x xs ih =>
      obtain ⟨hx, hxs⟩ := List.forall_mem_cons.mp h
      obtain ⟨hopen, hconst⟩ := ih hxs
      obtain ⟨hopen', hconst'⟩ := parts_sumOf hx
      rw [List.map_cons, List.flatMap_cons, openTerms_cons, constantTerm_cons, openTerms_append,
        constantTerm_append, hopen, hconst, hopen', hconst']
      exact ⟨rfl, rfl⟩
  exact sumOf_congr hparts.1 hparts.2

/-- A product of products is one product. -/
theorem productOf_map_productOf {xs : List ι} (h : ∀ x ∈ xs, ∀ f ∈ members x, f.IsNormal) :
    productOf (xs.map fun x => productOf (members x)) = productOf (xs.flatMap members) := by
  have hparts : coefficient (xs.map fun x => productOf (members x)) =
        coefficient (xs.flatMap members) ∧
      (coefficient (xs.flatMap members) ≠ 0 →
        openFactors (xs.map fun x => productOf (members x)) =
          openFactors (xs.flatMap members)) := by
    induction xs with
    | nil => exact ⟨rfl, fun _ => rfl⟩
    | cons x xs ih =>
      obtain ⟨hx, hxs⟩ := List.forall_mem_cons.mp h
      obtain ⟨hconst, hopen⟩ := ih hxs
      obtain ⟨hconst', hopen'⟩ := parts_productOf hx
      rw [List.map_cons, List.flatMap_cons, openFactors_cons, coefficient_cons, openFactors_append,
        coefficient_append, hconst, hconst']
      refine ⟨rfl, fun hne => ?_⟩
      obtain ⟨hne', hne⟩ := mul_ne_zero_iff.mp hne
      rw [hopen hne, hopen' hne']
  exact productOf_congr_parts hparts.1 fun hne => hparts.2 (hparts.1 ▸ hne)

end Nested

/-! ## Normal formulas by their members -/

theorem sumOf_singleton {f : Formula α} (h : f.IsNormal) : sumOf [f] = f := by
  by_cases hsum : f.IsSum
  · cases f with
    | sum ts =>
      obtain ⟨hshape, hnormal⟩ := isNormal_sum_iff.mp h
      have hself := sumOf_eq_sum unitLaws_of_exact hshape
      obtain ⟨hopen, hconst⟩ := parts_sumOf hnormal
      rw [hself] at hopen hconst
      exact (sumOf_congr hopen hconst).trans hself
    | const c | symbol c | product c | power c d | exponential c => exact absurd hsum id
  · cases hvalue : f.const? with
    | none =>
      obtain ⟨hopen, hconst⟩ := parts_of_open_term hsum hvalue
      rw [sumOf_eq, hopen, hconst, if_pos rfl, ofTerms]
    | some c =>
      rw [eq_const_of_const?_eq_some hvalue, sumOf_eq, openTerms_const, constantTerm_const]
      by_cases hzero : c = 0
      · rw [if_pos hzero, hzero, ofTerms]
      · rw [if_neg hzero, List.nil_append, ofTerms]

theorem productOf_singleton {f : Formula α} (h : f.IsNormal) : productOf [f] = f := by
  by_cases hproduct : f.IsProduct
  · cases f with
    | product fs =>
      obtain ⟨hshape, hnormal⟩ := isNormal_product_iff.mp h
      have hself := productOf_eq_product unitLaws_of_exact hshape
      obtain ⟨hconst, hopen⟩ := parts_productOf hnormal
      rw [hself] at hconst hopen
      exact (productOf_congr_parts hconst fun hne => hopen (hconst ▸ hne)).trans hself
    | const c | symbol c | sum c | power c d | exponential c => exact absurd hproduct id
  · cases hvalue : f.const? with
    | none =>
      obtain ⟨hopen, hconst⟩ := parts_of_open_factor hproduct hvalue
      rw [productOf_eq, hopen, hconst, if_neg one_ne_zero, if_pos rfl, ofFactors]
    | some c =>
      rw [eq_const_of_const?_eq_some hvalue, productOf_eq, openFactors_const, coefficient_const]
      by_cases hzero : c = 0
      · rw [if_pos hzero, hzero]
      · by_cases hone : c = 1
        · rw [if_neg hzero, if_pos hone, hone, ofFactors]
        · rw [if_neg hzero, if_neg hone, ofFactors]

/-- A normal formula is the simplified product of its factors. -/
theorem productOf_factors {f : Formula α} (h : f.IsNormal) : productOf f.factors = f := by
  cases f with
  | product fs => exact productOf_eq_product unitLaws_of_exact (isNormal_product_iff.mp h).1
  | const c | symbol c | sum c | power c d | exponential c => exact productOf_singleton h

/-! ## Zeros in products -/

theorem productOf_of_coefficient {fs : List (Formula α)} (h : coefficient fs = 0) :
    productOf fs = const 0 := by rw [productOf_eq, if_pos h]

theorem productOf_of_zero_mem {fs : List (Formula α)} (h : const 0 ∈ fs) :
    productOf fs = const 0 := by
  refine productOf_of_coefficient (List.prod_eq_zero (List.mem_filterMap.mpr ?_))
  exact ⟨const 0, List.mem_flatMap.mpr ⟨const 0, h, List.mem_singleton_self _⟩, rfl⟩

/-- A normal product has no zero among its factors. -/
theorem eq_zero_of_mem_factors {f : Formula α} (h : f.IsNormal) (hmem : const 0 ∈ f.factors) :
    f = const 0 := by
  cases f with
  | product fs =>
    obtain ⟨hshape, -⟩ := isNormal_product_iff.mp h
    obtain ⟨first, rest, rfl⟩ : ∃ first rest, fs = first :: rest :=
      List.exists_cons_of_length_pos (by have := hshape.two_le_length; omega)
    rcases List.mem_cons.mp hmem with hfirst | hrest
    · obtain ⟨hzero, -⟩ := hshape.first_ne 0 (by rw [hfirst]; rfl)
      exact absurd rfl (Scalar.beq_eq_false_iff_ne.mp hzero)
    · exact absurd (hshape.const_first _ hrest) (by simp)
  | const c | symbol c | sum c | power c d | exponential c =>
    exact (List.mem_singleton.mp hmem).symm

/-- Only a zero makes the coefficient of normal formulas zero. -/
theorem zero_mem_of_coefficient {fs : List (Formula α)} (hfs : ∀ f ∈ fs, f.IsNormal)
    (h : coefficient fs = 0) : const 0 ∈ fs := by
  obtain ⟨g, hg, hvalue⟩ := List.mem_filterMap.mp (List.prod_eq_zero_iff.mp h)
  obtain ⟨f, hf, hgf⟩ := List.mem_flatMap.mp hg
  rw [eq_const_of_const?_eq_some hvalue] at hgf
  rwa [← eq_zero_of_mem_factors (hfs f hf) hgf]

/-! ## Operations that go through sums and products -/

section Through

variable {S : Formula α → Formula α}

theorem parts_map_terms (hconst : ∀ c, S (.const c) = .const c) (ts : List (Formula α)) :
    openTerms (ts.map S) = openTerms ((ts.filter (·.const?.isNone)).map S) ∧
      constantTerm (ts.map S) =
        constantTerm ((ts.filter (·.const?.isNone)).map S) + (ts.filterMap const?).sum := by
  induction ts with
  | nil => simp
  | cons t ts ih =>
    obtain ⟨hopen, htotal⟩ := ih
    rw [List.map_cons, openTerms_cons, constantTerm_cons, hopen, htotal]
    cases hvalue : t.const? with
    | none =>
      rw [List.filter_cons_of_pos (by simp [hvalue]), List.filterMap_cons_none hvalue,
        List.map_cons, openTerms_cons (S t) (.map S _), constantTerm_cons (S t) (.map S _),
        add_assoc]
      exact ⟨rfl, rfl⟩
    | some c =>
      obtain rfl := eq_const_of_const?_eq_some hvalue
      rw [List.filter_cons_of_neg (by simp), List.filterMap_cons_some hvalue, hconst,
        openTerms_const, constantTerm_const, List.sum_cons, List.nil_append, add_left_comm]
      exact ⟨rfl, rfl⟩

theorem parts_map_factors (φ : α →*₀ α) (fs : List (Formula α))
    (hconst : ∀ c ∈ fs.filterMap const?, S (.const c) = .const (φ c)) :
    openFactors (fs.map S) = openFactors ((fs.filter (·.const?.isNone)).map S) ∧
      coefficient (fs.map S) =
        coefficient ((fs.filter (·.const?.isNone)).map S) * φ (fs.filterMap const?).prod := by
  induction fs with
  | nil => simp
  | cons f fs ih =>
    cases hvalue : f.const? with
    | none =>
      rw [List.filterMap_cons_none hvalue] at hconst ⊢
      obtain ⟨hopen, htotal⟩ := ih hconst
      rw [List.map_cons, openFactors_cons, coefficient_cons, hopen, htotal,
        List.filter_cons_of_pos (by simp [hvalue]), List.map_cons,
        openFactors_cons (S f) (.map S _), coefficient_cons (S f) (.map S _), mul_assoc]
      exact ⟨rfl, rfl⟩
    | some c =>
      obtain rfl := eq_const_of_const?_eq_some hvalue
      rw [List.filterMap_cons_some hvalue, List.forall_mem_cons] at hconst
      obtain ⟨hopen, htotal⟩ := ih hconst.2
      rw [List.map_cons, openFactors_cons, coefficient_cons, hopen, htotal,
        List.filter_cons_of_neg (by simp), List.filterMap_cons_some hvalue, hconst.1,
        openFactors_const, coefficient_const, List.prod_cons, map_mul, List.nil_append,
        mul_left_comm]
      exact ⟨rfl, rfl⟩

variable (hnormal : ∀ f : Formula α, f.IsNormal → (S f).IsNormal)
include hnormal

/-- An operation that goes through the terms of formulas and leaves constants alone goes through
simplified sums. -/
theorem map_sumOf (hterms : ∀ f : Formula α, f.IsNormal → S f = sumOf (f.terms.map S))
    (hconst : ∀ c, S (.const c) = .const c) {fs : List (Formula α)} (hfs : ∀ f ∈ fs, f.IsNormal) :
    S (sumOf fs) = sumOf (fs.map S) := by
  have hmembers : ∀ f ∈ fs, ∀ t ∈ f.terms.map S, t.IsNormal := fun f hf =>
    List.forall_mem_map.mpr fun t ht => hnormal t (isNormal_of_mem_terms (hfs f hf) ht).1
  obtain ⟨hopen, htotal⟩ := parts_sumOf hfs
  have hspliced : [sumOf fs].flatMap terms = (sumOf fs).terms := List.append_nil _
  rw [openTerms, hspliced] at hopen
  rw [constantTerm, hspliced] at htotal
  obtain ⟨hopen₁, htotal₁⟩ := parts_map_terms hconst (sumOf fs).terms
  obtain ⟨hopen₂, htotal₂⟩ := parts_map_terms hconst (fs.flatMap terms)
  calc S (sumOf fs) = sumOf ((sumOf fs).terms.map S) := hterms _ (isNormal_sumOf hfs)
    _ = sumOf ((fs.flatMap terms).map S) := by
      refine sumOf_congr ?_ ?_
      · rw [hopen₁, hopen₂, hopen]
        rfl
      · rw [htotal₁, htotal₂, hopen, htotal]
        rfl
    _ = sumOf (fs.map fun f => sumOf (f.terms.map S)) := by
      rw [List.map_flatMap, sumOf_map_sumOf hmembers]
    _ = sumOf (fs.map S) := by
      rw [List.map_congr_left fun f hf => (hterms f (hfs f hf)).symm]

/-- An operation that goes through the factors of formulas and multiplies on constants goes through
simplified products. -/
theorem map_productOf (hfactors : ∀ f : Formula α, f.IsNormal → S f = productOf (f.factors.map S))
    (φ : α →*₀ α) {fs : List (Formula α)} (hfs : ∀ f ∈ fs, f.IsNormal)
    (hconst : ∀ c, (c = 0 → coefficient fs = 0) → S (.const c) = .const (φ c)) :
    S (productOf fs) = productOf (fs.map S) := by
  have hmembers : ∀ f ∈ fs, ∀ g ∈ f.factors.map S, g.IsNormal := fun f hf =>
    List.forall_mem_map.mpr fun g hg => hnormal g (isNormal_of_mem_factors (hfs f hf) hg).1
  obtain ⟨htotal, hopen⟩ := parts_productOf hfs
  have hspliced : [productOf fs].flatMap factors = (productOf fs).factors := List.append_nil _
  rw [coefficient, hspliced] at htotal
  rw [openFactors, hspliced] at hopen
  obtain ⟨hopen₁, htotal₁⟩ := parts_map_factors φ (productOf fs).factors fun c hc =>
    hconst c fun hzero => by
      rw [← htotal]
      exact List.prod_eq_zero (hzero ▸ hc)
  obtain ⟨hopen₂, htotal₂⟩ := parts_map_factors φ (fs.flatMap factors) fun c hc =>
    hconst c fun hzero => List.prod_eq_zero (hzero ▸ hc)
  calc S (productOf fs) = productOf ((productOf fs).factors.map S) :=
        hfactors _ (isNormal_productOf hfs)
    _ = productOf ((fs.flatMap factors).map S) := by
      by_cases hzero : coefficient fs = 0
      · -- A zero has absorbed the other factors, and it does so again.
        have hzero₁ : coefficient ((productOf fs).factors.map S) = 0 := by
          rw [htotal₁, htotal, hzero, map_zero, mul_zero]
        have hzero₂ : coefficient ((fs.flatMap factors).map S) = 0 := by
          have hprod : ((fs.flatMap factors).filterMap const?).prod = 0 := hzero
          rw [htotal₂, hprod, map_zero, mul_zero]
        exact productOf_congr_parts (hzero₁.trans hzero₂.symm) fun hne => absurd hzero₁ hne
      · refine productOf_congr_parts ?_ fun _ => ?_
        · rw [htotal₁, htotal₂, hopen hzero, htotal]
          rfl
        · rw [hopen₁, hopen₂, hopen hzero]
          rfl
    _ = productOf (fs.map fun f => productOf (f.factors.map S)) := by
      rw [List.map_flatMap, productOf_map_productOf hmembers]
    _ = productOf (fs.map S) := by
      rw [List.map_congr_left fun f hf => (hfactors f (hfs f hf)).symm]

end Through

/-! ## Substitution -/

section Substitution

variable {σ : String → Option (Formula α)} (hσ : ∀ s g, σ s = some g → g.IsNormal)
include hσ

theorem substitute_eq_sumOf {f : Formula α} (h : f.IsNormal) :
    substitute σ f = sumOf (f.terms.map (substitute σ)) := by
  cases f with
  | sum ts => rw [substitute, substituteEach_eq_map, terms]
  | const c | symbol c | product c | power c d | exponential c =>
    exact (sumOf_singleton (isNormal_substitute hσ _)).symm

theorem substitute_eq_productOf {f : Formula α} (h : f.IsNormal) :
    substitute σ f = productOf (f.factors.map (substitute σ)) := by
  cases f with
  | product fs => rw [substitute, substituteEach_eq_map, factors]
  | const c | symbol c | sum c | power c d | exponential c =>
    exact (productOf_singleton (isNormal_substitute hσ _)).symm

/-- Substitution goes through simplified sums. -/
theorem substitute_sumOf {fs : List (Formula α)} (hfs : ∀ f ∈ fs, f.IsNormal) :
    substitute σ (sumOf fs) = sumOf (fs.map (substitute σ)) :=
  map_sumOf (fun f _ => isNormal_substitute hσ f) (fun _ => substitute_eq_sumOf hσ)
    (fun _ => rfl) hfs

/-- Substitution goes through simplified products. -/
theorem substitute_productOf_map {fs : List (Formula α)} (hfs : ∀ f ∈ fs, f.IsNormal) :
    substitute σ (productOf fs) = productOf (fs.map (substitute σ)) :=
  map_productOf (fun f _ => isNormal_substitute hσ f) (fun _ => substitute_eq_productOf hσ)
    (MonoidWithZeroHom.id α) hfs fun _ _ => rfl

omit hσ in
/-- Substitution goes through simplified exponentials. -/
theorem substitute_exp (f : Formula α) : substitute σ (exp f) = exp (substitute σ f) := by
  cases f with
  | const c => rfl
  | symbol s | sum ts | product fs | power b e | exponential x => rfl

end Substitution

end Exact

end Formula

end SphereLab
