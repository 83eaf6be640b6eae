import Mathlib
import SphereLab.Proofs.Formula.Operation
import SphereLab.Proofs.Formula.Rules
import SphereLab.Proofs.Scalar.Exact

/-!
# The normal form of simplified formulas

A formula is *normal* when no simplification applies anywhere in it.  `IsNormal` says so shape by
shape, without mentioning the simplification: `SumShape`, `ProductShape` and `PowerShape` are the
conditions at a sum, a product and a power.

* `isNormal_sumOf`, `isNormal_productOf`, `isNormal_powConst`, `isNormal_pow`, `isNormal_exp`:
  every operation keeps normal formulas normal.  No law of the scalars is used, so this holds of
  doubles, with every rounding error.
* `isNormal_substitute`: substitution brings any formula into normal form, if what it puts in is
  normal.
* `substitute_eq_self`: a normal formula is left alone by the substitution that replaces nothing,
  if the scalars obey the laws of the two units.
-/

namespace SphereLab

namespace Formula

variable {α : Type}

/-! ## Shapes -/

section Shapes

variable [Scalar α]

/-- The terms of a normal sum: at least two, none of them a sum, and only the last one may be a
constant, which is not zero. -/
structure SumShape (ts : List (Formula α)) : Prop where
  two_le_length : 2 ≤ ts.length
  not_isSum : ∀ t ∈ ts, ¬ t.IsSum
  const_last : ∀ t ∈ ts.dropLast, t.const? = none
  last_ne_zero : ∀ c, ts.getLast? = some (.const c) → (c == 0) = false

/-- The factors of a normal product: at least two, none of them a product, and only the first
one may be a constant, which is neither zero nor one. -/
structure ProductShape (fs : List (Formula α)) : Prop where
  two_le_length : 2 ≤ fs.length
  not_isProduct : ∀ f ∈ fs, ¬ f.IsProduct
  const_first : ∀ f ∈ fs.tail, f.const? = none
  first_ne : ∀ c, fs.head? = some (.const c) → (c == 0) = false ∧ (c == 1) = false

/-- The base and the exponent of a normal power: not both are constants, the exponent is neither
zero nor one, the base is not one, and under an integer exponent the base is neither a product
nor a power with an integer exponent. -/
structure PowerShape (base exponent : Formula α) : Prop where
  not_both_const : base.const? = none ∨ exponent.const? = none
  exponent_ne : ∀ c, exponent = .const c → (c == 0) = false ∧ (c == 1) = false
  base_ne_one : ∀ c, base = .const c → (c == 1) = false
  base_not_isProduct : ∀ c, exponent = .const c → Scalar.isInteger c = true → ¬ base.IsProduct
  base_not_integer_power : ∀ c, exponent = .const c → Scalar.isInteger c = true →
    ∀ b i, base = .power b (.const i) → Scalar.isInteger i = false

mutual

/-- No simplification applies anywhere in the formula. -/
def IsNormal : Formula α → Prop
  | .const _ => True
  | .symbol _ => True
  | .sum ts => SumShape ts ∧ AllNormal ts
  | .product fs => ProductShape fs ∧ AllNormal fs
  | .power b e => PowerShape b e ∧ IsNormal b ∧ IsNormal e
  | .exponential x => x.const? = none ∧ IsNormal x

/-- All of several formulas are normal. -/
def AllNormal : List (Formula α) → Prop
  | [] => True
  | f :: fs => IsNormal f ∧ AllNormal fs

end

theorem allNormal_iff {fs : List (Formula α)} : AllNormal fs ↔ ∀ f ∈ fs, f.IsNormal := by
  induction fs with
  | nil => exact iff_of_true trivial fun f hf => absurd hf List.not_mem_nil
  | cons f fs ih => exact (and_congr_right fun _ => ih).trans List.forall_mem_cons.symm

@[simp] theorem isNormal_const (c : α) : (const c).IsNormal := trivial

@[simp] theorem isNormal_symbol (s : String) : (symbol s : Formula α).IsNormal := trivial

theorem isNormal_sum_iff {ts : List (Formula α)} :
    (sum ts).IsNormal ↔ SumShape ts ∧ ∀ t ∈ ts, t.IsNormal :=
  and_congr_right fun _ => allNormal_iff

theorem isNormal_product_iff {fs : List (Formula α)} :
    (product fs).IsNormal ↔ ProductShape fs ∧ ∀ f ∈ fs, f.IsNormal :=
  and_congr_right fun _ => allNormal_iff

theorem isNormal_power_iff {b e : Formula α} :
    (power b e).IsNormal ↔ PowerShape b e ∧ b.IsNormal ∧ e.IsNormal := Iff.rfl

theorem isNormal_exponential_iff {x : Formula α} :
    (exponential x).IsNormal ↔ x.const? = none ∧ x.IsNormal := Iff.rfl

/-! ## Sums -/

/-- What is spliced into a sum is normal and is no sum. -/
theorem isNormal_of_mem_terms {f t : Formula α} (hf : f.IsNormal) (ht : t ∈ f.terms) :
    t.IsNormal ∧ ¬ t.IsSum := by
  cases f with
  | sum ts =>
    obtain ⟨hshape, hnormal⟩ := isNormal_sum_iff.mp hf
    exact ⟨hnormal t ht, hshape.not_isSum t ht⟩
  | const c | symbol c | product c | power c d | exponential c =>
    obtain rfl := List.mem_singleton.mp ht
    exact ⟨hf, id⟩

/-- Terms that have the shape of a normal sum, except that they may be too few, make a normal
formula. -/
theorem isNormal_ofTerms {ts : List (Formula α)} (hnormal : ∀ t ∈ ts, t.IsNormal)
    (hsum : ∀ t ∈ ts, ¬ t.IsSum) (hconst : ∀ t ∈ ts.dropLast, t.const? = none)
    (hlast : ∀ c, ts.getLast? = some (.const c) → (c == 0) = false) :
    (ofTerms ts).IsNormal := by
  match ts with
  | [] => exact isNormal_const 0
  | [t] => exact hnormal t (List.mem_singleton_self t)
  | t :: u :: ts =>
    exact isNormal_sum_iff.mpr ⟨⟨by simp, hsum, hconst, hlast⟩, hnormal⟩

theorem isNormal_sumOf {fs : List (Formula α)} (h : ∀ f ∈ fs, f.IsNormal) :
    (sumOf fs).IsNormal := by
  have hspliced : ∀ t ∈ (fs.flatMap terms).filter (·.const?.isNone),
      (t.IsNormal ∧ ¬ t.IsSum) ∧ t.const? = none := by
    intro t ht
    obtain ⟨hmem, hconst⟩ := List.mem_filter.mp ht
    obtain ⟨f, hf, htf⟩ := List.mem_flatMap.mp hmem
    exact ⟨isNormal_of_mem_terms (h f hf) htf, Option.isNone_iff_eq_none.mp hconst⟩
  rw [sumOf]
  split
  · refine isNormal_ofTerms (fun t ht => (hspliced t ht).1.1) (fun t ht => (hspliced t ht).1.2)
      (fun t ht => (hspliced t (List.dropLast_subset _ ht)).2) fun c hc => ?_
    have hnone := (hspliced _ (List.mem_of_getLast? hc)).2
    exact absurd hnone (by simp [const?])
  · rename_i hzero
    refine isNormal_ofTerms (fun t ht => ?_) (fun t ht => ?_) (fun t ht => ?_) fun c hc => ?_
    · rcases List.mem_append.mp ht with ht | ht
      · exact (hspliced t ht).1.1
      · rw [List.mem_singleton.mp ht]
        exact isNormal_const _
    · rcases List.mem_append.mp ht with ht | ht
      · exact (hspliced t ht).1.2
      · rw [List.mem_singleton.mp ht]
        exact id
    · rw [List.dropLast_concat] at ht
      exact (hspliced t ht).2
    · rw [List.getLast?_concat, Option.some_inj, Formula.const.injEq] at hc
      rw [← hc]
      exact Bool.not_eq_true _ ▸ hzero

/-! ## Products -/

/-- What is spliced into a product is normal and is no product. -/
theorem isNormal_of_mem_factors {f g : Formula α} (hf : f.IsNormal) (hg : g ∈ f.factors) :
    g.IsNormal ∧ ¬ g.IsProduct := by
  cases f with
  | product fs =>
    obtain ⟨hshape, hnormal⟩ := isNormal_product_iff.mp hf
    exact ⟨hnormal g hg, hshape.not_isProduct g hg⟩
  | const c | symbol c | sum c | power c d | exponential c =>
    obtain rfl := List.mem_singleton.mp hg
    exact ⟨hf, id⟩

/-- Factors that have the shape of a normal product, except that they may be too few, make a
normal formula. -/
theorem isNormal_ofFactors {fs : List (Formula α)} (hnormal : ∀ f ∈ fs, f.IsNormal)
    (hproduct : ∀ f ∈ fs, ¬ f.IsProduct) (hconst : ∀ f ∈ fs.tail, f.const? = none)
    (hfirst : ∀ c, fs.head? = some (.const c) → (c == 0) = false ∧ (c == 1) = false) :
    (ofFactors fs).IsNormal := by
  match fs with
  | [] => exact isNormal_const 1
  | [f] => exact hnormal f (List.mem_singleton_self f)
  | f :: g :: fs =>
    exact isNormal_product_iff.mpr ⟨⟨by simp, hproduct, hconst, hfirst⟩, hnormal⟩

theorem isNormal_productOf {fs : List (Formula α)} (h : ∀ f ∈ fs, f.IsNormal) :
    (productOf fs).IsNormal := by
  have hspliced : ∀ g ∈ (fs.flatMap factors).filter (·.const?.isNone),
      (g.IsNormal ∧ ¬ g.IsProduct) ∧ g.const? = none := by
    intro g hg
    obtain ⟨hmem, hconst⟩ := List.mem_filter.mp hg
    obtain ⟨f, hf, hgf⟩ := List.mem_flatMap.mp hmem
    exact ⟨isNormal_of_mem_factors (h f hf) hgf, Option.isNone_iff_eq_none.mp hconst⟩
  rw [productOf]
  split
  · exact isNormal_const 0
  · rename_i hzero
    split
    · refine isNormal_ofFactors (fun g hg => (hspliced g hg).1.1)
        (fun g hg => (hspliced g hg).1.2) (fun g hg => (hspliced g (List.mem_of_mem_tail hg)).2)
        fun c hc => ?_
      have hnone := (hspliced _ (List.mem_of_mem_head? hc)).2
      exact absurd hnone (by simp [const?])
    · rename_i hone
      refine isNormal_ofFactors (fun g hg => ?_) (fun g hg => ?_) (fun g hg => ?_) fun c hc => ?_
      · rcases List.mem_cons.mp hg with rfl | hg
        · exact isNormal_const _
        · exact (hspliced g hg).1.1
      · rcases List.mem_cons.mp hg with rfl | hg
        · exact id
        · exact (hspliced g hg).1.2
      · exact (hspliced g hg).2
      · rw [List.head?_cons, Option.some_inj, Formula.const.injEq] at hc
        rw [← hc]
        exact ⟨Bool.not_eq_true _ ▸ hzero, Bool.not_eq_true _ ▸ hone⟩

/-! ## Powers and exponentials -/

/-- A power at a constant exponent that no rule of the simplification applies to is normal. -/
theorem isNormal_power_const {b : Formula α} {e : α} (hb : b.IsNormal) (hconst : b.const? = none)
    (hzero : ¬ (e == 0) = true) (hone : ¬ (e == 1) = true)
    (hbase : Scalar.isInteger e = true → b.Unmerged) : (power b (.const e)).IsNormal := by
  refine isNormal_power_iff.mpr ⟨⟨Or.inl hconst, fun c hc => ?_, fun c hc => ?_, fun c hc hi => ?_,
    fun c hc hi => ?_⟩, hb, isNormal_const e⟩
  · obtain rfl := Formula.const.inj hc
    exact ⟨Bool.not_eq_true _ ▸ hzero, Bool.not_eq_true _ ▸ hone⟩
  · rw [hc] at hconst
    exact absurd hconst (by simp)
  · obtain rfl := Formula.const.inj hc
    exact (hbase hi).not_isProduct
  · obtain rfl := Formula.const.inj hc
    exact (hbase hi).not_integer_power

/-- The power of a normal formula at a constant exponent is normal. -/
theorem isNormal_powConst {f : Formula α} (e : α) (h : f.IsNormal) : (powConst f e).IsNormal := by
  induction f, e using powConst_induction with
  | zero f e => exact isNormal_const 1
  | one f e => exact h
  | const b e => exact isNormal_const _
  | product fs e hzero hone hint ih =>
    have hfs := (isNormal_product_iff.mp h).2
    refine isNormal_productOf fun g hg => ?_
    obtain ⟨f, hf, rfl⟩ := List.mem_map.mp hg
    exact ih f hf (hfs f hf)
  | power b i e hzero hone hint hi ih => exact ih (isNormal_power_iff.mp h).2.1
  | other f e hzero hone hconst hbase => exact isNormal_power_const h hconst hzero hone hbase

theorem isNormal_pow {b e : Formula α} (hb : b.IsNormal) (he : e.IsNormal) :
    (pow b e).IsNormal := by
  cases hconst : e.const? with
  | some c =>
    rw [eq_const_of_const?_eq_some hconst]
    exact isNormal_powConst c hb
  | none =>
    have hne : ∀ c, e ≠ const c := fun c hc => by simp [hc] at hconst
    rcases pow_cases b hconst with ⟨c, _, _, hpow⟩ | ⟨hone, hpow⟩
    · rw [hpow]
      exact isNormal_const 1
    · rw [hpow]
      exact isNormal_power_iff.mpr ⟨⟨Or.inr hconst, fun c hc => absurd hc (hne c), hone,
        fun c hc => absurd hc (hne c), fun c hc => absurd hc (hne c)⟩, hb, he⟩

theorem isNormal_exp {f : Formula α} (h : f.IsNormal) : (exp f).IsNormal := by
  cases hconst : f.const? with
  | some c =>
    rw [eq_const_of_const?_eq_some hconst]
    exact isNormal_const _
  | none =>
    rw [exp_of_const?_eq_none hconst]
    exact isNormal_exponential_iff.mpr ⟨hconst, h⟩

/-! ## Operations and substitution -/

theorem isNormal_neg {f : Formula α} (h : f.IsNormal) : (-f).IsNormal :=
  isNormal_productOf (List.forall_mem_cons.mpr ⟨isNormal_const _, List.forall_mem_singleton.mpr h⟩)

/-- Every operation on normal formulas has a normal result. -/
theorem Operation.isNormal_result (op : Operation α) (h : ∀ f ∈ op.operands, f.IsNormal) :
    op.result.IsNormal := by
  have hpair : ∀ {f g : Formula α}, f.IsNormal → g.IsNormal → ∀ k ∈ [f, g], k.IsNormal :=
    fun hf hg => List.forall_mem_cons.mpr ⟨hf, List.forall_mem_singleton.mpr hg⟩
  cases op with
  | sum fs => exact isNormal_sumOf h
  | product fs => exact isNormal_productOf h
  | add f g => exact isNormal_sumOf h
  | mul f g => exact isNormal_productOf h
  | sub f g =>
    obtain ⟨hf, hg⟩ := List.forall_mem_cons.mp h
    exact isNormal_sumOf (hpair hf (isNormal_neg (List.forall_mem_singleton.mp hg)))
  | div f g =>
    obtain ⟨hf, hg⟩ := List.forall_mem_cons.mp h
    exact isNormal_productOf (hpair hf (isNormal_powConst _ (List.forall_mem_singleton.mp hg)))
  | pow f g =>
    obtain ⟨hf, hg⟩ := List.forall_mem_cons.mp h
    exact isNormal_pow hf (List.forall_mem_singleton.mp hg)
  | addConst f c | subConst f c =>
    exact isNormal_sumOf (hpair (List.forall_mem_singleton.mp h) (isNormal_const _))
  | constAdd c f => exact isNormal_sumOf (hpair (isNormal_const _) (List.forall_mem_singleton.mp h))
  | scale c f | divConst f c =>
    exact isNormal_productOf (hpair (isNormal_const _) (List.forall_mem_singleton.mp h))
  | neg f => exact isNormal_neg (List.forall_mem_singleton.mp h)
  | recip f | powConst f c | powInt f n =>
    exact isNormal_powConst _ (List.forall_mem_singleton.mp h)
  | exp f => exact isNormal_exp (List.forall_mem_singleton.mp h)

/-- Substitution brings every formula into normal form, if what it puts in is normal. -/
theorem isNormal_substitute {σ : String → Option (Formula α)}
    (hσ : ∀ s g, σ s = some g → g.IsNormal) (f : Formula α) : (substitute σ f).IsNormal := by
  induction f with
  | const c => exact isNormal_const c
  | symbol s =>
    rw [substitute]
    cases hs : σ s with
    | none => exact isNormal_symbol s
    | some g => exact hσ s g hs
  | sum ts ih =>
    rw [substitute, substituteEach_eq_map]
    exact isNormal_sumOf (List.forall_mem_map.mpr ih)
  | product fs ih =>
    rw [substitute, substituteEach_eq_map]
    exact isNormal_productOf (List.forall_mem_map.mpr ih)
  | power b e ihb ihe =>
    rw [substitute]
    exact isNormal_pow ihb ihe
  | exponential x ih =>
    rw [substitute]
    exact isNormal_exp ih

/-! ## Normal formulas are left alone -/

/-- The laws of zero and one, as far as the simplification relies on them.  The law of zero is
not asked of zeros themselves, among which there may be a negative one. -/
structure UnitLaws (α : Type) [Scalar α] : Prop where
  zero_beq_zero : ((0 : α) == 0) = true
  one_beq_one : ((1 : α) == 1) = true
  one_beq_zero : ((1 : α) == 0) = false
  zero_add : ∀ c : α, (c == 0) = false → 0 + c = c
  one_mul : ∀ c : α, 1 * c = c

omit [Scalar α] in
theorem filterMap_const?_eq_nil {fs : List (Formula α)} (h : ∀ f ∈ fs, f.const? = none) :
    fs.filterMap const? = [] := List.filterMap_eq_nil_iff.mpr h

omit [Scalar α] in
theorem filter_isNone_eq_self {fs : List (Formula α)} (h : ∀ f ∈ fs, f.const? = none) :
    fs.filter (·.const?.isNone) = fs :=
  List.filter_eq_self.mpr fun f hf => Option.isNone_iff_eq_none.mpr (h f hf)

omit [Scalar α] in
theorem flatMap_terms_eq_self {fs : List (Formula α)} (h : ∀ f ∈ fs, ¬ f.IsSum) :
    fs.flatMap terms = fs := by
  have hterms : ∀ f ∈ fs, terms f = [f] := by
    intro f hf
    have hsum := h f hf
    cases f with
    | sum ts => exact absurd trivial hsum
    | const c | symbol c | product c | power c d | exponential c => rfl
  rw [List.flatMap_congr hterms, List.flatMap_singleton']

omit [Scalar α] in
theorem flatMap_factors_eq_self {fs : List (Formula α)} (h : ∀ f ∈ fs, ¬ f.IsProduct) :
    fs.flatMap factors = fs := by
  have hfactors : ∀ f ∈ fs, factors f = [f] := by
    intro f hf
    have hproduct := h f hf
    cases f with
    | product fs => exact absurd trivial hproduct
    | const c | symbol c | sum c | power c d | exponential c => rfl
  rw [List.flatMap_congr hfactors, List.flatMap_singleton']

/-- A list of two terms or more makes a sum. -/
theorem ofTerms_of_two_le {ts : List (Formula α)} (h : 2 ≤ ts.length) : ofTerms ts = .sum ts := by
  match ts with
  | [] | [t] => simp at h
  | t :: u :: ts => rfl

/-- A list of two factors or more makes a product. -/
theorem ofFactors_of_two_le {fs : List (Formula α)} (h : 2 ≤ fs.length) :
    ofFactors fs = .product fs := by
  match fs with
  | [] | [f] => simp at h
  | f :: g :: fs => rfl

theorem sumOf_eq_sum (hlaws : UnitLaws α) {ts : List (Formula α)} (h : SumShape ts) :
    sumOf ts = .sum ts := by
  obtain ⟨htwo, hsum, hconst, hlast⟩ := h
  obtain ⟨init, last, rfl⟩ : ∃ init last, ts = init ++ [last] :=
    ⟨ts.dropLast, ts.getLast (List.ne_nil_of_length_pos (by omega)),
      (List.dropLast_append_getLast _).symm⟩
  rw [List.dropLast_concat] at hconst
  rw [List.getLast?_concat] at hlast
  rw [sumOf, flatMap_terms_eq_self hsum, List.filterMap_append, List.filter_append,
    filterMap_const?_eq_nil hconst, filter_isNone_eq_self hconst]
  cases hvalue : last.const? with
  | none => simp [hvalue, hlaws.zero_beq_zero, ofTerms_of_two_le htwo]
  | some c =>
    obtain rfl := eq_const_of_const?_eq_some hvalue
    have hne := hlast c rfl
    simp [hlaws.zero_add c hne, hne, ofTerms_of_two_le htwo]

theorem productOf_eq_product (hlaws : UnitLaws α) {fs : List (Formula α)} (h : ProductShape fs) :
    productOf fs = .product fs := by
  obtain ⟨htwo, hproduct, hconst, hfirst⟩ := h
  obtain ⟨first, rest, rfl⟩ : ∃ first rest, fs = first :: rest :=
    List.exists_cons_of_length_pos (by omega)
  rw [List.tail_cons] at hconst
  rw [List.head?_cons] at hfirst
  have hconsts := filterMap_const?_eq_nil hconst
  have hrest := filter_isNone_eq_self hconst
  rw [productOf, flatMap_factors_eq_self hproduct]
  cases hvalue : first.const? with
  | none =>
    have honly : (first :: rest).filterMap const? = [] := by
      rw [List.filterMap_cons_none hvalue, hconsts]
    have hall : (first :: rest).filter (·.const?.isNone) = first :: rest := by
      rw [List.filter_cons_of_pos (by rw [hvalue]; rfl), hrest]
    rw [honly, hall, List.foldl_nil, if_neg (by rw [hlaws.one_beq_zero]; exact Bool.false_ne_true),
      if_pos hlaws.one_beq_one, ofFactors_of_two_le htwo]
  | some c =>
    obtain rfl := eq_const_of_const?_eq_some hvalue
    obtain ⟨hzero, hone⟩ := hfirst c rfl
    simp [hconsts, hrest, hlaws.one_mul c, hzero, hone, ofFactors_of_two_le htwo]

/-- A power of the normal shape is not simplified. -/
theorem pow_eq_power {b e : Formula α} (h : PowerShape b e) : pow b e = .power b e := by
  obtain ⟨hboth, hexponent, hone, hproduct, hpower⟩ := h
  cases hconst : e.const? with
  | none =>
    rcases pow_cases b hconst with ⟨c, hb, hc, _⟩ | ⟨_, hpow⟩
    · rw [hone c hb] at hc
      exact absurd hc Bool.false_ne_true
    · exact hpow
  | some c =>
    obtain rfl := eq_const_of_const?_eq_some hconst
    obtain ⟨hzero', hone'⟩ := hexponent c rfl
    have hb : b.const? = none := hboth.resolve_right (by simp)
    show powConst b c = .power b (.const c)
    exact powConst_eq_power (by simp [hzero']) (by simp [hone']) hb fun hi =>
      ⟨hproduct c rfl hi, hpower c rfl hi⟩

/-- A normal formula is left alone by the substitution that replaces nothing. -/
theorem substitute_eq_self (hlaws : UnitLaws α) {f : Formula α} (h : f.IsNormal) :
    substitute (fun _ => none) f = f := by
  induction f with
  | const c => rfl
  | symbol s => rfl
  | sum ts ih =>
    obtain ⟨hshape, hnormal⟩ := isNormal_sum_iff.mp h
    have hts : ts.map (substitute fun _ => none) = ts :=
      (List.map_congr_left fun t ht => ih t ht (hnormal t ht)).trans (List.map_id ts)
    rw [substitute, substituteEach_eq_map, hts, sumOf_eq_sum hlaws hshape]
  | product fs ih =>
    obtain ⟨hshape, hnormal⟩ := isNormal_product_iff.mp h
    have hfs : fs.map (substitute fun _ => none) = fs :=
      (List.map_congr_left fun f hf => ih f hf (hnormal f hf)).trans (List.map_id fs)
    rw [substitute, substituteEach_eq_map, hfs, productOf_eq_product hlaws hshape]
  | power b e ihb ihe =>
    obtain ⟨hshape, hb, he⟩ := isNormal_power_iff.mp h
    rw [substitute, ihb hb, ihe he, pow_eq_power hshape]
  | exponential x ih =>
    obtain ⟨hconst, hx⟩ := isNormal_exponential_iff.mp h
    rw [substitute, ih hx, exp_of_const?_eq_none hconst]

/-! ## The invariant -/

/-- **Normal forms.**  Every operation on normal formulas has a normal result, substituting normal
formulas brings every formula into normal form, and over scalars with the laws of the two units the
normal formulas are exactly those that simplifying again leaves alone; so simplifying is
idempotent. -/
theorem isNormal_result_and_substituteAll_nil_eq_self_iff :
    (∀ op : Operation α, (∀ f ∈ op.operands, f.IsNormal) → op.result.IsNormal) ∧
      (∀ (f : Formula α) (map : List (String × Formula α)),
        (∀ s g, map.lookup s = some g → g.IsNormal) → (f.substituteAll map).IsNormal) ∧
      (UnitLaws α → ∀ f : Formula α, (f.substituteAll [] = f ↔ f.IsNormal) ∧
        (f.substituteAll []).substituteAll [] = f.substituteAll []) := by
  have hsubst : ∀ (f : Formula α) (map : List (String × Formula α)),
      (∀ s g, map.lookup s = some g → g.IsNormal) → (f.substituteAll map).IsNormal :=
    fun f map hmap => isNormal_substitute hmap f
  have hempty : ∀ f : Formula α, (f.substituteAll []).IsNormal :=
    fun f => hsubst f [] fun s g h => absurd h (by simp)
  refine ⟨Operation.isNormal_result, hsubst, fun hlaws f => ⟨⟨fun h => ?_, fun h => ?_⟩, ?_⟩⟩
  · rw [← h]
    exact hempty f
  · exact substitute_eq_self hlaws h
  · exact substitute_eq_self hlaws (hempty f)

end Shapes

/-- Exact scalars have the laws of the two units. -/
theorem unitLaws_of_exact [ExactScalar α] : UnitLaws α where
  zero_beq_zero := (ExactScalar.beq_iff_eq _ _).mpr rfl
  one_beq_one := (ExactScalar.beq_iff_eq _ _).mpr rfl
  one_beq_zero := Scalar.beq_eq_false_iff_ne.mpr one_ne_zero
  zero_add c _ := zero_add c
  one_mul c := one_mul c

/-- The invariant at the fourth power of a product, at a raw product that loses its shape, and at
a sum that keeps it. -/
theorem isNormal_quarter_power_real :
    (Operation.powInt (product [const (1 / 4), symbol "h"]) 4 : Operation ℝ).result.IsNormal ∧
      ((product [sum [symbol "x"], const 2] : Formula ℝ).substituteAll
        [("x", symbol "y")]).IsNormal ∧
      (sum [symbol "x", const 2] : Formula ℝ).substituteAll [] = sum [symbol "x", const 2] := by
  have hproduct : (product [const (1 / 4), symbol "h"] : Formula ℝ).IsNormal := by
    refine isNormal_product_iff.mpr ⟨⟨le_rfl, ?_, ?_, ?_⟩, ?_⟩
    · simp [IsProduct]
    · simp [const?]
    · intro c hc
      obtain rfl : (1 / 4 : ℝ) = c := by simpa using hc
      exact ⟨Scalar.beq_eq_false_iff_ne.mpr (by norm_num),
        Scalar.beq_eq_false_iff_ne.mpr (by norm_num)⟩
    · simp
  have hsum : (sum [symbol "x", const 2] : Formula ℝ).IsNormal := by
    refine isNormal_sum_iff.mpr ⟨⟨le_rfl, ?_, ?_, ?_⟩, ?_⟩
    · simp [IsSum]
    · simp [const?]
    · intro c hc
      obtain rfl : (2 : ℝ) = c := by simpa using hc
      exact Scalar.beq_eq_false_iff_ne.mpr two_ne_zero
    · simp
  obtain ⟨hop, hsubst, hself⟩ := isNormal_result_and_substituteAll_nil_eq_self_iff (α := ℝ)
  refine ⟨hop _ (List.forall_mem_singleton.mpr hproduct), hsubst _ _ fun s g h => ?_,
    (hself unitLaws_of_exact _).1.mpr hsum⟩
  rw [List.lookup_cons] at h
  split at h
  · obtain rfl := Option.some.inj h
    exact isNormal_symbol "y"
  · exact absurd h (by simp)

end Formula

end SphereLab
