import Mathlib
import SphereLab.Proofs.Formula.CSource
import SphereLab.Proofs.Formula.Simplification

/-!
# Formulas over scalars that round

Scalars that compute with rounding errors stand for exact ones.  A simplified formula has the value
of what it was made from, over the exact scalars, as long as the constants that the simplification
folded were folded without an error.  That there is at most one constant to fold is enough.

* `StandsFor`: scalars that stand for exact ones.
* `hasValue_mapConstants_sumOf`, `hasValue_mapConstants_productOf`: the value of a simplified sum
  or product whose constants are folded without an error.
* `HasValue.exists_of_mem`: all symbols of a formula with a value are bound.
* `substitute_of_not_mem`: replacing symbols that do not occur changes nothing.
* `substitute_productOf`: replacing the symbols of a product before or after its simplification.
* `Plain`: symbols and sums, whose powers are not merged with anything.
-/

namespace SphereLab

namespace Formula

variable {α β : Type}

/-! ## Scalars that stand for exact ones -/

/-- Scalars that stand for exact ones: the units and small integers do so without an error. -/
structure StandsFor [Scalar α] [ExactScalar β] (exact : α → β) : Prop extends UnitLaws α where
  exact_of_beq_zero : ∀ c, (c == 0) = true → exact c = 0
  exact_of_beq_one : ∀ c, (c == 1) = true → exact c = 1
  exact_of_isInteger : ∀ c, Scalar.isInteger c = true → exact c = (Scalar.toInt c : ℤ)
  isInteger_ofInt : ∀ n : ℤ, n.natAbs < 10 ^ 15 →
    Scalar.isInteger (Scalar.ofInt n : α) = true ∧ Scalar.toInt (Scalar.ofInt n : α) = n
  ofInt_one : (Scalar.ofInt 1 : α) = 1
  ofInt_neg_one : (Scalar.ofInt (-1) : α) = -1
  zero_add_zero : (0 : α) + 0 = 0
  neg_one_add_zero : (-1 : α) + 0 = -1
  neg_zero_beq_zero : ((-0 : α) == 0) = true
  exp_zero : (Scalar.exp 0 : α) = 1

namespace StandsFor

variable [Scalar α] [ExactScalar β] {exact : α → β} (h : StandsFor exact)

include h

theorem exact_zero : exact 0 = 0 := h.exact_of_beq_zero 0 h.zero_beq_zero

theorem exact_one : exact 1 = 1 := h.exact_of_beq_one 1 h.one_beq_one

theorem exact_ofInt {n : ℤ} (hn : n.natAbs < 10 ^ 15) : exact (Scalar.ofInt n) = n := by
  obtain ⟨hint, hvalue⟩ := h.isInteger_ofInt n hn
  rw [h.exact_of_isInteger _ hint, hvalue]

theorem ofInt_beq_zero {n : ℤ} (hn : n.natAbs < 10 ^ 15) (hne : n ≠ 0) :
    ¬((Scalar.ofInt n : α) == 0) = true := fun hzero => by
  have hexact := h.exact_of_beq_zero _ hzero
  rw [h.exact_ofInt hn] at hexact
  exact hne (by exact_mod_cast hexact)

theorem ofInt_beq_one {n : ℤ} (hn : n.natAbs < 10 ^ 15) (hne : n ≠ 1) :
    ¬((Scalar.ofInt n : α) == 1) = true := fun hone => by
  have hexact := h.exact_of_beq_one _ hone
  rw [h.exact_ofInt hn] at hexact
  exact hne (by exact_mod_cast hexact)

theorem exact_neg_one : exact (-1) = -1 := by
  rw [← h.ofInt_neg_one, h.exact_ofInt (by decide), Int.cast_neg, Int.cast_one]

theorem neg_one_beq_zero : ((-1 : α) == 0) = false := by
  rw [← Bool.not_eq_true, ← h.ofInt_neg_one]
  exact h.ofInt_beq_zero (by decide) (by decide)

theorem neg_one_beq_one : ((-1 : α) == 1) = false := by
  rw [← Bool.not_eq_true, ← h.ofInt_neg_one]
  exact h.ofInt_beq_one (by decide) (by decide)

end StandsFor

/-! ## Values of simplified formulas -/

section Values

theorem const?_mapConstants (g : α → β) (f : Formula α) :
    (f.mapConstants g).const? = f.const?.map g := by
  cases f <;> rfl

theorem filterMap_const?_mapConstants (g : α → β) (fs : List (Formula α)) :
    (fs.map (mapConstants g)).filterMap const? = (fs.filterMap const?).map g := by
  rw [List.filterMap_map, List.map_filterMap]
  exact List.filterMap_congr fun f _ => const?_mapConstants g f

theorem filter_isNone_mapConstants (g : α → β) (fs : List (Formula α)) :
    (fs.map (mapConstants g)).filter (·.const?.isNone) =
      (fs.filter (·.const?.isNone)).map (mapConstants g) := by
  rw [List.filter_map]
  congr 2
  funext f
  simp [const?_mapConstants]

theorem flatMap_terms_mapConstants (g : α → β) (fs : List (Formula α)) :
    (fs.map (mapConstants g)).flatMap terms = (fs.flatMap terms).map (mapConstants g) := by
  rw [List.flatMap_map, List.map_flatMap]
  refine List.flatMap_congr fun f _ => ?_
  cases f with
  | sum ts => rw [mapConstants, mapConstantsEach_eq_map, terms, terms]
  | const c | symbol c | product c | power c d | exponential c => rfl

theorem flatMap_factors_mapConstants (g : α → β) (fs : List (Formula α)) :
    (fs.map (mapConstants g)).flatMap factors = (fs.flatMap factors).map (mapConstants g) := by
  rw [List.flatMap_map, List.map_flatMap]
  refine List.flatMap_congr fun f _ => ?_
  cases f with
  | product fs => rw [mapConstants, mapConstantsEach_eq_map, factors, factors]
  | const c | symbol c | sum c | power c d | exponential c => rfl

variable [Scalar α] [ExactScalar β] {exact : α → β} {D : PowerDomain β} {env : String → Option β}

theorem mapConstants_ofTerms (h : StandsFor exact) (ts : List (Formula α)) :
    (ofTerms ts).mapConstants exact = ofTerms (ts.map (mapConstants exact)) := by
  match ts with
  | [] =>
    rw [ofTerms, mapConstants, h.exact_zero]
    rfl
  | [t] => rfl
  | t :: u :: ts =>
    rw [ofTerms_of_two_le (by simp), mapConstants, mapConstantsEach_eq_map,
      ofTerms_of_two_le (by simp)]

theorem mapConstants_ofFactors (h : StandsFor exact) (fs : List (Formula α)) :
    (ofFactors fs).mapConstants exact = ofFactors (fs.map (mapConstants exact)) := by
  match fs with
  | [] =>
    rw [ofFactors, mapConstants, h.exact_one]
    rfl
  | [f] => rfl
  | f :: g :: fs =>
    rw [ofFactors_of_two_le (by simp), mapConstants, mapConstantsEach_eq_map,
      ofFactors_of_two_le (by simp)]

/-- The simplified sum has the value of the sum, if its constants are added without an error. -/
theorem hasValue_mapConstants_sumOf (h : StandsFor exact) {fs : List (Formula α)} {vs : List β}
    (hfold : exact (((fs.flatMap terms).filterMap const?).foldl (· + ·) 0) =
      (((fs.flatMap terms).filterMap const?).map exact).sum)
    (hfs : HaveValues D env (fs.map (mapConstants exact)) vs) :
    ((sumOf fs).mapConstants exact).HasValue D env vs.sum := by
  obtain ⟨us, hus, hsum⟩ := exists_haveValues_flatMap_terms hfs
  rw [flatMap_terms_mapConstants] at hus
  obtain ⟨ws, hws, hperm⟩ := exists_perm_of_haveValues hus
  rw [filter_isNone_mapConstants] at hws
  rw [← hsum, hperm.sum_eq, List.sum_append, filterMap_const?_mapConstants, ← hfold, sumOf]
  split
  · rename_i hzero
    rw [h.exact_of_beq_zero _ hzero, zero_add, mapConstants_ofTerms h]
    exact hasValue_ofTerms hws
  · rw [mapConstants_ofTerms h, List.map_append, add_comm, ← List.sum_singleton (x := exact _),
      ← List.sum_append]
    exact hasValue_ofTerms (List.rel_append hws (.cons (hasValue_const _) .nil))

/-- The simplified product has the value of the product, if its constants are multiplied without an
error. -/
theorem hasValue_mapConstants_productOf (h : StandsFor exact) {fs : List (Formula α)} {vs : List β}
    (hfold : exact (((fs.flatMap factors).filterMap const?).foldl (· * ·) 1) =
      (((fs.flatMap factors).filterMap const?).map exact).prod)
    (hfs : HaveValues D env (fs.map (mapConstants exact)) vs) :
    ((productOf fs).mapConstants exact).HasValue D env vs.prod := by
  obtain ⟨us, hus, hprod⟩ := exists_haveValues_flatMap_factors hfs
  rw [flatMap_factors_mapConstants] at hus
  obtain ⟨ws, hws, hperm⟩ := exists_perm_of_haveValues hus
  rw [filter_isNone_mapConstants] at hws
  rw [← hprod, hperm.prod_eq, List.prod_append, filterMap_const?_mapConstants, ← hfold, productOf]
  split
  · rename_i hzero
    rw [h.exact_of_beq_zero _ hzero, zero_mul, mapConstants, h.exact_zero]
    exact hasValue_const 0
  · split
    · rename_i hone
      rw [h.exact_of_beq_one _ hone, one_mul, mapConstants_ofFactors h]
      exact hasValue_ofFactors hws
    · rw [mapConstants_ofFactors h, List.map_cons, ← List.prod_cons]
      exact hasValue_ofFactors (.cons (hasValue_const _) hws)

end Values

/-! ## Symbols -/

section Symbols

/-- A member of the first list is related to one of the second. -/
theorem exists_of_mem_forall₂ {r : α → β → Prop} {xs : List α} {ys : List β}
    (h : List.Forall₂ r xs ys) {x : α} (hx : x ∈ xs) : ∃ y ∈ ys, r x y := by
  induction h with
  | nil => exact absurd hx List.not_mem_nil
  | @cons a b xs ys hab _ ih =>
    rcases List.mem_cons.mp hx with rfl | hx
    · exact ⟨b, List.mem_cons_self, hab⟩
    · obtain ⟨y, hy, hxy⟩ := ih hx
      exact ⟨y, List.mem_cons_of_mem b hy, hxy⟩

variable [ExactScalar α] {D : PowerDomain α} {env : String → Option α}

theorem HaveValues.exists_of_mem {fs : List (Formula α)} {vs : List α}
    (h : HaveValues D env fs vs) {f : Formula α} (hf : f ∈ fs) : ∃ v, f.HasValue D env v := by
  obtain ⟨v, -, hv⟩ := exists_of_mem_forall₂ h hf
  exact ⟨v, hv⟩

/-- All symbols of a formula with a value are bound. -/
theorem HasValue.exists_of_mem {f : Formula α} {v : α} (h : f.HasValue D env v) :
    ∀ s ∈ f.occurrences, ∃ w, env s = some w := by
  induction f generalizing v with
  | const c => exact fun s hs => absurd hs List.not_mem_nil
  | symbol t =>
    intro s hs
    obtain rfl := List.mem_singleton.mp hs
    exact ⟨v, hasValue_symbol_iff.mp h⟩
  | sum ts ih =>
    obtain ⟨vs, hvs, -⟩ := hasValue_sum_iff.mp h
    rw [occurrences, occurrencesEach_eq_flatMap, List.forall_mem_flatMap]
    intro t ht
    obtain ⟨w, hw⟩ := HaveValues.exists_of_mem hvs ht
    exact ih t ht hw
  | product fs ih =>
    obtain ⟨vs, hvs, -⟩ := hasValue_product_iff.mp h
    rw [occurrences, occurrencesEach_eq_flatMap, List.forall_mem_flatMap]
    intro f hf
    obtain ⟨w, hw⟩ := HaveValues.exists_of_mem hvs hf
    exact ih f hf hw
  | power b e ihb ihe =>
    obtain ⟨x, y, hx, hy, -⟩ := hasValue_power_iff.mp h
    rw [occurrences, List.forall_mem_append]
    exact ⟨ihb hx, ihe hy⟩
  | exponential x ih =>
    obtain ⟨y, hy, -⟩ := hasValue_exponential_iff.mp h
    exact ih hy

end Symbols

theorem mapConstants_occurrences (g : α → β) (f : Formula α) :
    (f.mapConstants g).occurrences = f.occurrences := by
  induction f with
  | const c => rfl
  | symbol s => rfl
  | sum ts ih =>
    rw [mapConstants, mapConstantsEach_eq_map, occurrences, occurrences,
      occurrencesEach_eq_flatMap, occurrencesEach_eq_flatMap, List.flatMap_map]
    exact List.flatMap_congr ih
  | product fs ih =>
    rw [mapConstants, mapConstantsEach_eq_map, occurrences, occurrences,
      occurrencesEach_eq_flatMap, occurrencesEach_eq_flatMap, List.flatMap_map]
    exact List.flatMap_congr ih
  | power b e ihb ihe => rw [mapConstants, occurrences, occurrences, ihb, ihe]
  | exponential x ih => rw [mapConstants, occurrences, occurrences, ih]

/-! ## Replacing symbols -/

section Substitution

variable [Scalar α] {σ σ' : String → Option (Formula α)}

/-- What is put in matters at the symbols of the formula only. -/
theorem substitute_congr {f : Formula α} (h : ∀ s ∈ f.occurrences, σ s = σ' s) :
    substitute σ f = substitute σ' f := by
  induction f with
  | const c => rfl
  | symbol s => rw [substitute, substitute, h s (List.mem_singleton_self s)]
  | sum ts ih =>
    rw [occurrences, occurrencesEach_eq_flatMap, List.forall_mem_flatMap] at h
    rw [substitute, substitute, substituteEach_eq_map, substituteEach_eq_map,
      List.map_congr_left fun t ht => ih t ht (h t ht)]
  | product fs ih =>
    rw [occurrences, occurrencesEach_eq_flatMap, List.forall_mem_flatMap] at h
    rw [substitute, substitute, substituteEach_eq_map, substituteEach_eq_map,
      List.map_congr_left fun f hf => ih f hf (h f hf)]
  | power b e ihb ihe =>
    rw [occurrences, List.forall_mem_append] at h
    rw [substitute, substitute, ihb h.1, ihe h.2]
  | exponential x ih => rw [substitute, substitute, ih h]

/-- Replacing symbols that do not occur leaves a normal formula alone. -/
theorem substitute_of_not_mem (hlaws : UnitLaws α) {f : Formula α} (hnormal : f.IsNormal)
    (h : ∀ s ∈ f.occurrences, σ s = none) : substitute σ f = f :=
  (substitute_congr h).trans (substitute_eq_self hlaws hnormal)

theorem substitute_ofFactors (hlaws : UnitLaws α) {fs : List (Formula α)}
    (h : 2 ≤ fs.length → ProductShape (fs.map (substitute σ))) :
    substitute σ (ofFactors fs) = ofFactors (fs.map (substitute σ)) := by
  match fs with
  | [] | [f] => rfl
  | f :: g :: fs =>
    have hlength : 2 ≤ (f :: g :: fs).length := by simp
    rw [ofFactors_of_two_le hlength, substitute, substituteEach_eq_map,
      productOf_eq_product hlaws (h hlength), ofFactors_of_two_le (by simp)]

/-- Replacing symbols in a simplified product gives the simplified product of its factors with the
symbols replaced, if what stands in the place of a factor is neither a constant nor a product. -/
theorem substitute_productOf (hlaws : UnitLaws α) {fs : List (Formula α)}
    (h : ∀ f ∈ fs.flatMap factors, f.const? = none →
      (substitute σ f).const? = none ∧ ¬(substitute σ f).IsProduct) :
    substitute σ (productOf fs) = productOf ((fs.flatMap factors).map (substitute σ)) := by
  generalize hspliced : fs.flatMap factors = gs at h
  have hconst : ∀ g ∈ gs, (substitute σ g).const? = g.const? := fun g hg => by
    cases hg' : g.const? with
    | none => exact (h g hg hg').1
    | some c =>
      rw [eq_const_of_const?_eq_some hg']
      rfl
  have hproduct : ∀ g ∈ gs.map (substitute σ), ¬g.IsProduct := by
    refine List.forall_mem_map.mpr fun g hg => ?_
    cases hg' : g.const? with
    | none => exact (h g hg hg').2
    | some c =>
      rw [eq_const_of_const?_eq_some hg']
      exact id
  have hconsts : (gs.map (substitute σ)).filterMap const? = gs.filterMap const? := by
    rw [List.filterMap_map]
    exact List.filterMap_congr hconst
  have hrest : (gs.map (substitute σ)).filter (·.const?.isNone) =
      (gs.filter (·.const?.isNone)).map (substitute σ) := by
    rw [List.filter_map]
    congr 1
    refine List.filter_congr fun g hg => ?_
    rw [Function.comp_apply, hconst g hg]
  have hrestConst : ∀ g ∈ (gs.filter (·.const?.isNone)).map (substitute σ),
      g.const? = none ∧ ¬g.IsProduct := by
    refine List.forall_mem_map.mpr fun g hg => ?_
    obtain ⟨hmem, hnone⟩ := List.mem_filter.mp hg
    exact h g hmem (Option.isNone_iff_eq_none.mp hnone)
  rw [productOf, productOf, hspliced, flatMap_factors_eq_self hproduct, hconsts, hrest]
  generalize (gs.filterMap const?).foldl (· * ·) 1 = c
  generalize gs.filter (·.const?.isNone) = rest at hrestConst
  split
  · rfl
  · rename_i hzero
    split
    · refine substitute_ofFactors hlaws fun hlength => ⟨by rwa [List.length_map],
        fun g hg => (hrestConst g hg).2, fun g hg => (hrestConst g (List.mem_of_mem_tail hg)).1,
        fun d hd => ?_⟩
      have hnone := (hrestConst _ (List.mem_of_mem_head? hd)).1
      exact absurd hnone (by simp [const?])
    · rename_i hone
      rw [substitute_ofFactors hlaws fun hlength => ?_]
      · rfl
      refine ⟨by rwa [List.length_map], ?_, fun g hg => (hrestConst g hg).1, fun d hd => ?_⟩
      · exact List.forall_mem_cons.mpr ⟨id, fun g hg => (hrestConst g hg).2⟩
      · obtain rfl := Formula.const.inj (Option.some.inj hd)
        exact ⟨Bool.not_eq_true _ ▸ hzero, Bool.not_eq_true _ ▸ hone⟩

end Substitution

/-! ## Powers of what is no power -/

section Powers

variable [Scalar α] [ExactScalar β] {exact : α → β} {D : PowerDomain β} {env : String → Option β}

/-- A symbol or a sum: powers of it are not merged with anything. -/
inductive Plain : Formula α → Prop where
  | symbol (s : String) : Plain (.symbol s)
  | sum (ts : List (Formula α)) : Plain (.sum ts)

namespace Plain

variable {f : Formula α} (h : Plain f)

include h

omit [Scalar α] in
theorem const?_eq_none : f.const? = none := by cases h <;> rfl

theorem unmerged : f.Unmerged := by
  cases h <;> exact ⟨id, fun _ _ h => nomatch h⟩

theorem not_isProduct : ¬f.IsProduct := h.unmerged.not_isProduct

end Plain

theorem powInt_one (hexact : StandsFor exact) (f : Formula α) : f.powInt 1 = f := by
  rw [powInt, hexact.ofInt_one]
  exact powConst_eq_self (by rw [hexact.one_beq_zero]; exact Bool.false_ne_true) hexact.one_beq_one

theorem Plain.powInt_eq (hexact : StandsFor exact) {f : Formula α} (h : Plain f) {n : ℕ}
    (hn : 2 ≤ n) (hsmall : n < 10 ^ 15) : f.powInt n = .power f (.const (Scalar.ofInt n)) :=
  powConst_eq_power (hexact.ofInt_beq_zero (by omega) (by omega))
    (hexact.ofInt_beq_one (by omega) (by omega)) h.const?_eq_none fun _ => h.unmerged

/-- A power is neither a constant nor a product. -/
theorem Plain.powInt_factor (hexact : StandsFor exact) {f : Formula α} (h : Plain f) {n : ℕ}
    (hn : 1 ≤ n) (hsmall : n < 10 ^ 15) : (f.powInt n).const? = none ∧ ¬(f.powInt n).IsProduct := by
  rcases hn.eq_or_lt with rfl | hn
  · rw [Nat.cast_one, powInt_one hexact]
    exact ⟨h.const?_eq_none, h.not_isProduct⟩
  · rw [h.powInt_eq hexact hn hsmall]
    exact ⟨rfl, id⟩

theorem Plain.hasValue_powInt (hexact : StandsFor exact) {f : Formula α} (h : Plain f) {n : ℕ}
    (hn : 1 ≤ n) (hsmall : n < 10 ^ 15) {x : β} (hx : (f.mapConstants exact).HasValue D env x) :
    ((f.powInt n).mapConstants exact).HasValue D env (x ^ n) := by
  rcases hn.eq_or_lt with rfl | hn
  · rwa [Nat.cast_one, powInt_one hexact, pow_one]
  · have hnonneg : x ≠ 0 ∨ (0 : ℤ) ≤ n := Or.inr (Int.natCast_nonneg n)
    rw [h.powInt_eq hexact hn hsmall, mapConstants, mapConstants,
      hexact.exact_ofInt (by omega), Int.cast_natCast]
    refine hasValue_power_iff.mpr ⟨x, n, hx, hasValue_const _, ?_, ?_⟩
    · exact_mod_cast (D.holds_intCast x n).mpr hnonneg
    · have hpower := Scalar.power_intCast hnonneg
      rwa [Int.cast_natCast, zpow_natCast] at hpower

/-- Replacing symbols in a power of a symbol gives the power of what is put in. -/
theorem substitute_powInt_symbol (hexact : StandsFor exact) (σ : String → Option (Formula α))
    (s : String) {n : ℕ} (hn : 1 ≤ n) (hsmall : n < 10 ^ 15) :
    substitute σ ((symbol s : Formula α).powInt n) = ((σ s).getD (.symbol s)).powInt n := by
  rcases hn.eq_or_lt with rfl | hn
  · rw [Nat.cast_one, powInt_one hexact, powInt_one hexact]
    rfl
  · rw [(Plain.symbol s).powInt_eq hexact hn hsmall]
    rfl

end Powers

end Formula

end SphereLab
