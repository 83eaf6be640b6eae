import Mathlib
import SphereLab.Proofs.Formula.Rules

/-!
# Symbols of formulas

The symbols of a formula are the names that occur in it.  Simplification brings in no symbol: an
operation only has symbols of what it is applied to, and a formula in which symbols are replaced
only has symbols of what stands in their places.  Symbols can vanish, where a factor folds to zero
or an exponent does.

* `mem_symbols_iff`: the symbols are the names that occur.
* `exists_of_mem_occurrences_substitute`: the symbols of a formula in which symbols are replaced.
-/

namespace SphereLab

namespace Formula

variable {α : Type} {s : String}

/-! ## The sorted list of symbols -/

theorem mem_insertName {name : String} {names : List String} :
    s ∈ insertName name names ↔ s = name ∨ s ∈ names := by
  induction names with
  | nil => rw [insertName, List.mem_singleton, or_iff_left List.not_mem_nil]
  | cons t names ih =>
    rw [insertName]
    split
    · exact List.mem_cons
    · split
      · rename_i heq
        rw [heq, List.mem_cons, or_self_left]
      · rw [List.mem_cons, ih, List.mem_cons]
        exact or_left_comm

/-- The symbols of a formula are the names that occur in it. -/
theorem mem_symbols_iff {f : Formula α} : s ∈ f.symbols ↔ s ∈ f.occurrences := by
  rw [symbols]
  induction f.occurrences with
  | nil => exact Iff.rfl
  | cons t names ih => rw [List.foldr_cons, mem_insertName, ih, List.mem_cons]

theorem occurrencesEach_eq_flatMap (fs : List (Formula α)) :
    occurrencesEach fs = fs.flatMap occurrences := by
  induction fs with
  | nil => rfl
  | cons f fs ih => exact congrArg (f.occurrences ++ ·) ih

theorem mem_occurrences_sum {ts : List (Formula α)} :
    s ∈ (sum ts).occurrences ↔ ∃ t ∈ ts, s ∈ t.occurrences := by
  change s ∈ occurrencesEach ts ↔ _
  rw [occurrencesEach_eq_flatMap, List.mem_flatMap]

theorem mem_occurrences_product {fs : List (Formula α)} :
    s ∈ (product fs).occurrences ↔ ∃ f ∈ fs, s ∈ f.occurrences := by
  change s ∈ occurrencesEach fs ↔ _
  rw [occurrencesEach_eq_flatMap, List.mem_flatMap]

theorem mem_occurrences_power {b e : Formula α} :
    s ∈ (power b e).occurrences ↔ s ∈ b.occurrences ∨ s ∈ e.occurrences :=
  List.mem_append

/-! ## Symbols of simplified formulas -/

section Operations

theorem exists_of_mem_occurrences_terms {fs : List (Formula α)}
    (h : ∃ t ∈ fs.flatMap terms, s ∈ t.occurrences) : ∃ f ∈ fs, s ∈ f.occurrences := by
  obtain ⟨t, ht, hs⟩ := h
  obtain ⟨f, hf, htf⟩ := List.mem_flatMap.mp ht
  refine ⟨f, hf, ?_⟩
  cases f with
  | sum ts => exact mem_occurrences_sum.mpr ⟨t, htf, hs⟩
  | const c | symbol c | product c | power c d | exponential c =>
    obtain rfl := List.mem_singleton.mp htf
    exact hs

theorem exists_of_mem_occurrences_factors {fs : List (Formula α)}
    (h : ∃ g ∈ fs.flatMap factors, s ∈ g.occurrences) : ∃ f ∈ fs, s ∈ f.occurrences := by
  obtain ⟨g, hg, hs⟩ := h
  obtain ⟨f, hf, hgf⟩ := List.mem_flatMap.mp hg
  refine ⟨f, hf, ?_⟩
  cases f with
  | product gs => exact mem_occurrences_product.mpr ⟨g, hgf, hs⟩
  | const c | symbol c | sum c | power c d | exponential c =>
    obtain rfl := List.mem_singleton.mp hgf
    exact hs

variable [Scalar α]

theorem exists_of_mem_occurrences_ofTerms {ts : List (Formula α)}
    (h : s ∈ (ofTerms ts).occurrences) : ∃ t ∈ ts, s ∈ t.occurrences := by
  match ts with
  | [] => exact absurd h List.not_mem_nil
  | [t] => exact ⟨t, List.mem_singleton_self t, h⟩
  | t :: u :: ts => exact mem_occurrences_sum.mp h

theorem exists_of_mem_occurrences_ofFactors {fs : List (Formula α)}
    (h : s ∈ (ofFactors fs).occurrences) : ∃ f ∈ fs, s ∈ f.occurrences := by
  match fs with
  | [] => exact absurd h List.not_mem_nil
  | [f] => exact ⟨f, List.mem_singleton_self f, h⟩
  | f :: g :: fs => exact mem_occurrences_product.mp h

/-- A simplified sum only has symbols of its terms. -/
theorem exists_of_mem_occurrences_sumOf {fs : List (Formula α)}
    (h : s ∈ (sumOf fs).occurrences) : ∃ f ∈ fs, s ∈ f.occurrences := by
  rw [sumOf] at h
  obtain ⟨t, ht, hs⟩ := exists_of_mem_occurrences_ofTerms h
  refine exists_of_mem_occurrences_terms ⟨t, ?_, hs⟩
  split at ht
  · exact List.mem_of_mem_filter ht
  · rcases List.mem_append.mp ht with ht | ht
    · exact List.mem_of_mem_filter ht
    · -- the constant behind the terms has no symbols
      obtain rfl := List.mem_singleton.mp ht
      exact absurd hs List.not_mem_nil

/-- A simplified product only has symbols of its factors. -/
theorem exists_of_mem_occurrences_productOf {fs : List (Formula α)}
    (h : s ∈ (productOf fs).occurrences) : ∃ f ∈ fs, s ∈ f.occurrences := by
  rw [productOf] at h
  split at h
  · exact absurd h List.not_mem_nil
  · obtain ⟨g, hg, hs⟩ := exists_of_mem_occurrences_ofFactors h
    refine exists_of_mem_occurrences_factors ⟨g, ?_, hs⟩
    split at hg
    · exact List.mem_of_mem_filter hg
    · rcases List.mem_cons.mp hg with rfl | hg
      · exact absurd hs List.not_mem_nil
      · exact List.mem_of_mem_filter hg

/-- A power at a constant exponent only has symbols of its base. -/
theorem mem_occurrences_of_powConst {f : Formula α} {e : α} :
    s ∈ (powConst f e).occurrences → s ∈ f.occurrences := by
  induction f, e using powConst_induction with
  | zero f e _ => exact fun h => absurd h List.not_mem_nil
  | one f e _ _ => exact id
  | const b e _ _ => exact id
  | product fs e _ _ _ ih =>
    intro h
    obtain ⟨g, hg, hs⟩ := exists_of_mem_occurrences_productOf h
    obtain ⟨f, hf, rfl⟩ := List.mem_map.mp hg
    exact mem_occurrences_product.mpr ⟨f, hf, ih f hf hs⟩
  | power b i e _ _ _ _ ih => exact fun h => mem_occurrences_power.mpr (Or.inl (ih h))
  | other f e _ _ _ _ =>
    exact fun h => (mem_occurrences_power.mp h).elim id fun he => absurd he List.not_mem_nil

/-- A simplified power only has symbols of its base and its exponent. -/
theorem mem_occurrences_of_pow {b e : Formula α} (h : s ∈ (pow b e).occurrences) :
    s ∈ b.occurrences ∨ s ∈ e.occurrences := by
  cases hconst : e.const? with
  | some c =>
    rw [eq_const_of_const?_eq_some hconst] at h
    exact Or.inl (mem_occurrences_of_powConst h)
  | none =>
    rcases pow_cases b hconst with ⟨c, -, -, hpow⟩ | ⟨-, hpow⟩
    · rw [hpow] at h
      exact absurd h List.not_mem_nil
    · rw [hpow] at h
      exact mem_occurrences_power.mp h

theorem mem_occurrences_of_exp {f : Formula α} (h : s ∈ (exp f).occurrences) :
    s ∈ f.occurrences := by
  cases f with
  | const c => exact h
  | symbol c | sum c | product c | power c d | exponential c => exact h

/-! ## Symbols behind a substitution -/

/-- A formula in which symbols are replaced only has symbols of what stands in their places. -/
theorem exists_of_mem_occurrences_substitute {σ : String → Option (Formula α)} {f : Formula α}
    (h : s ∈ (substitute σ f).occurrences) :
    ∃ t ∈ f.occurrences, s ∈ ((σ t).getD (.symbol t)).occurrences := by
  induction f with
  | const c => exact absurd h List.not_mem_nil
  | symbol t => exact ⟨t, List.mem_singleton_self t, h⟩
  | sum ts ih =>
    rw [substitute, substituteEach_eq_map] at h
    obtain ⟨g, hg, hs⟩ := exists_of_mem_occurrences_sumOf h
    obtain ⟨t, ht, rfl⟩ := List.mem_map.mp hg
    obtain ⟨u, hu, hs⟩ := ih t ht hs
    exact ⟨u, mem_occurrences_sum.mpr ⟨t, ht, hu⟩, hs⟩
  | product fs ih =>
    rw [substitute, substituteEach_eq_map] at h
    obtain ⟨g, hg, hs⟩ := exists_of_mem_occurrences_productOf h
    obtain ⟨f, hf, rfl⟩ := List.mem_map.mp hg
    obtain ⟨u, hu, hs⟩ := ih f hf hs
    exact ⟨u, mem_occurrences_product.mpr ⟨f, hf, hu⟩, hs⟩
  | power b e ihb ihe =>
    rw [substitute] at h
    rcases mem_occurrences_of_pow h with hb | he
    · obtain ⟨u, hu, hs⟩ := ihb hb
      exact ⟨u, mem_occurrences_power.mpr (Or.inl hu), hs⟩
    · obtain ⟨u, hu, hs⟩ := ihe he
      exact ⟨u, mem_occurrences_power.mpr (Or.inr hu), hs⟩
  | exponential x ih => exact ih (mem_occurrences_of_exp h)

end Operations

end Formula

end SphereLab
