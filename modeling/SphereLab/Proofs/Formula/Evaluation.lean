import Mathlib
import SphereLab.Formula.Eval
import SphereLab.Proofs.Formula.Compilation
import SphereLab.Proofs.Formula.Operation
import SphereLab.Proofs.Formula.Symbols

/-!
# Formulas and their symbols

The symbols of a formula are what its evaluation depends on.  A formula has a value in just the
environments that bind all of them, the first one without a value is the one that the failure
names, and bindings of other symbols do not matter.  That holds of raw formulas as well, in which a
factor may be zero or an exponent may be: nothing is skipped.

Simplification may drop symbols, and neither an operation nor a substitution brings any in.

* `eval_eq_error_iff`: the first symbol without a value ends an evaluation.
* `eval_congr`: environments that agree on the symbols give the same result.
* `Operation.exists_of_mem_occurrences_result`: the symbols of what an operation builds.
* `evaluation_and_substitution_by_symbols`: both together.
-/

namespace SphereLab

namespace Formula

variable {α : Type} [Scalar α] {env : String → Option α}

/-! ## Evaluation -/

theorem Unbound.eq_iff {u w : Unbound} : u = w ↔ u.name = w.name := by
  cases u
  cases w
  simp

/-- The evaluation of a formula ends at a symbol just if this is the first one without a value. -/
def EndsAtFirstUnbound (env : String → Option α) (f : Formula α) : Prop :=
  ∀ u, f.eval env = .error u ↔ f.occurrences.find? (fun s => (env s).isNone) = some u.name

/-- What goes before an evaluation has to succeed for it to be begun. -/
theorem EndsAtFirstUnbound.find?_eq_none {f : Formula α} {v : α}
    (h : EndsAtFirstUnbound env f) (hv : f.eval env = .ok v) :
    f.occurrences.find? (fun s => (env s).isNone) = none := by
  cases hfind : f.occurrences.find? (fun s => (env s).isNone) with
  | none => rfl
  | some s =>
    have herror := (h ⟨s⟩).mpr hfind
    rw [hv] at herror
    exact absurd herror (by simp)

theorem evalEach_eq_error_iff {fs : List (Formula α)}
    (h : ∀ f ∈ fs, EndsAtFirstUnbound env f) (u : Unbound) :
    evalEach env fs = .error u ↔
      (occurrencesEach fs).find? (fun s => (env s).isNone) = some u.name := by
  induction fs with
  | nil => simp [evalEach, occurrencesEach]
  | cons f fs ih =>
    have hf := h f List.mem_cons_self
    rw [evalEach, occurrencesEach, List.find?_append]
    cases hv : f.eval env with
    | error w =>
      rw [(hf w).mp hv, Option.some_or]
      simp [Unbound.eq_iff]
    | ok v =>
      rw [hf.find?_eq_none hv, Option.none_or, map_eq_error_iff]
      exact ih fun g hg => h g (List.mem_cons_of_mem f hg)

/-- The first symbol without a value ends an evaluation. -/
theorem eval_eq_error_iff (f : Formula α) : EndsAtFirstUnbound env f := by
  induction f with
  | const c => exact fun u => by simp [eval, occurrences]
  | symbol s =>
    intro u
    rw [eval, occurrences]
    cases hs : env s with
    | none => simp [hs, Unbound.eq_iff]
    | some v => simp [hs]
  | sum ts ih =>
    intro u
    rw [eval, map_eq_error_iff]
    exact evalEach_eq_error_iff ih u
  | product fs ih =>
    intro u
    rw [eval, map_eq_error_iff]
    exact evalEach_eq_error_iff ih u
  | power b e ihb ihe =>
    intro u
    rw [eval, occurrences, List.find?_append]
    cases hv : b.eval env with
    | error w =>
      rw [(ihb w).mp hv, Option.some_or]
      simp [Unbound.eq_iff]
    | ok v =>
      rw [ihb.find?_eq_none hv, Option.none_or, map_eq_error_iff]
      exact ihe u
  | exponential x ih =>
    intro u
    rw [eval, map_eq_error_iff]
    exact ih u

/-- A formula has a value in just the environments that bind all its symbols. -/
theorem exists_eval_eq_ok_iff {f : Formula α} :
    (∃ v, f.eval env = .ok v) ↔ ∀ s ∈ f.occurrences, ∃ v, env s = some v := by
  constructor
  · rintro ⟨v, hv⟩ s hs
    have hbound := List.find?_eq_none.mp ((eval_eq_error_iff f).find?_eq_none hv) s hs
    exact Option.ne_none_iff_exists'.mp (by simpa using hbound)
  · intro h
    cases hv : f.eval env with
    | ok v => exact ⟨v, rfl⟩
    | error u =>
      have hfind := (eval_eq_error_iff f u).mp hv
      obtain ⟨w, hw⟩ := h u.name (List.mem_of_find?_eq_some hfind)
      have hnone := List.find?_some hfind
      rw [hw] at hnone
      exact absurd hnone (by simp)

theorem evalEach_congr {env' : String → Option α} {fs : List (Formula α)}
    (h : ∀ f ∈ fs, f.eval env = f.eval env') : evalEach env fs = evalEach env' fs := by
  induction fs with
  | nil => rfl
  | cons f fs ih =>
    rw [evalEach, evalEach, h f List.mem_cons_self,
      ih fun g hg => h g (List.mem_cons_of_mem f hg)]

/-- Environments that agree on the symbols of a formula give the same result. -/
theorem eval_congr {env' : String → Option α} {f : Formula α}
    (h : ∀ s ∈ f.occurrences, env s = env' s) : f.eval env = f.eval env' := by
  induction f with
  | const c => rw [eval, eval]
  | symbol s => rw [eval, eval, h s (List.mem_singleton_self s)]
  | sum ts ih =>
    rw [eval, eval]
    refine congrArg _ (evalEach_congr fun t ht => ih t ht fun s hs => ?_)
    exact h s (mem_occurrences_sum.mpr ⟨t, ht, hs⟩)
  | product fs ih =>
    rw [eval, eval]
    refine congrArg _ (evalEach_congr fun f hf => ih f hf fun s hs => ?_)
    exact h s (mem_occurrences_product.mpr ⟨f, hf, hs⟩)
  | power b e ihb ihe =>
    rw [eval, eval, ihb fun s hs => h s (mem_occurrences_power.mpr (Or.inl hs)),
      ihe fun s hs => h s (mem_occurrences_power.mpr (Or.inr hs))]
  | exponential x ih => rw [eval, eval, ih h]

/-! ## Operations -/

variable {s : String}

omit [Scalar α] in
theorem not_mem_occurrences_const {c : α} : s ∉ (const c).occurrences := List.not_mem_nil

/-- A simplified sum of two formulas only has symbols of the two. -/
theorem mem_occurrences_of_sumOf_pair {f g : Formula α} (h : s ∈ (sumOf [f, g]).occurrences) :
    s ∈ f.occurrences ∨ s ∈ g.occurrences := by
  simpa using exists_of_mem_occurrences_sumOf h

/-- A simplified product of two formulas only has symbols of the two. -/
theorem mem_occurrences_of_productOf_pair {f g : Formula α}
    (h : s ∈ (productOf [f, g]).occurrences) : s ∈ f.occurrences ∨ s ∈ g.occurrences := by
  simpa using exists_of_mem_occurrences_productOf h

theorem mem_occurrences_of_scale {f : Formula α} {c : α} (h : s ∈ (scale c f).occurrences) :
    s ∈ f.occurrences :=
  (mem_occurrences_of_productOf_pair h).resolve_left not_mem_occurrences_const

/-- What an operation builds only has symbols of what the operation is applied to. -/
theorem Operation.exists_of_mem_occurrences_result {op : Operation α}
    (h : s ∈ op.result.occurrences) : ∃ g ∈ op.operands, s ∈ g.occurrences := by
  cases op with
  | sum fs => exact exists_of_mem_occurrences_sumOf h
  | product fs => exact exists_of_mem_occurrences_productOf h
  | add f g => simpa [operands] using mem_occurrences_of_sumOf_pair h
  | mul f g => simpa [operands] using mem_occurrences_of_productOf_pair h
  | addConst f c =>
    have hf := (mem_occurrences_of_sumOf_pair h).resolve_right not_mem_occurrences_const
    exact ⟨f, List.mem_singleton_self f, hf⟩
  | constAdd c f =>
    have hf := (mem_occurrences_of_sumOf_pair h).resolve_left not_mem_occurrences_const
    exact ⟨f, List.mem_singleton_self f, hf⟩
  | subConst f c =>
    have hf := (mem_occurrences_of_sumOf_pair h).resolve_right not_mem_occurrences_const
    exact ⟨f, List.mem_singleton_self f, hf⟩
  | sub f g =>
    have hfg := (mem_occurrences_of_sumOf_pair h).imp_right mem_occurrences_of_scale
    simpa [operands] using hfg
  | div f g =>
    have hfg := (mem_occurrences_of_productOf_pair h).imp_right mem_occurrences_of_powConst
    simpa [operands] using hfg
  | pow f g => simpa [operands] using mem_occurrences_of_pow h
  | scale c f => exact ⟨f, List.mem_singleton_self f, mem_occurrences_of_scale h⟩
  | divConst f c => exact ⟨f, List.mem_singleton_self f, mem_occurrences_of_scale h⟩
  | neg f => exact ⟨f, List.mem_singleton_self f, mem_occurrences_of_scale h⟩
  | recip f | powConst f c | powInt f n =>
    exact ⟨f, List.mem_singleton_self f, mem_occurrences_of_powConst h⟩
  | exp f => exact ⟨f, List.mem_singleton_self f, mem_occurrences_of_exp h⟩

/-! ## Substitution -/

omit [Scalar α] in
/-- The names that a map gives no formula are those that are not among its keys. -/
theorem lookup_eq_none_iff_not_mem {map : List (String × Formula α)} :
    map.lookup s = none ↔ s ∉ map.map Prod.fst := by
  rw [List.lookup_eq_none_iff, List.mem_map]
  constructor
  · rintro h ⟨p, hp, rfl⟩
    exact absurd (h p hp) (by simp)
  · intro h p hp
    exact bne_iff_ne.mpr fun heq => h ⟨p, hp, heq.symm⟩

/-- A formula in which a map replaces symbols has symbols of its own that are no keys, and symbols
of the formulas that stand in the places of others. -/
theorem mem_symbols_of_substituteAll {f : Formula α} {map : List (String × Formula α)}
    (h : s ∈ (f.substituteAll map).symbols) :
    (s ∈ f.symbols ∧ s ∉ map.map Prod.fst) ∨
      ∃ t ∈ f.symbols, ∃ g, map.lookup t = some g ∧ s ∈ g.symbols := by
  obtain ⟨t, ht, hs⟩ := exists_of_mem_occurrences_substitute (mem_symbols_iff.mp h)
  cases hkey : map.lookup t with
  | none =>
    rw [hkey] at hs
    obtain rfl := List.mem_singleton.mp hs
    exact Or.inl ⟨mem_symbols_iff.mpr ht, lookup_eq_none_iff_not_mem.mp hkey⟩
  | some g =>
    rw [hkey] at hs
    exact Or.inr ⟨t, mem_symbols_iff.mpr ht, g, hkey, mem_symbols_iff.mpr hs⟩

/-! ## The role of the symbols -/

/-- **The symbols of a formula are what its evaluation needs.**  Of every formula, raw ones
included: it has a value in just the environments that bind all its symbols, in every other the
failure names a symbol that is not bound, and environments that agree on the symbols give the same
result.  A formula in which a map replaces symbols has no symbols but its own that are no keys of
the map and those of the formulas in the places of keys that occur, and what an operation builds
has no symbols but those of its operands. -/
theorem evaluation_and_substitution_by_symbols (f : Formula α) :
    (∀ env, (∃ v, f.eval env = .ok v) ↔ ∀ s ∈ f.symbols, ∃ v, env s = some v) ∧
      (∀ env u, f.eval env = .error u → ∃ s ∈ f.symbols, env s = none ∧
        u.failure = .output ("No value bound for symbol `" ++ s ++ "`")) ∧
      (∀ env env', (∀ s ∈ f.symbols, env s = env' s) → f.eval env = f.eval env') ∧
      (∀ map, ∀ s ∈ (f.substituteAll map).symbols,
        (s ∈ f.symbols ∧ s ∉ map.map Prod.fst) ∨
          ∃ t ∈ f.symbols, ∃ g, map.lookup t = some g ∧ s ∈ g.symbols) ∧
      ∀ op : Operation α, ∀ s ∈ op.result.symbols, ∃ g ∈ op.operands, s ∈ g.symbols := by
  refine ⟨fun env => ?_, fun env u hu => ?_, fun env env' h => ?_,
    fun map s hs => mem_symbols_of_substituteAll hs, fun op s hs => ?_⟩
  · simp only [mem_symbols_iff]
    exact exists_eval_eq_ok_iff
  · have hfind := (eval_eq_error_iff f u).mp hu
    have hnone := List.find?_some hfind
    exact ⟨u.name, mem_symbols_iff.mpr (List.mem_of_find?_eq_some hfind),
      Option.isNone_iff_eq_none.mp hnone, rfl⟩
  · exact eval_congr fun s hs => h s (mem_symbols_iff.mpr hs)
  · obtain ⟨g, hg, hsg⟩ := Operation.exists_of_mem_occurrences_result (mem_symbols_iff.mp hs)
    exact ⟨g, hg, mem_symbols_iff.mpr hsg⟩

/-- A raw product of a symbol and of the zeroth power of another: both have to be bound, although
the second vanishes when the first is replaced. -/
theorem evaluation_and_substitution_by_symbols_zeroth_power :
    let f : Formula Float := .product [.symbol "x", .power (.symbol "y") (.const 0)]
    let map : List (String × Formula Float) := [("x", .symbol "a")]
    let env : String → Option Float := fun s => if s = "x" then some 2 else none
    let both : String → Option Float := fun s => if s = "x" then some 2 else some 3
    (∃ s ∈ f.symbols, env s = none ∧
        (⟨"y"⟩ : Unbound).failure = .output ("No value bound for symbol `" ++ s ++ "`")) ∧
      (∃ v, f.eval both = .ok v) ∧
      f.eval both = f.eval (fun s => if s = "y" then some 3 else some 2) ∧
      (f.substituteAll map).symbols = ["a"] ∧
      (("a" ∈ f.symbols ∧ "a" ∉ map.map Prod.fst) ∨
        ∃ t ∈ f.symbols, ∃ g, map.lookup t = some g ∧ "a" ∈ g.symbols) ∧
      ∃ g ∈ (Operation.scale 2 f).operands, "y" ∈ g.symbols := by
  intro f map env both
  obtain ⟨hok, herror, hcongr, hsubst, hop⟩ := evaluation_and_substitution_by_symbols f
  have hsymbols : f.symbols = ["x", "y"] := by decide +kernel
  refine ⟨herror env ⟨"y"⟩ rfl, (hok both).mpr ?_, hcongr _ _ ?_, by decide +kernel,
    hsubst map "a" (by decide +kernel), hop (.scale 2 f) "y" (by decide +kernel)⟩
  · rw [hsymbols]
    exact List.forall_mem_cons.mpr ⟨⟨2, rfl⟩, List.forall_mem_singleton.mpr ⟨3, rfl⟩⟩
  · rw [hsymbols]
    exact List.forall_mem_cons.mpr ⟨rfl, List.forall_mem_singleton.mpr rfl⟩

end Formula

end SphereLab
