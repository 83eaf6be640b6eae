import Mathlib
import SphereLab.PairCorrelation.Ansatz
import SphereLab.Proofs.Formula.Simplification
import SphereLab.Proofs.Formula.Symbols

/-!
# Carrying out definitions is executing them

A chain of definitions, read from the last one to the first, is a program of assignments: each
right-hand side is evaluated in the light of what has been assigned before, and a name that is
defined again is overwritten.  Carrying the chain out by substitution gives formulas that have the
assigned values where nothing has been assigned.  If every definition mentions only names that are
defined behind it, then nothing that is defined is left in them.

* `Executes`: what definitions assign, one after the other.
* `forall₂_unwrapFrom`: the formulas that are carried out have the values that are assigned.
* `not_mem_unwrapFrom`: the names that are left in them.
* `unwrap_executes_and_eliminates`: both for whole chains.
-/

namespace SphereLab

namespace Definition

open Formula

variable {α : Type}

/-! ## Assignments -/

section Execution

variable [ExactScalar α] {D : PowerDomain α} {env : String → Option α}
  {known : List (String × Formula α)} {ds : List (Definition α)} {vs : List α}

/-- Definitions executed as assignments in an environment, one after the other, and the values that
they assign. -/
inductive Executes (D : PowerDomain α) :
    (String → Option α) → List (Definition α) → List α → Prop where
  | nil {env : String → Option α} : Executes D env [] []
  | cons {env : String → Option α} {d : Definition α} {ds : List (Definition α)} {v : α}
      {vs : List α} (hvalue : d.value.HasValue D env v)
      (hrest : Executes D (Function.update env d.name (some v)) ds vs) :
      Executes D env (d :: ds) (v :: vs)

/-- One more known formula is one more assignment of its value. -/
theorem updated_cons {name : String} {f : Formula α} {v : α} (h : f.HasValue D env v) :
    updated D env ((name, f) :: known) =
      Function.update (updated D env known) name (some v) := by
  funext s
  by_cases hs : s = name
  · subst hs
    rw [updated, List.lookup_cons, beq_self_eq_true, Function.update_self]
    exact value?_eq_some_iff.mpr h
  · rw [updated, List.lookup_cons, beq_eq_false_iff_ne.mpr hs, Function.update_of_ne hs, updated]

/-- Definitions that are executed where the known formulas have been assigned are carried out to
formulas with the assigned values. -/
theorem forall₂_unwrapFrom (h : Executes D (updated D env known) ds vs) :
    List.Forall₂ (fun d v => d.value.HasValue D env v) (unwrapFrom known ds) vs := by
  induction ds generalizing known vs with
  | nil =>
    cases h
    exact .nil
  | cons d ds ih =>
    cases h with
    | cons hvalue hrest =>
      have hcarried : (unwrapStep known d).HasValue D env _ := hasValue_substituteAll hvalue
      rw [← updated_cons hcarried] at hrest
      exact .cons hcarried (ih hrest)

end Execution

/-! ## Names -/

section Names

variable [Scalar α] {known : List (String × Formula α)} {ds : List (Definition α)}

theorem map_name_unwrapFrom (known : List (String × Formula α)) (ds : List (Definition α)) :
    (unwrapFrom known ds).map name = ds.map name := by
  induction ds generalizing known with
  | nil => rfl
  | cons d ds ih => rw [unwrapFrom, List.map_cons, ih, List.map_cons]

/-- The symbols of a definition that is carried out are symbols of known formulas, and symbols of
its own that are not known. -/
theorem mem_occurrences_unwrapStep {d : Definition α} {s : String}
    (h : s ∈ (unwrapStep known d).occurrences) :
    (∃ p ∈ known, s ∈ p.2.occurrences) ∨ s ∈ d.value.occurrences ∧ s ∉ known.map Prod.fst := by
  obtain ⟨t, ht, hs⟩ := exists_of_mem_occurrences_substitute h
  cases hlookup : known.lookup t with
  | some f =>
    rw [hlookup, Option.getD_some] at hs
    obtain ⟨before, after, rfl, -⟩ := List.lookup_eq_some_iff.mp hlookup
    exact Or.inl ⟨(t, f), List.mem_append_right _ List.mem_cons_self, hs⟩
  | none =>
    rw [hlookup, Option.getD_none] at hs
    obtain rfl := List.mem_singleton.mp hs
    refine Or.inr ⟨ht, fun hmem => ?_⟩
    obtain ⟨p, hp, rfl⟩ := List.mem_map.mp hmem
    exact absurd (List.lookup_eq_none_iff.mp hlookup p hp) (by simp)

/-- No defined name is left in what is carried out, if none is left in the known formulas and every
definition mentions only those that are known or have been defined before it. -/
theorem not_mem_unwrapFrom {defined : List String}
    (hknown : ∀ p ∈ known, ∀ s ∈ p.2.occurrences, s ∉ defined)
    (hmentions : ∀ before d after, ds = before ++ d :: after → ∀ s ∈ d.value.occurrences,
      s ∈ defined → s ∈ known.map Prod.fst ∨ s ∈ before.map name) :
    ∀ d ∈ unwrapFrom known ds, ∀ s ∈ d.value.occurrences, s ∉ defined := by
  induction ds generalizing known with
  | nil => exact fun d hd => absurd hd List.not_mem_nil
  | cons d ds ih =>
    have hcarried : ∀ s ∈ (unwrapStep known d).occurrences, s ∉ defined := by
      intro s hs hdefined
      rcases mem_occurrences_unwrapStep hs with ⟨p, hp, hsp⟩ | ⟨hmem, hnot⟩
      · exact hknown p hp s hsp hdefined
      · exact (hmentions [] d ds rfl s hmem hdefined).elim hnot List.not_mem_nil
    have hknown' : ∀ p ∈ (d.name, unwrapStep known d) :: known,
        ∀ s ∈ p.2.occurrences, s ∉ defined := List.forall_mem_cons.mpr ⟨hcarried, hknown⟩
    have hrest := ih hknown' fun before e after hds s hs hdefined => by
        rcases hmentions (d :: before) e after (by rw [hds]; rfl) s hs hdefined with hs | hs
        · exact Or.inl (List.mem_cons_of_mem _ hs)
        · rcases List.mem_cons.mp hs with rfl | hs
          · exact Or.inl List.mem_cons_self
          · exact Or.inr hs
    exact List.forall_mem_cons.mpr ⟨hcarried, hrest⟩

end Names

/-! ## Chains of definitions -/

variable [ExactScalar α]

/-- **Chains of definitions.**  Carried out, the definitions come in reverse order, and have the
values that they assign when they are executed from the last one to the first, in the environment in
which nothing has been assigned.  If every definition mentions, of the defined names, only those of
definitions behind it, then no defined name is left. -/
theorem unwrap_executes_and_eliminates (D : PowerDomain α) (env : String → Option α)
    (ds : List (Definition α)) :
    (unwrap ds).map name = (ds.map name).reverse ∧
      (∀ vs, Executes D env ds.reverse vs →
        List.Forall₂ (fun d v => d.value.HasValue D env v) (unwrap ds) vs) ∧
      ((∀ before d behind, ds = before ++ d :: behind → ∀ s ∈ d.value.symbols,
          s ∈ ds.map name → s ∈ behind.map name) →
        ∀ d ∈ unwrap ds, ∀ s ∈ d.value.symbols, s ∉ ds.map name) := by
  refine ⟨?_, fun vs hvs => forall₂_unwrapFrom hvs, fun hmentions d hd s hs => ?_⟩
  · rw [unwrap, map_name_unwrapFrom, List.map_reverse]
  · have hnone : ∀ p ∈ ([] : List (String × Formula α)), ∀ s ∈ p.2.occurrences,
        s ∉ ds.map name := fun p hp => absurd hp List.not_mem_nil
    refine not_mem_unwrapFrom hnone (fun before e after hds t ht hdefined => ?_)
      d hd s (mem_symbols_iff.mp hs)
    have hsplit : ds = after.reverse ++ e :: before.reverse := by
      rw [← List.reverse_reverse ds, hds, List.reverse_append, List.reverse_cons,
        List.append_assoc, List.singleton_append]
    have hbehind := hmentions _ e _ hsplit t (mem_symbols_iff.mpr ht) hdefined
    rw [List.map_reverse, List.mem_reverse] at hbehind
    exact Or.inr hbehind

/-- A chain in which a name is defined twice, the second time from its own old value: `x` is `6`,
then `7`, and `y` is `49`. -/
theorem unwrap_executes_and_eliminates_twice :
    let D := PowerDomain.nonzero ℝ
    let env : String → Option ℝ := fun s => if s = "t" then some 3 else none
    let ds : List (Definition ℝ) := [⟨"y", .power (.symbol "x") (.const 2)⟩,
      ⟨"x", .sum [.symbol "x", .const 1]⟩, ⟨"x", .product [.const 2, .symbol "t"]⟩]
    Executes D env ds.reverse [6, 7, 49] ∧
      List.Forall₂ (fun d v => d.value.HasValue D env v) (unwrap ds) [6, 7, 49] ∧
      (∀ before d behind, ds = before ++ d :: behind → ∀ s ∈ d.value.symbols,
        s ∈ ds.map name → s ∈ behind.map name) ∧
      ∀ d ∈ unwrap ds, ∀ s ∈ d.value.symbols, s ∉ ds.map name := by
  intro D env ds
  have hexecutes : Executes D env ds.reverse [6, 7, 49] := by
    have htwo : (2 : ℝ) = ((2 : ℤ) : ℝ) := by norm_num
    refine .cons (hasValue_product_iff.mpr ⟨[2, 3], haveValues_pair (hasValue_const 2)
      (hasValue_symbol_iff.mpr rfl), by norm_num⟩) ?_
    refine .cons (hasValue_sum_iff.mpr ⟨[6, 1], haveValues_pair
      (hasValue_symbol_iff.mpr (Function.update_self ..)) (hasValue_const 1), by norm_num⟩) ?_
    refine .cons (hasValue_power_iff.mpr ⟨7, 2, hasValue_symbol_iff.mpr (Function.update_self ..),
      hasValue_const 2, Or.inl (by norm_num), ?_⟩) .nil
    rw [htwo, Scalar.power_intCast (Or.inl (by norm_num))]
    norm_num
  have hmentions : ∀ before d behind, ds = before ++ d :: behind → ∀ s ∈ d.value.symbols,
      s ∈ ds.map name → s ∈ behind.map name := by
    intro before d behind hds s hs
    rw [mem_symbols_iff] at hs
    match before with
    | [] =>
      obtain ⟨rfl, rfl⟩ := List.cons.inj hds
      rw [List.mem_singleton.mp hs]
      exact fun _ => by decide
    | [_] =>
      obtain ⟨rfl, rfl⟩ := List.cons.inj (List.cons.inj hds).2
      rw [List.mem_singleton.mp hs]
      exact fun _ => by decide
    | [_, _] =>
      obtain ⟨rfl, rfl⟩ := List.cons.inj (List.cons.inj (List.cons.inj hds).2).2
      rw [List.mem_singleton.mp hs]
      exact fun hmem => absurd hmem (by decide)
    | _ :: _ :: _ :: rest => exact absurd (congrArg List.length hds) (by simp [ds])
  obtain ⟨-, hvalues, hnames⟩ := unwrap_executes_and_eliminates D env ds
  exact ⟨hexecutes, hvalues _ hexecutes, hmentions, hnames hmentions⟩

end Definition

end SphereLab
