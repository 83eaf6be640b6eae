import Mathlib
import SphereLab.Proofs.Formula.Program
import SphereLab.Proofs.Formula.Symbols

/-!
# Compiled formulas compute what formulas do

A formula can be compiled just if all its symbols are among the names of the arguments, and its
program evaluates to what the formula does in the environment of the arguments.  The two evaluators
start their sums at different zeros and sort exponents by different bounds, so they agree on every
type of scalars in which zero is neutral and the smaller bound lies below the larger one.

* `NeutralZero`: what the agreement takes of the scalars.
* `resolve_eq_error`: the symbol that a failure names.
* `agrees_of_resolve`: a formula and its tree have the same value at all arguments.
* `eval?_congr_of_resolve`: a tree does not see the arguments of symbols that do not occur.
* `exists_eval?_of_resolve`: on all scalars, a tree has a value at enough arguments.
* `compile_iff_and_eval?_eq_eval`: when a formula can be compiled, and what its program computes.
-/

namespace SphereLab

/-! ## Scalars in which zero is neutral -/

/-- Zero is neutral, and so is the negative of zero, at which sums of lists start.  What is at most
sixty-four is at most the largest number of thirty-one bits. -/
structure NeutralZero (α : Type) [Scalar α] : Prop where
  add_zero : ∀ x : α, x + 0 = x
  neg_zero_add : ∀ x : α, -0 + x = x
  le_word : ∀ x : α, x ≤ 64.0 → x ≤ 2147483647.0

theorem NeutralZero.neg_zero {α : Type} [Scalar α] (h : NeutralZero α) : (-0 : α) = 0 :=
  (h.add_zero (-0)).symm.trans (h.neg_zero_add 0)

theorem neutralZero_of_exact (α : Type) [ExactScalar α] : NeutralZero α where
  add_zero := add_zero
  neg_zero_add x := by rw [neg_zero, zero_add]
  le_word x hx := by
    refine hx.trans ?_
    rw [ExactScalar.ofScientific_eq_ratCast, ExactScalar.ofScientific_eq_ratCast, Rat.cast_le]
    norm_num

namespace Formula

/-! ## Results of lists -/

section Results

variable {ε α β : Type}

theorem map_eq_ok_iff {x : Except ε α} {g : α → β} {b : β} :
    x.map g = .ok b ↔ ∃ a, x = .ok a ∧ g a = b := by
  cases x with
  | error e => simp [Except.map]
  | ok a => simp [Except.map]

theorem map_eq_error_iff {x : Except ε α} {g : α → β} {e : ε} :
    x.map g = .error e ↔ x = .error e := by
  cases x with
  | error e => simp [Except.map]
  | ok a => simp [Except.map]

end Results

variable {α β : Type} [Scalar α] {names : List String} {args : List α}

/-- Formulas are resolved one by one. -/
theorem forall₂_of_resolveEach {fs : List (Formula α)} {ts : List (Program.Tree α)}
    (h : resolveEach names fs = .ok ts) :
    List.Forall₂ (fun f t => resolve names f = .ok t) fs ts := by
  induction fs generalizing ts with
  | nil =>
    obtain rfl := Except.ok.inj h
    exact .nil
  | cons f fs ih =>
    rw [resolveEach] at h
    cases hf : resolve names f with
    | error u => simp [hf] at h
    | ok t =>
      rw [hf] at h
      obtain ⟨us, hus, rfl⟩ := map_eq_ok_iff.mp h
      exact .cons hf (ih hus)

/-- A failure to resolve several formulas is a failure to resolve one of them. -/
theorem exists_of_resolveEach_eq_error {fs : List (Formula α)} {u : Unlisted}
    (h : resolveEach names fs = .error u) : ∃ f ∈ fs, resolve names f = .error u := by
  induction fs with
  | nil => exact absurd h (by simp [resolveEach])
  | cons f fs ih =>
    rw [resolveEach] at h
    cases hf : resolve names f with
    | error w =>
      rw [hf] at h
      obtain rfl := Except.error.inj h
      exact ⟨f, List.mem_cons_self, hf⟩
    | ok t =>
      rw [hf] at h
      obtain ⟨g, hg, hgu⟩ := ih (map_eq_error_iff.mp h)
      exact ⟨g, List.mem_cons_of_mem f hg, hgu⟩

/-! ## Symbols that are not listed -/

/-- The symbol that a failure names occurs and is not listed. -/
theorem resolve_eq_error {f : Formula α} {u : Unlisted} (h : resolve names f = .error u) :
    u.name ∈ f.occurrences ∧ u.name ∉ names := by
  induction f with
  | const c => exact absurd h (by simp [resolve])
  | symbol s =>
    rw [resolve] at h
    cases hs : names.findIdx? (· == s) with
    | some i => simp [hs] at h
    | none =>
      rw [hs] at h
      obtain rfl := Except.error.inj h
      refine ⟨List.mem_singleton_self s, fun hmem => ?_⟩
      exact beq_eq_false_iff_ne.mp (List.findIdx?_eq_none_iff.mp hs s hmem) rfl
  | sum ts ih =>
    rw [resolve] at h
    obtain ⟨t, ht, htu⟩ := exists_of_resolveEach_eq_error (map_eq_error_iff.mp h)
    obtain ⟨hmem, hnot⟩ := ih t ht htu
    exact ⟨mem_occurrences_sum.mpr ⟨t, ht, hmem⟩, hnot⟩
  | product fs ih =>
    rw [resolve] at h
    obtain ⟨f, hf, hfu⟩ := exists_of_resolveEach_eq_error (map_eq_error_iff.mp h)
    obtain ⟨hmem, hnot⟩ := ih f hf hfu
    exact ⟨mem_occurrences_product.mpr ⟨f, hf, hmem⟩, hnot⟩
  | power b e ihb ihe =>
    rw [resolve] at h
    cases hb : resolve names b with
    | error w =>
      rw [hb] at h
      obtain rfl := Except.error.inj h
      obtain ⟨hmem, hnot⟩ := ihb hb
      exact ⟨mem_occurrences_power.mpr (Or.inl hmem), hnot⟩
    | ok t =>
      cases hsmall : smallInteger? e with
      | some n => simp [hb, hsmall] at h
      | none =>
        rw [hb, hsmall] at h
        obtain ⟨hmem, hnot⟩ := ihe (map_eq_error_iff.mp h)
        exact ⟨mem_occurrences_power.mpr (Or.inr hmem), hnot⟩
  | exponential x ih =>
    rw [resolve] at h
    exact ih (map_eq_error_iff.mp h)

/-- A formula that is resolved has no symbols but those that are listed. -/
theorem mem_of_resolve_eq_ok {f : Formula α} {t : Program.Tree α} (h : resolve names f = .ok t) :
    ∀ s ∈ f.occurrences, s ∈ names := by
  induction f generalizing t with
  | const c => exact fun s hs => absurd hs List.not_mem_nil
  | symbol s =>
    intro r hr
    obtain rfl := List.mem_singleton.mp hr
    rw [resolve] at h
    cases hs : names.findIdx? (· == r) with
    | none => simp [hs] at h
    | some i =>
      obtain ⟨hi, heq, -⟩ := List.findIdx?_eq_some_iff_getElem.mp hs
      exact beq_iff_eq.mp heq ▸ List.getElem_mem hi
  | sum ts ih =>
    rw [resolve] at h
    obtain ⟨us, hus, -⟩ := map_eq_ok_iff.mp h
    intro s hs
    obtain ⟨t, ht, hst⟩ := mem_occurrences_sum.mp hs
    obtain ⟨u, -, hu⟩ := exists_of_mem_forall₂ (forall₂_of_resolveEach hus) ht
    exact ih t ht hu s hst
  | product fs ih =>
    rw [resolve] at h
    obtain ⟨us, hus, -⟩ := map_eq_ok_iff.mp h
    intro s hs
    obtain ⟨f, hf, hsf⟩ := mem_occurrences_product.mp hs
    obtain ⟨u, -, hu⟩ := exists_of_mem_forall₂ (forall₂_of_resolveEach hus) hf
    exact ih f hf hu s hsf
  | power b e ihb ihe =>
    rw [resolve] at h
    cases hb : resolve names b with
    | error u => simp [hb] at h
    | ok u =>
      intro s hs
      rcases mem_occurrences_power.mp hs with hs | hs
      · exact ihb hb s hs
      · cases hsmall : smallInteger? e with
        | some n =>
          -- an integer has no symbols
          obtain ⟨c, rfl, -⟩ := smallInteger?_eq_some hsmall
          exact absurd hs List.not_mem_nil
        | none =>
          rw [hb, hsmall] at h
          obtain ⟨w, hw, -⟩ := map_eq_ok_iff.mp h
          exact ihe hw s hs
  | exponential x ih =>
    rw [resolve] at h
    obtain ⟨u, hu, -⟩ := map_eq_ok_iff.mp h
    exact ih hu

/-! ## Values -/

/-- A formula and its tree have the same value at all arguments that are as many as the names. -/
def Agrees (names : List String) (f : Formula α) (t : Program.Tree α) : Prop :=
  ∀ args : List α, names.length ≤ args.length →
    ∃ v, t.eval? args = some v ∧ eval (argumentAt names args) f = .ok v

/-- Formulas that agree with their trees one by one have all their values in common with them. -/
theorem exists_values_of_agrees {fs : List (Formula α)} {ts : List (Program.Tree α)}
    (h : List.Forall₂ (Agrees names) fs ts) (hargs : names.length ≤ args.length) :
    ∃ vs, Program.Tree.evalEach? args ts = some vs ∧
      evalEach (argumentAt names args) fs = .ok vs := by
  induction h with
  | nil => exact ⟨[], rfl, rfl⟩
  | cons hf _ ih =>
    obtain ⟨v, htree, hformula⟩ := hf args hargs
    obtain ⟨vs, htrees, hformulas⟩ := ih
    refine ⟨v :: vs, ?_, ?_⟩
    · rw [Program.Tree.evalEach?, htree, htrees]
      rfl
    · rw [evalEach, hformula, hformulas]
      rfl

/-- At an exponent that is compiled as an integer the power is repeated multiplication. -/
theorem power_of_smallInteger? (hlaws : NeutralZero α) {c : α} {n : ℤ}
    (h : smallInteger? (.const c) = some n) (x : α) : Scalar.power x c = Scalar.powInt x n := by
  obtain ⟨d, hd, hint, hbound, rfl⟩ := smallInteger?_eq_some h
  obtain rfl := Formula.const.inj hd
  have hword : decide (Scalar.abs c ≤ 2147483647.0) = true :=
    decide_eq_true (hlaws.le_word _ hbound)
  rw [Scalar.power, hint, hword]
  rfl

/-- **Trees.**  A formula that is resolved agrees with its tree. -/
theorem agrees_of_resolve (hlaws : NeutralZero α) {f : Formula α} {t : Program.Tree α}
    (h : resolve names f = .ok t) : Agrees names f t := by
  induction f generalizing t with
  | const c =>
    obtain rfl := Except.ok.inj h
    exact fun args _ => ⟨c, rfl, rfl⟩
  | symbol s =>
    intro args hargs
    rw [resolve] at h
    cases hs : names.findIdx? (· == s) with
    | none => simp [hs] at h
    | some i =>
      rw [hs] at h
      obtain rfl := Except.ok.inj h
      have hi : i < args.length :=
        (List.findIdx?_eq_some_iff_findIdx_eq.mp hs).1.trans_le hargs
      refine ⟨args[i], List.getElem?_eq_getElem hi, ?_⟩
      rw [eval, argumentAt, hs, Option.bind_some, List.getElem?_eq_getElem hi]
  | sum ts ih =>
    intro args hargs
    rw [resolve] at h
    obtain ⟨us, hus, rfl⟩ := map_eq_ok_iff.mp h
    obtain ⟨vs, htrees, hformulas⟩ := exists_values_of_agrees
      (((List.forall₂_and_left ts us).mpr ⟨fun t ht => @ih t ht, forall₂_of_resolveEach hus⟩).imp
        fun t u htu => htu.1 htu.2) hargs
    refine ⟨vs.foldl (· + ·) 0, ?_, ?_⟩
    · rw [Program.Tree.eval?, htrees, Option.map_some, Scalar.total, hlaws.neg_zero]
    · rw [eval, hformulas]
      rfl
  | product fs ih =>
    intro args hargs
    rw [resolve] at h
    obtain ⟨us, hus, rfl⟩ := map_eq_ok_iff.mp h
    obtain ⟨vs, htrees, hformulas⟩ := exists_values_of_agrees
      (((List.forall₂_and_left fs us).mpr ⟨fun f hf => @ih f hf, forall₂_of_resolveEach hus⟩).imp
        fun f u hfu => hfu.1 hfu.2) hargs
    refine ⟨Scalar.totalProduct vs, ?_, ?_⟩
    · rw [Program.Tree.eval?, htrees, Option.map_some]
    · rw [eval, hformulas]
      rfl
  | power b e ihb ihe =>
    intro args hargs
    rw [resolve] at h
    cases hb : resolve names b with
    | error u => simp [hb] at h
    | ok u =>
      obtain ⟨x, htree, hformula⟩ := ihb hb args hargs
      cases hsmall : smallInteger? e with
      | some n =>
        rw [hb, hsmall] at h
        obtain rfl := Except.ok.inj h
        obtain ⟨c, rfl, -⟩ := smallInteger?_eq_some hsmall
        refine ⟨Scalar.powInt x n, ?_, ?_⟩
        · rw [Program.Tree.eval?, htree, Option.map_some]
        · rw [eval, hformula, ← power_of_smallInteger? hlaws hsmall]
          rfl
      | none =>
        rw [hb, hsmall] at h
        obtain ⟨w, hw, rfl⟩ := map_eq_ok_iff.mp h
        obtain ⟨y, htree', hformula'⟩ := ihe hw args hargs
        refine ⟨Scalar.power x y, ?_, ?_⟩
        · rw [Program.Tree.eval?, htree, htree']
          rfl
        · rw [eval, hformula, hformula']
          rfl
  | exponential x ih =>
    intro args hargs
    rw [resolve] at h
    obtain ⟨u, hu, rfl⟩ := map_eq_ok_iff.mp h
    obtain ⟨y, htree, hformula⟩ := ih hu args hargs
    refine ⟨Scalar.exp y, ?_, ?_⟩
    · rw [Program.Tree.eval?, htree, Option.map_some]
    · rw [eval, hformula]
      rfl

/-! ## Unused arguments -/

/-- Trees with the same values one by one have them together. -/
theorem evalEach?_congr {args' : List α} {fs : List (Formula α)} {ts : List (Program.Tree α)}
    (h : List.Forall₂ (fun _ t => t.eval? args = t.eval? args') fs ts) :
    Program.Tree.evalEach? args ts = Program.Tree.evalEach? args' ts := by
  induction h with
  | nil => rfl
  | cons heq _ ih => rw [Program.Tree.evalEach?, Program.Tree.evalEach?, heq, ih]

/-- A tree has the same value at arguments that are the same for all symbols of its formula. -/
theorem eval?_congr_of_resolve {f : Formula α} {t : Program.Tree α} (h : resolve names f = .ok t)
    {args' : List α}
    (hargs : ∀ s ∈ f.occurrences, argumentAt names args s = argumentAt names args' s) :
    t.eval? args = t.eval? args' := by
  induction f generalizing t with
  | const c =>
    obtain rfl := Except.ok.inj h
    rfl
  | symbol s =>
    have hs := hargs s (List.mem_singleton_self s)
    rw [resolve] at h
    cases hposition : names.findIdx? (· == s) with
    | none => simp [hposition] at h
    | some i =>
      rw [hposition] at h
      obtain rfl := Except.ok.inj h
      rwa [argumentAt, argumentAt, hposition] at hs
  | sum ts ih =>
    rw [resolve] at h
    obtain ⟨us, hus, rfl⟩ := map_eq_ok_iff.mp h
    have heach : ∀ t ∈ ts, ∀ u, resolve names t = .ok u → u.eval? args = u.eval? args' :=
      fun t ht u hu => ih t ht hu fun s hs => hargs s (mem_occurrences_sum.mpr ⟨t, ht, hs⟩)
    rw [Program.Tree.eval?, Program.Tree.eval?, evalEach?_congr
      (((List.forall₂_and_left ts us).mpr ⟨heach, forall₂_of_resolveEach hus⟩).imp
        fun t u htu => htu.1 u htu.2)]
  | product fs ih =>
    rw [resolve] at h
    obtain ⟨us, hus, rfl⟩ := map_eq_ok_iff.mp h
    have heach : ∀ f ∈ fs, ∀ u, resolve names f = .ok u → u.eval? args = u.eval? args' :=
      fun f hf u hu => ih f hf hu fun s hs => hargs s (mem_occurrences_product.mpr ⟨f, hf, hs⟩)
    rw [Program.Tree.eval?, Program.Tree.eval?, evalEach?_congr
      (((List.forall₂_and_left fs us).mpr ⟨heach, forall₂_of_resolveEach hus⟩).imp
        fun f u hfu => hfu.1 u hfu.2)]
  | power b e ihb ihe =>
    rw [resolve] at h
    cases hb : resolve names b with
    | error u => simp [hb] at h
    | ok u =>
      have hbase := ihb hb fun s hs => hargs s (mem_occurrences_power.mpr (Or.inl hs))
      cases hsmall : smallInteger? e with
      | some n =>
        rw [hb, hsmall] at h
        obtain rfl := Except.ok.inj h
        rw [Program.Tree.eval?, Program.Tree.eval?, hbase]
      | none =>
        rw [hb, hsmall] at h
        obtain ⟨w, hw, rfl⟩ := map_eq_ok_iff.mp h
        have hexponent := ihe hw fun s hs => hargs s (mem_occurrences_power.mpr (Or.inr hs))
        rw [Program.Tree.eval?, Program.Tree.eval?, hbase, hexponent]
  | exponential x ih =>
    rw [resolve] at h
    obtain ⟨u, hu, rfl⟩ := map_eq_ok_iff.mp h
    rw [Program.Tree.eval?, Program.Tree.eval?, ih hu hargs]

/-! ## Enough arguments -/

/-- Trees that all have values have them together. -/
theorem exists_evalEach? {fs : List (Formula α)} {ts : List (Program.Tree α)}
    (h : List.Forall₂ (fun _ t => ∃ v, t.eval? args = some v) fs ts) :
    ∃ vs, Program.Tree.evalEach? args ts = some vs := by
  induction h with
  | nil => exact ⟨[], rfl⟩
  | cons hf _ ih =>
    obtain ⟨v, hv⟩ := hf
    obtain ⟨vs, hvs⟩ := ih
    exact ⟨v :: vs, by rw [Program.Tree.evalEach?, hv, hvs]; rfl⟩

/-- On all scalars, a tree has a value at arguments that are as many as the names. -/
theorem exists_eval?_of_resolve {f : Formula α} {t : Program.Tree α} (h : resolve names f = .ok t)
    (hargs : names.length ≤ args.length) : ∃ v, t.eval? args = some v := by
  induction f generalizing t with
  | const c =>
    obtain rfl := Except.ok.inj h
    exact ⟨c, rfl⟩
  | symbol s =>
    rw [resolve] at h
    cases hs : names.findIdx? (· == s) with
    | none => simp [hs] at h
    | some i =>
      rw [hs] at h
      obtain rfl := Except.ok.inj h
      have hi : i < args.length :=
        (List.findIdx?_eq_some_iff_findIdx_eq.mp hs).1.trans_le hargs
      exact ⟨args[i], List.getElem?_eq_getElem hi⟩
  | sum ts ih =>
    rw [resolve] at h
    obtain ⟨us, hus, rfl⟩ := map_eq_ok_iff.mp h
    obtain ⟨vs, hvs⟩ := exists_evalEach?
      (((List.forall₂_and_left ts us).mpr ⟨fun t ht => @ih t ht, forall₂_of_resolveEach hus⟩).imp
        fun t u htu => htu.1 htu.2)
    exact ⟨Scalar.total vs, by rw [Program.Tree.eval?, hvs, Option.map_some]⟩
  | product fs ih =>
    rw [resolve] at h
    obtain ⟨us, hus, rfl⟩ := map_eq_ok_iff.mp h
    obtain ⟨vs, hvs⟩ := exists_evalEach?
      (((List.forall₂_and_left fs us).mpr ⟨fun f hf => @ih f hf, forall₂_of_resolveEach hus⟩).imp
        fun f u hfu => hfu.1 hfu.2)
    exact ⟨Scalar.totalProduct vs, by rw [Program.Tree.eval?, hvs, Option.map_some]⟩
  | power b e ihb ihe =>
    rw [resolve] at h
    cases hb : resolve names b with
    | error u => simp [hb] at h
    | ok u =>
      obtain ⟨x, hx⟩ := ihb hb
      cases hsmall : smallInteger? e with
      | some n =>
        rw [hb, hsmall] at h
        obtain rfl := Except.ok.inj h
        exact ⟨Scalar.powInt x n, by rw [Program.Tree.eval?, hx, Option.map_some]⟩
      | none =>
        rw [hb, hsmall] at h
        obtain ⟨w, hw, rfl⟩ := map_eq_ok_iff.mp h
        obtain ⟨y, hy⟩ := ihe hw
        exact ⟨Scalar.power x y, by rw [Program.Tree.eval?, hx, hy]; rfl⟩
  | exponential x ih =>
    rw [resolve] at h
    obtain ⟨u, hu, rfl⟩ := map_eq_ok_iff.mp h
    obtain ⟨y, hy⟩ := ih hu
    exact ⟨Scalar.exp y, by rw [Program.Tree.eval?, hy, Option.map_some]⟩

/-! ## Programs -/

/-- A formula is compiled just if it is resolved, to the program of its tree. -/
theorem compile_eq_ok_iff {f : Formula α} {p : Program α} :
    f.compile names = .ok p ↔ ∃ t, resolve names f = .ok t ∧ p = ⟨names.length, t⟩ := by
  rw [compile, map_eq_ok_iff]
  exact exists_congr fun t => and_congr_right fun _ => eq_comm

/-- All symbols are listed just if the formula can be compiled. -/
theorem exists_compile_eq_ok_iff {f : Formula α} :
    (∃ p, f.compile names = .ok p) ↔ ∀ s ∈ f.symbols, s ∈ names := by
  constructor
  · rintro ⟨p, hp⟩ s hs
    obtain ⟨t, ht, -⟩ := compile_eq_ok_iff.mp hp
    exact mem_of_resolve_eq_ok ht s (mem_symbols_iff.mp hs)
  · intro hlisted
    cases hf : resolve names f with
    | ok t => exact ⟨_, compile_eq_ok_iff.mpr ⟨t, hf, rfl⟩⟩
    | error u =>
      obtain ⟨hmem, hnot⟩ := resolve_eq_error hf
      exact absurd (hlisted u.name (mem_symbols_iff.mpr hmem)) hnot

/-- The names that have arguments are those that are listed, if the arguments are as many. -/
theorem exists_argumentAt_iff (hargs : names.length ≤ args.length) {s : String} :
    (∃ v, argumentAt names args s = some v) ↔ s ∈ names := by
  rw [argumentAt]
  cases hs : names.findIdx? (· == s) with
  | none =>
    refine iff_of_false (by simp) fun hmem => ?_
    exact beq_eq_false_iff_ne.mp (List.findIdx?_eq_none_iff.mp hs s hmem) rfl
  | some i =>
    obtain ⟨hi, heq, -⟩ := List.findIdx?_eq_some_iff_getElem.mp hs
    refine iff_of_true ⟨args[i], ?_⟩ (beq_iff_eq.mp heq ▸ List.getElem_mem hi)
    rw [Option.bind_some, List.getElem?_eq_getElem]

/-- A formula with a value at the arguments can be compiled, and its program has the value. -/
theorem exists_eval?_of_hasValue [ExactScalar β] {D : PowerDomain β} {args : List β}
    {f : Formula β} {v : β} (hvalue : f.HasValue D (argumentAt names args) v)
    (hargs : names.length ≤ args.length) :
    ∃ p, f.compile names = .ok p ∧ p.eval? args = some v := by
  obtain ⟨p, hp⟩ := exists_compile_eq_ok_iff.mpr fun s hs =>
    (exists_argumentAt_iff hargs).mp (hvalue.exists_of_mem s (mem_symbols_iff.mp hs))
  obtain ⟨t, ht, rfl⟩ := compile_eq_ok_iff.mp hp
  obtain ⟨w, htree, hformula⟩ := agrees_of_resolve (neutralZero_of_exact β) ht args hargs
  rw [hvalue.eval_eq] at hformula
  obtain rfl := Except.ok.inj hformula
  exact ⟨_, hp, htree⟩

/-- **Compiled formulas.**  A formula can be compiled just if all its symbols are listed, and the
failure names one that is not.  At any arguments that are as many as the names no argument is
missing, and the program has the value of the formula where each name has the argument at its first
position. -/
theorem compile_iff_and_eval?_eq_eval (hlaws : NeutralZero α) (f : Formula α)
    (names : List String) :
    ((∃ p, f.compile names = .ok p) ↔ ∀ s ∈ f.symbols, s ∈ names) ∧
      (∀ u, f.compile names = .error u → ∃ s ∈ f.symbols, s ∉ names ∧
        u.failure = .output ("Symbol `" ++ s ++ "` is not among the compiled arguments")) ∧
      ∀ p, f.compile names = .ok p → p.arity = names.length ∧
        ∀ args : List α, names.length ≤ args.length →
          ∃ v, p.eval? args = some v ∧ f.eval (argumentAt names args) = .ok v := by
  refine ⟨exists_compile_eq_ok_iff, fun u hu => ?_, fun p hp => ?_⟩
  · obtain ⟨hmem, hnot⟩ := resolve_eq_error (map_eq_error_iff.mp hu)
    exact ⟨u.name, mem_symbols_iff.mpr hmem, hnot, rfl⟩
  · obtain ⟨t, ht, rfl⟩ := compile_eq_ok_iff.mp hp
    exact ⟨rfl, agrees_of_resolve hlaws ht⟩

/-- A formula with a cube, where the first and the last argument have one name; and the same formula
where a name is missing. -/
theorem compile_iff_and_eval?_eq_eval_cube :
    let f : Formula ℝ := .sum [.product [.symbol "a", .power (.symbol "r") (.const 3)], .const 2]
    NeutralZero ℝ ∧ (∃ p, f.compile ["r", "a", "r"] = .ok p ∧ p.arity = 3 ∧
      p.eval? [2, 5, 7] = some 42) ∧
      ∃ u, f.compile ["a"] = .error u ∧ ∃ s ∈ f.symbols, s ∉ ["a"] ∧
        u.failure = .output ("Symbol `" ++ s ++ "` is not among the compiled arguments") := by
  intro f
  have hcube : Scalar.power (2 : ℝ) 3 = 8 := by
    have h := Scalar.power_intCast (b := (2 : ℝ)) (n := 3) (Or.inl two_ne_zero)
    norm_num at h
    exact h
  have hvalue : f.eval (argumentAt ["r", "a", "r"] [2, 5, 7]) = .ok 42 := by
    have ha : argumentAt ["r", "a", "r"] [2, 5, (7 : ℝ)] "a" = some 5 := rfl
    have hr : argumentAt ["r", "a", "r"] [2, 5, (7 : ℝ)] "r" = some 2 := rfl
    simp only [f, eval, evalEach, ha, hr, Except.map, hcube, Scalar.totalProduct]
    norm_num
  refine ⟨neutralZero_of_exact ℝ, ?_, ?_⟩
  · obtain ⟨hiff, -, hprogram⟩ :=
      compile_iff_and_eval?_eq_eval (neutralZero_of_exact ℝ) f ["r", "a", "r"]
    obtain ⟨p, hp⟩ := hiff.mpr (by decide +kernel)
    obtain ⟨harity, hargs⟩ := hprogram p hp
    obtain ⟨v, hv, hf⟩ := hargs [2, 5, 7] le_rfl
    rw [hvalue] at hf
    obtain rfl := Except.ok.inj hf
    exact ⟨p, hp, harity, hv⟩
  · obtain ⟨-, herror, -⟩ := compile_iff_and_eval?_eq_eval (neutralZero_of_exact ℝ) f ["a"]
    have hu : f.compile ["a"] = .error ⟨"r"⟩ := rfl
    exact ⟨⟨"r"⟩, hu, herror _ hu⟩

end Formula

end SphereLab
