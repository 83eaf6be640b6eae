import Mathlib
import SphereLab.Formula.Eval
import SphereLab.Proofs.Formula.Operation
import SphereLab.Proofs.Formula.Rules
import SphereLab.Proofs.Scalar.Exact

/-!
# Values of formulas in exact arithmetic

Over exact scalars a formula has a value in an environment when its evaluation succeeds and
every power that it takes is defined.  Dividing by zero is not, at an integer exponent; what
else is not, at other exponents, is left open by a `PowerDomain`.

* `HasValue`: the formula is defined in the environment and evaluates to a value.
* `hasValue_sum_iff`, `hasValue_product_iff`, `hasValue_power_iff`, `hasValue_exponential_iff`:
  the value of a formula in terms of the values of its members.
* `Operation.Means`: the value of an operation, in terms of field arithmetic on the values of its
  operands.
* `updated`: an environment in which some symbols have the values of formulas.
-/

namespace SphereLab

/-- Where the powers of exact scalars are defined.  At an integer exponent a power is defined
unless it divides by zero, and the powers of one are always defined. -/
structure PowerDomain (α : Type) [ExactScalar α] where
  holds : α → α → Prop
  holds_intCast : ∀ (b : α) (n : ℤ), holds b n ↔ b ≠ 0 ∨ 0 ≤ n
  holds_one : ∀ e : α, holds 1 e

namespace PowerDomain

variable {α : Type} [ExactScalar α]

/-- Every power is defined that does not divide by zero. -/
def nonzero (α : Type) [ExactScalar α] : PowerDomain α where
  holds b e := b ≠ 0 ∨ 0 ≤ e
  holds_intCast b n := by rw [Int.cast_nonneg_iff]
  holds_one _ := Or.inl one_ne_zero

theorem holds_neg_one (D : PowerDomain α) {b : α} (h : b ≠ 0) : D.holds b (-1) := by
  have h' := (D.holds_intCast b (-1)).mpr (Or.inl h)
  rwa [Int.cast_neg, Int.cast_one] at h'

/-- Where a power is defined, it is the same by repeated squaring and by the power function. -/
theorem power_eq_pow (D : PowerDomain α) {b e : α} (h : D.holds b e) :
    Scalar.power b e = Scalar.pow b e := by
  by_cases hint : Scalar.isInteger e = true
  · obtain ⟨n, _, rfl⟩ := Scalar.isInteger_iff.mp hint
    exact Scalar.power_eq_pow (by exact_mod_cast (D.holds_intCast b n).mp h)
  · rw [Scalar.power, if_neg (by simp [hint])]

end PowerDomain

namespace Formula

variable {α : Type} [ExactScalar α] {D : PowerDomain α} {env : String → Option α}

/-! ## Definedness and values -/

mutual

/-- Every power that the evaluation takes is defined. -/
def Defined (D : PowerDomain α) (env : String → Option α) : Formula α → Prop
  | .const _ => True
  | .symbol _ => True
  | .sum ts => DefinedEach D env ts
  | .product fs => DefinedEach D env fs
  | .power b e => Defined D env b ∧ Defined D env e ∧
      ∀ x y, eval env b = .ok x → eval env e = .ok y → D.holds x y
  | .exponential x => Defined D env x

/-- Every power that the evaluation of several formulas takes is defined. -/
def DefinedEach (D : PowerDomain α) (env : String → Option α) : List (Formula α) → Prop
  | [] => True
  | f :: fs => Defined D env f ∧ DefinedEach D env fs

end

/-- The formula is defined in the environment and evaluates to a value. -/
structure HasValue (D : PowerDomain α) (env : String → Option α) (f : Formula α) (v : α) :
    Prop where
  eval_eq : eval env f = .ok v
  defined : f.Defined D env

/-- Several formulas are defined and evaluate to values, one by one. -/
abbrev HaveValues (D : PowerDomain α) (env : String → Option α) :
    List (Formula α) → List α → Prop :=
  List.Forall₂ (HasValue D env)

theorem HasValue.unique {f : Formula α} {v w : α} (hv : f.HasValue D env v)
    (hw : f.HasValue D env w) : v = w :=
  Except.ok.inj (hv.eval_eq.symm.trans hw.eval_eq)

theorem hasValue_const_iff {c v : α} : (const c).HasValue D env v ↔ c = v := by
  constructor
  · intro h
    have heval := h.eval_eq
    rw [eval] at heval
    exact Except.ok.inj heval
  · rintro rfl
    exact ⟨by rw [eval], by rw [Defined]; trivial⟩

theorem hasValue_symbol_iff {s : String} {v : α} :
    (symbol s).HasValue D env v ↔ env s = some v := by
  constructor
  · intro h
    have heval := h.eval_eq
    rw [eval] at heval
    cases hs : env s with
    | none => simp [hs] at heval
    | some w =>
      rw [hs] at heval
      rw [Except.ok.inj heval]
  · intro h
    exact ⟨by rw [eval, h], by rw [Defined]; trivial⟩

/-- Evaluating several formulas gives the values of all of them. -/
theorem haveValues_iff {fs : List (Formula α)} {vs : List α} :
    HaveValues D env fs vs ↔ evalEach env fs = .ok vs ∧ DefinedEach D env fs := by
  induction fs generalizing vs with
  | nil =>
    rw [HaveValues, List.forall₂_nil_left_iff, evalEach, DefinedEach, and_true]
    exact ⟨fun h => h ▸ rfl, fun h => (Except.ok.inj h).symm⟩
  | cons f fs ih =>
    rw [HaveValues, List.forall₂_cons_left_iff, evalEach, DefinedEach]
    constructor
    · rintro ⟨v, ws, hv, hws, rfl⟩
      obtain ⟨heval, hdefined⟩ := ih.mp hws
      rw [hv.eval_eq, heval]
      exact ⟨rfl, hv.defined, hdefined⟩
    · rintro ⟨heval, hf, hfs⟩
      cases hv : eval env f with
      | error u => simp [hv] at heval
      | ok v =>
        cases hws : evalEach env fs with
        | error u => simp [hv, hws, Except.map] at heval
        | ok ws =>
          simp only [hv, hws, Except.map, Except.ok.injEq] at heval
          exact ⟨v, ws, ⟨hv, hf⟩, ih.mpr ⟨hws, hfs⟩, heval.symm⟩

theorem hasValue_sum_iff {ts : List (Formula α)} {v : α} :
    (sum ts).HasValue D env v ↔ ∃ vs, HaveValues D env ts vs ∧ vs.sum = v := by
  constructor
  · rintro ⟨heval, hdefined⟩
    rw [eval] at heval
    cases hvs : evalEach env ts with
    | error u => simp [hvs, Except.map] at heval
    | ok vs =>
      rw [hvs] at heval
      refine ⟨vs, haveValues_iff.mpr ⟨hvs, hdefined⟩, ?_⟩
      rw [← Except.ok.inj heval, List.sum_eq_foldl]
  · rintro ⟨vs, hvs, rfl⟩
    obtain ⟨heval, hdefined⟩ := haveValues_iff.mp hvs
    refine ⟨?_, hdefined⟩
    rw [eval, heval, List.sum_eq_foldl]
    rfl

theorem hasValue_product_iff {fs : List (Formula α)} {v : α} :
    (product fs).HasValue D env v ↔ ∃ vs, HaveValues D env fs vs ∧ vs.prod = v := by
  constructor
  · rintro ⟨heval, hdefined⟩
    rw [eval] at heval
    cases hvs : evalEach env fs with
    | error u => simp [hvs, Except.map] at heval
    | ok vs =>
      rw [hvs] at heval
      refine ⟨vs, haveValues_iff.mpr ⟨hvs, hdefined⟩, ?_⟩
      rw [← Except.ok.inj heval, Scalar.totalProduct_eq_prod]
  · rintro ⟨vs, hvs, rfl⟩
    obtain ⟨heval, hdefined⟩ := haveValues_iff.mp hvs
    refine ⟨?_, hdefined⟩
    rw [eval, heval, ← Scalar.totalProduct_eq_prod]
    rfl

theorem hasValue_power_iff {b e : Formula α} {v : α} :
    (power b e).HasValue D env v ↔ ∃ x y, b.HasValue D env x ∧ e.HasValue D env y ∧
      D.holds x y ∧ Scalar.power x y = v := by
  constructor
  · rintro ⟨heval, hdefined⟩
    rw [Defined] at hdefined
    obtain ⟨hb, he, hdomain⟩ := hdefined
    rw [eval] at heval
    cases hx : eval env b with
    | error u => simp [hx] at heval
    | ok x =>
      cases hy : eval env e with
      | error u => simp [hx, hy, Except.map] at heval
      | ok y =>
        rw [hx, hy] at heval
        exact ⟨x, y, ⟨hx, hb⟩, ⟨hy, he⟩, hdomain x y hx hy, Except.ok.inj heval⟩
  · rintro ⟨x, y, hx, hy, hdomain, rfl⟩
    refine ⟨?_, ?_⟩
    · rw [eval, hx.eval_eq, hy.eval_eq]
      rfl
    · rw [Defined]
      refine ⟨hx.defined, hy.defined, ?_⟩
      intro x' y' hx' hy'
      rw [hx.eval_eq] at hx'
      rw [hy.eval_eq] at hy'
      rwa [← Except.ok.inj hx', ← Except.ok.inj hy']

theorem hasValue_exponential_iff {x : Formula α} {v : α} :
    (exponential x).HasValue D env v ↔ ∃ y, x.HasValue D env y ∧ Scalar.exp y = v := by
  constructor
  · rintro ⟨heval, hdefined⟩
    rw [eval] at heval
    cases hy : eval env x with
    | error u => simp [hy, Except.map] at heval
    | ok y =>
      rw [hy] at heval
      exact ⟨y, ⟨hy, hdefined⟩, Except.ok.inj heval⟩
  · rintro ⟨y, hy, rfl⟩
    refine ⟨?_, hy.defined⟩
    rw [eval, hy.eval_eq]
    rfl

open Classical in
/-- The value of a formula, if it has one. -/
noncomputable def value? (D : PowerDomain α) (env : String → Option α) (f : Formula α) : Option α :=
  if h : ∃ v, f.HasValue D env v then some h.choose else none

theorem value?_eq_some_iff {f : Formula α} {v : α} :
    f.value? D env = some v ↔ f.HasValue D env v := by
  rw [value?]
  constructor
  · intro h
    split at h
    · rename_i hex
      rw [← Option.some.inj h]
      exact hex.choose_spec
    · exact absurd h (by simp)
  · intro h
    have hex : ∃ v, f.HasValue D env v := ⟨v, h⟩
    rw [dif_pos hex, hex.choose_spec.unique h]

/-- An environment in which the symbols that a finite map names have the values of its formulas. -/
noncomputable def updated (D : PowerDomain α) (env : String → Option α)
    (map : List (String × Formula α)) (s : String) : Option α :=
  match map.lookup s with
  | some f => f.value? D env
  | none => env s

/-! ## Operations on values -/

/-- What an operation means: field arithmetic on the values of its operands, where nothing is
divided by zero and every power is defined. -/
def Operation.Means (D : PowerDomain α) (env : String → Option α) : Operation α → α → Prop
  | .sum fs, v => ∃ vs, HaveValues D env fs vs ∧ vs.sum = v
  | .product fs, v => ∃ vs, HaveValues D env fs vs ∧ vs.prod = v
  | .add f g, v => ∃ x y, f.HasValue D env x ∧ g.HasValue D env y ∧ x + y = v
  | .addConst f c, v => ∃ x, f.HasValue D env x ∧ x + c = v
  | .constAdd c f, v => ∃ x, f.HasValue D env x ∧ c + x = v
  | .sub f g, v => ∃ x y, f.HasValue D env x ∧ g.HasValue D env y ∧ x - y = v
  | .subConst f c, v => ∃ x, f.HasValue D env x ∧ x - c = v
  | .mul f g, v => ∃ x y, f.HasValue D env x ∧ g.HasValue D env y ∧ x * y = v
  | .scale c f, v => ∃ x, f.HasValue D env x ∧ c * x = v
  | .div f g, v => ∃ x y, f.HasValue D env x ∧ g.HasValue D env y ∧ y ≠ 0 ∧ x / y = v
  | .divConst f c, v => ∃ x, f.HasValue D env x ∧ c ≠ 0 ∧ x / c = v
  | .neg f, v => ∃ x, f.HasValue D env x ∧ -x = v
  | .recip f, v => ∃ x, f.HasValue D env x ∧ x ≠ 0 ∧ x⁻¹ = v
  | .pow f g, v => ∃ x y, f.HasValue D env x ∧ g.HasValue D env y ∧ D.holds x y ∧
      Scalar.power x y = v
  | .powConst f c, v => ∃ x, f.HasValue D env x ∧ D.holds x c ∧ Scalar.power x c = v
  | .powInt f n, v => ∃ x, f.HasValue D env x ∧ (x ≠ 0 ∨ 0 ≤ n) ∧ x ^ n = v
  | .exp f, v => ∃ x, f.HasValue D env x ∧ Scalar.exp x = v

end Formula

end SphereLab
