import Mathlib
import SphereLab.Formula.Basic

/-!
# The rules of simplification

The recursive operations on formulas run over lists of formulas beside them, and the power at a
constant exponent looks at a formula in several layers.  This module brings both into the form
that proofs use:

* `induction`: what holds of a sum, a product, a power or an exponential once it holds of all
  its members holds of every formula.
* `powEach_eq_map`, `substituteEach_eq_map`: an operation on a list is the operation on its
  members.
* `powConst_induction`: the six rules for a power at a constant exponent, each with what it
  knows about the exponent and the base.  What holds by every rule holds of every such power.
-/

namespace SphereLab

namespace Formula

variable {α : Type}

/-! ## Kinds of formulas -/

/-- The formula is a sum. -/
def IsSum : Formula α → Prop
  | .sum _ => True
  | _ => False

/-- The formula is a product. -/
def IsProduct : Formula α → Prop
  | .product _ => True
  | _ => False

@[simp] theorem const?_const (c : α) : (const c).const? = some c := rfl

theorem eq_const_of_const?_eq_some {f : Formula α} {c : α} (h : f.const? = some c) :
    f = const c := by
  cases f with
  | const b => exact congrArg const (Option.some.inj h)
  | symbol s | sum ts | product fs | power b e | exponential x => exact absurd h (by simp [const?])

/-- A formula that is no constant has no constant's value. -/
theorem const?_eq_none_of_ne {f : Formula α} (h : ∀ c, f ≠ const c) : f.const? = none := by
  cases hf : f.const? with
  | none => rfl
  | some c => exact absurd (eq_const_of_const?_eq_some hf) (h c)

/-! ## Members -/

/-- Induction over formulas, where a sum or a product has all its members at once. -/
@[elab_as_elim, induction_eliminator]
theorem induction {motive : Formula α → Prop} (const : ∀ c, motive (.const c))
    (symbol : ∀ s, motive (.symbol s)) (sum : ∀ ts, (∀ t ∈ ts, motive t) → motive (.sum ts))
    (product : ∀ fs, (∀ f ∈ fs, motive f) → motive (.product fs))
    (power : ∀ b e, motive b → motive e → motive (.power b e))
    (exponential : ∀ x, motive x → motive (.exponential x)) (f : Formula α) : motive f :=
  Formula.rec (motive_2 := fun fs => ∀ f ∈ fs, motive f) const symbol sum product power exponential
    (fun _ hf => absurd hf List.not_mem_nil)
    (fun _ _ hf hfs _ hg => (List.mem_cons.mp hg).elim (fun h => h ▸ hf) (hfs _)) f

theorem substituteEach_eq_map [Scalar α] (σ : String → Option (Formula α))
    (fs : List (Formula α)) : substituteEach σ fs = fs.map (substitute σ) := by
  induction fs with
  | nil => rfl
  | cons f fs ih => rw [substituteEach, List.map_cons, ih]

theorem powEach_eq_map [Scalar α] (fs : List (Formula α)) (e : α) :
    powEach fs e = fs.map (powConst · e) := by
  induction fs with
  | nil => rfl
  | cons f fs ih => rw [powEach, List.map_cons, ih]

/-! ## Powers at constant exponents -/

/-- No rule for a power applies to a base under an integer exponent: it is neither a product nor
a power with an integer exponent. -/
structure Unmerged [Scalar α] (base : Formula α) : Prop where
  not_isProduct : ¬ base.IsProduct
  not_integer_power : ∀ b i, base = .power b (.const i) → Scalar.isInteger i = false

variable [Scalar α]

/-- The rules for a power at a constant exponent: what each of them keeps holds of every such
power. -/
theorem powConst_induction {motive : Formula α → α → Formula α → Prop}
    (zero : ∀ f e, (e == 0) = true → motive f e (.const 1))
    (one : ∀ f e, ¬ (e == 0) = true → (e == 1) = true → motive f e f)
    (const : ∀ b e, ¬ (e == 0) = true → ¬ (e == 1) = true →
      motive (.const b) e (.const (Scalar.pow b e)))
    (product : ∀ fs e, ¬ (e == 0) = true → ¬ (e == 1) = true → Scalar.isInteger e = true →
      (∀ f ∈ fs, motive f e (powConst f e)) →
      motive (.product fs) e (productOf (fs.map (powConst · e))))
    (power : ∀ b i e, ¬ (e == 0) = true → ¬ (e == 1) = true → Scalar.isInteger e = true →
      Scalar.isInteger i = true → motive b (i * e) (powConst b (i * e)) →
      motive (.power b (.const i)) e (powConst b (i * e)))
    (other : ∀ f e, ¬ (e == 0) = true → ¬ (e == 1) = true → f.const? = none →
      (Scalar.isInteger e = true → f.Unmerged) → motive f e (.power f (.const e)))
    (f : Formula α) (e : α) : motive f e (powConst f e) := by
  induction f, e using powConst.induct (motive_2 := fun fs e => ∀ f ∈ fs, motive f e (powConst f e))
  case case1 b e h | case4 b e h | case8 b i e h =>
    rw [powConst, if_pos h]
    exact zero _ e h
  case case2 b e h h' | case5 b e h h' | case9 b i e h h' =>
    rw [powConst, if_neg h, if_pos h']
    exact one _ e h h'
  case case3 b e h h' =>
    rw [powConst, if_neg h, if_neg h']
    exact const b e h h'
  case case6 fs e h h' hint ih =>
    rw [powConst, if_neg h, if_neg h', if_pos hint, powEach_eq_map]
    exact product fs e h h' hint ih
  case case7 fs e h h' hint =>
    rw [powConst, if_neg h, if_neg h', if_neg hint]
    exact other _ e h h' rfl fun hi => absurd hi hint
  case case10 b i e h h' hints ih =>
    rw [powConst, if_neg h, if_neg h', if_pos hints]
    rw [Bool.and_eq_true] at hints
    exact power b i e h h' hints.1 hints.2 ih
  case case11 b i e h h' hints =>
    rw [powConst, if_neg h, if_neg h', if_neg hints]
    refine other _ e h h' rfl fun hi => ⟨id, ?_⟩
    intro c j hj
    obtain ⟨_, hij⟩ := Formula.power.inj hj
    rw [← Formula.const.inj hij]
    simpa [hi] using hints
  case case12 f e hconst hproduct hpower h =>
    rw [powConst, if_pos h]
    · exact zero f e h
    all_goals assumption
  case case13 f e hconst hproduct hpower h h' =>
    rw [powConst, if_neg h, if_pos h']
    · exact one f e h h'
    all_goals assumption
  case case14 f e hconst hproduct hpower h h' =>
    rw [powConst, if_neg h, if_neg h']
    · refine other f e h h' (const?_eq_none_of_ne hconst) fun _ => ⟨fun hf => ?_, ?_⟩
      · cases f with
        | product fs => exact hproduct fs rfl
        | const c | symbol c | sum c | power c d | exponential c => exact hf
      · exact fun b i hf => (hpower b i hf).elim
    all_goals assumption
  case case15 e f hf => exact absurd hf List.not_mem_nil
  case case16 f fs e ih ihs g hg =>
    rcases List.mem_cons.mp hg with rfl | hg
    · exact ih
    · exact ihs g hg

/-- A power that no rule applies to. -/
theorem powConst_eq_power {f : Formula α} {e : α} (hzero : ¬ (e == 0) = true)
    (hone : ¬ (e == 1) = true) (hconst : f.const? = none)
    (hbase : Scalar.isInteger e = true → f.Unmerged) : powConst f e = .power f (.const e) := by
  induction f, e using powConst_induction with
  | zero f e h => exact absurd h hzero
  | one f e _ h => exact absurd h hone
  | const b e => exact absurd hconst (by simp)
  | product fs e _ _ hint _ => exact absurd trivial (hbase hint).not_isProduct
  | power b i e _ _ hint hi _ =>
    have hi' := (hbase hint).not_integer_power b i rfl
    rw [hi] at hi'
    exact absurd hi'.symm Bool.false_ne_true
  | other f e => rfl

/-- The power at an exponent that is no constant: a power of one is one, and nothing else is
simplified. -/
theorem pow_cases (b : Formula α) {e : Formula α} (he : e.const? = none) :
    (∃ c, b = .const c ∧ (c == 1) = true ∧ pow b e = .const 1) ∨
      (∀ c, b = .const c → (c == 1) = false) ∧ pow b e = .power b e := by
  cases b with
  | const c =>
    have hpow : pow (.const c) e = if c == 1 then .const 1 else .power (.const c) e := by
      cases e with
      | const d => exact absurd he (by simp)
      | symbol s | sum ts | product fs | power d i | exponential x => rfl
    rw [hpow]
    by_cases hc : (c == 1) = true
    · exact Or.inl ⟨c, rfl, hc, if_pos hc⟩
    · refine Or.inr ⟨fun d hd => ?_, if_neg hc⟩
      rw [← Formula.const.inj hd]
      exact Bool.not_eq_true _ ▸ hc
  | symbol s | sum ts | product fs | power c d | exponential x =>
    refine Or.inr ⟨fun _ h => absurd h (by simp), ?_⟩
    cases e with
    | const c => exact absurd he (by simp)
    | symbol s | sum ts | product fs | power b i | exponential x => rfl

theorem exp_of_const?_eq_none {f : Formula α} (h : f.const? = none) : exp f = .exponential f := by
  cases f with
  | const c => exact absurd h (by simp)
  | symbol s | sum ts | product fs | power b e | exponential x => rfl

end Formula

end SphereLab
