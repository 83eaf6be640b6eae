import Mathlib
import SphereLab.Formula.Compiled
import SphereLab.Proofs.Formula.Rounded

/-!
# Values of compiled formulas

Compiling a formula resolves its symbols, once, to the positions of arguments.  Over the exact
scalars that its constants stand for, the program has the value that the formula has where each
symbol is bound to the argument at its position.

* `argumentAt`: the environment of a list of arguments.
* `exists_compile`: a formula with a value in that environment can be compiled, and the program has
  the value.
-/

namespace SphereLab

namespace Program

variable {α β : Type}

mutual

/-- The tree with other constants in the places of its own. -/
def Tree.mapConstants (g : α → β) : Tree α → Tree β
  | .const c => .const (g c)
  | .argument i => .argument i
  | .sum ts => .sum (Tree.mapConstantsEach g ts)
  | .product fs => .product (Tree.mapConstantsEach g fs)
  | .powInt b n => .powInt (Tree.mapConstants g b) n
  | .power b e => .power (Tree.mapConstants g b) (Tree.mapConstants g e)
  | .exponential x => .exponential (Tree.mapConstants g x)

/-- Several trees with other constants. -/
def Tree.mapConstantsEach (g : α → β) : List (Tree α) → List (Tree β)
  | [] => []
  | t :: ts => Tree.mapConstants g t :: Tree.mapConstantsEach g ts

end

/-- The program with other constants in the places of its own. -/
def mapConstants (g : α → β) (p : Program α) : Program β := ⟨p.arity, p.tree.mapConstants g⟩

end Program

namespace Formula

open Program

variable {α β : Type}

/-- The environment in which each name has the argument at its first position. -/
def argumentAt (names : List String) (args : List β) (s : String) : Option β :=
  (names.findIdx? (· == s)).bind (args[·]?)

variable [Scalar α] [ExactScalar β] {exact : α → β} {D : PowerDomain β}
  {names : List String} {args : List β}

/-- A formula is compiled to a program with its value. -/
def Compiles (exact : α → β) (names : List String) (args : List β) (f : Formula α) (v : β) : Prop :=
  ∃ t, resolve names f = .ok t ∧ (t.mapConstants exact).eval? args = some v

/-- Formulas that are compiled one by one are compiled together. -/
theorem exists_resolveEach {fs : List (Formula α)} {vs : List β}
    (h : List.Forall₂ (Compiles exact names args) fs vs) :
    ∃ ts, resolveEach names fs = .ok ts ∧
      Tree.evalEach? args (Tree.mapConstantsEach exact ts) = some vs := by
  induction h with
  | nil => exact ⟨[], rfl, rfl⟩
  | cons hf _ ih =>
    obtain ⟨t, ht, hv⟩ := hf
    obtain ⟨ts, hts, hvs⟩ := ih
    refine ⟨t :: ts, ?_, ?_⟩
    · rw [resolveEach, ht, hts]
      rfl
    · rw [Tree.mapConstantsEach, Tree.evalEach?, hv, hvs]
      rfl

/-- The members of a sum or a product are compiled with their values. -/
theorem forall₂_compiles {fs : List (Formula α)} {vs : List β}
    (h : HaveValues D (argumentAt names args) (fs.map (mapConstants exact)) vs)
    (ih : ∀ f ∈ fs, ∀ v, (f.mapConstants exact).HasValue D (argumentAt names args) v →
      Compiles exact names args f v) : List.Forall₂ (Compiles exact names args) fs vs := by
  rw [HaveValues, List.forall₂_map_left_iff] at h
  exact ((List.forall₂_and_left fs vs).mpr ⟨ih, h⟩).imp fun f v hfv => hfv.1 v hfv.2

theorem smallInteger?_eq_some {e : Formula α} {n : ℤ} (h : smallInteger? e = some n) :
    ∃ c, e = .const c ∧ Scalar.isInteger c = true ∧ Scalar.abs c ≤ 64.0 ∧ Scalar.toInt c = n := by
  cases e with
  | const c =>
    rw [smallInteger?] at h
    split at h
    · rename_i htest
      obtain ⟨hint, hbound⟩ := (Bool.and_eq_true _ _).mp htest
      exact ⟨c, rfl, hint, of_decide_eq_true hbound, Option.some.inj h⟩
    · exact absurd h (by simp)
  | symbol s | sum ts | product fs | power b e | exponential x =>
    exact absurd h (by simp [smallInteger?])

/-- A formula with a value at the arguments can be compiled, and the program has the value. -/
theorem compiles_of_hasValue (hexact : StandsFor exact) {f : Formula α} {v : β}
    (h : (f.mapConstants exact).HasValue D (argumentAt names args) v) :
    Compiles exact names args f v := by
  induction f generalizing v with
  | const c =>
    obtain rfl := hasValue_const_iff.mp h
    exact ⟨.const c, rfl, rfl⟩
  | symbol s =>
    have hs := hasValue_symbol_iff.mp h
    rw [argumentAt, Option.bind_eq_some_iff] at hs
    obtain ⟨i, hi, hv⟩ := hs
    refine ⟨.argument i, ?_, hv⟩
    rw [resolve, hi]
  | sum ts ih =>
    rw [mapConstants, mapConstantsEach_eq_map] at h
    obtain ⟨vs, hvs, rfl⟩ := hasValue_sum_iff.mp h
    obtain ⟨us, hus, hus'⟩ := exists_resolveEach (forall₂_compiles hvs fun t ht v => ih t ht)
    refine ⟨.sum us, ?_, ?_⟩
    · rw [resolve, hus]
      rfl
    · rw [Tree.mapConstants, Tree.eval?, hus', Option.map_some, Scalar.total, neg_zero,
        List.sum_eq_foldl]
  | product fs ih =>
    rw [mapConstants, mapConstantsEach_eq_map] at h
    obtain ⟨vs, hvs, rfl⟩ := hasValue_product_iff.mp h
    obtain ⟨us, hus, hus'⟩ := exists_resolveEach (forall₂_compiles hvs fun f hf v => ih f hf)
    refine ⟨.product us, ?_, ?_⟩
    · rw [resolve, hus]
      rfl
    · rw [Tree.mapConstants, Tree.eval?, hus', Option.map_some, Scalar.totalProduct_eq_prod]
  | power b e ihb ihe =>
    rw [mapConstants] at h
    obtain ⟨x, y, hx, hy, hxy, rfl⟩ := hasValue_power_iff.mp h
    obtain ⟨t, ht, hvalue⟩ := ihb hx
    cases hsmall : smallInteger? e with
    | some n =>
      -- repeated multiplication is the power, at an integer exponent
      obtain ⟨c, rfl, hint, -, rfl⟩ := smallInteger?_eq_some hsmall
      obtain rfl := hasValue_const_iff.mp hy
      refine ⟨.powInt t (Scalar.toInt c), ?_, ?_⟩
      · rw [resolve, ht, hsmall]
      · rw [hexact.exact_of_isInteger c hint] at hxy ⊢
        rw [Tree.mapConstants, Tree.eval?, hvalue, Option.map_some, Scalar.powInt_eq_zpow,
          Scalar.power_intCast ((D.holds_intCast _ _).mp hxy)]
    | none =>
      obtain ⟨u, hu, hvalue'⟩ := ihe hy
      refine ⟨.power t u, ?_, ?_⟩
      · rw [resolve, ht, hsmall, hu]
        rfl
      · rw [Tree.mapConstants, Tree.eval?, hvalue, hvalue']
        rfl
  | exponential x ih =>
    rw [mapConstants] at h
    obtain ⟨y, hy, rfl⟩ := hasValue_exponential_iff.mp h
    obtain ⟨t, ht, hvalue⟩ := ih hy
    refine ⟨.exponential t, ?_, ?_⟩
    · rw [resolve, ht]
      rfl
    · rw [Tree.mapConstants, Tree.eval?, hvalue]
      rfl

/-- **Compiling keeps values.**  A formula whose symbols are all among the names of the arguments,
and which has a value at the arguments, is compiled to a program with that value. -/
theorem exists_compile (hexact : StandsFor exact) {f : Formula α} {v : β}
    (h : (f.mapConstants exact).HasValue D (argumentAt names args) v) :
    ∃ p, f.compile names = .ok p ∧ (p.mapConstants exact).eval? args = some v := by
  obtain ⟨t, ht, hvalue⟩ := compiles_of_hasValue hexact h
  refine ⟨⟨names.length, t⟩, ?_, hvalue⟩
  rw [compile, ht]
  rfl

end Formula

end SphereLab
