import Mathlib
import SphereLab.Proofs.Formula.Powers
import SphereLab.Proofs.Formula.Symbols
import SphereLab.Proofs.Formula.Rounded

/-!
# Substitutions in a row

A substitution simplifies as it goes, so a second substitution finds a formula that has been
flattened, folded and merged.  Over exact scalars that makes no difference: two substitutions in a
row come to the same formula as one, which puts in the values of the first with the second carried
out in them.

Two provisos are needed, and both are about the powers that are taken on the way.  No zero may be
taken to a negative power, since nothing is said about what that is; and no exponents may be merged
into one that is too large to be known as an integer.

* `AtPowers`: what holds at every power that a substitution takes.
* `atPowers_sumOf_iff`, `atPowers_productOf_iff`: simplified sums keep all powers of their terms,
  and products those of their factors, unless a zero absorbs them.
* `atPowers_of_powConst`, `substitute_powConst`: the same of powers, and substitution goes through
  them.
* `substitute_substitute`: two substitutions in a row, by induction over the formula.
* `substituteAll_substituteAll`: the same of finite maps, with what follows from it.
-/

namespace SphereLab

namespace Formula

variable {α : Type}

/-! ## The powers of a substitution -/

section Powers

variable [Scalar α]

mutual

/-- Something holds of the base and the exponent of every power at a constant exponent that is taken
when symbols are replaced. -/
def AtPowers (P : Formula α → α → Prop) (σ : String → Option (Formula α)) : Formula α → Prop
  | .const _ => True
  | .symbol _ => True
  | .sum ts => AtPowersEach P σ ts
  | .product fs => AtPowersEach P σ fs
  | .power b e => AtPowers P σ b ∧ AtPowers P σ e ∧
      ∀ c, substitute σ e = .const c → P (substitute σ b) c
  | .exponential x => AtPowers P σ x

/-- The same of several formulas. -/
def AtPowersEach (P : Formula α → α → Prop) (σ : String → Option (Formula α)) :
    List (Formula α) → Prop
  | [] => True
  | f :: fs => AtPowers P σ f ∧ AtPowersEach P σ fs

end

/-- Two substitutions as one: the values of the first with the second carried out in them, and
beside them the values of the second. -/
def composed (s t : String → Option (Formula α)) (x : String) : Option (Formula α) :=
  ((s x).map (substitute t)).or (t x)

variable {P : Formula α → α → Prop} {σ : String → Option (Formula α)}

theorem atPowersEach_iff {fs : List (Formula α)} :
    AtPowersEach P σ fs ↔ ∀ f ∈ fs, AtPowers P σ f := by
  induction fs with
  | nil => exact iff_of_true trivial fun f hf => absurd hf List.not_mem_nil
  | cons f fs ih => exact (and_congr_right fun _ => ih).trans List.forall_mem_cons.symm

@[simp] theorem atPowers_const (c : α) : AtPowers P σ (.const c) := trivial

theorem atPowers_sum_iff {ts : List (Formula α)} :
    AtPowers P σ (.sum ts) ↔ ∀ t ∈ ts, AtPowers P σ t := atPowersEach_iff

theorem atPowers_product_iff {fs : List (Formula α)} :
    AtPowers P σ (.product fs) ↔ ∀ f ∈ fs, AtPowers P σ f := atPowersEach_iff

theorem atPowers_power_iff {b e : Formula α} :
    AtPowers P σ (.power b e) ↔ AtPowers P σ b ∧ AtPowers P σ e ∧
      ∀ c, substitute σ e = .const c → P (substitute σ b) c := Iff.rfl

theorem atPowers_power_const_iff {b : Formula α} {c : α} :
    AtPowers P σ (.power b (.const c)) ↔ AtPowers P σ b ∧ P (substitute σ b) c := by
  rw [atPowers_power_iff]
  constructor
  · rintro ⟨hb, -, hc⟩
    exact ⟨hb, hc c rfl⟩
  · rintro ⟨hb, hc⟩
    refine ⟨hb, trivial, fun d hd => ?_⟩
    rwa [← Formula.const.inj hd]

theorem atPowers_iff_terms {f : Formula α} : AtPowers P σ f ↔ ∀ t ∈ f.terms, AtPowers P σ t := by
  cases f with
  | sum ts => exact atPowers_sum_iff
  | const c | symbol c | product c | power c d | exponential c =>
    exact List.forall_mem_singleton.symm

theorem atPowers_iff_factors {f : Formula α} :
    AtPowers P σ f ↔ ∀ g ∈ f.factors, AtPowers P σ g := by
  cases f with
  | product fs => exact atPowers_product_iff
  | const c | symbol c | sum c | power c d | exponential c => exact List.forall_mem_singleton.symm

/-- The powers of formulas are those of the terms that are spliced in and are no constants. -/
theorem forall_openTerms_iff {fs : List (Formula α)} :
    (∀ t ∈ openTerms fs, AtPowers P σ t) ↔ ∀ f ∈ fs, AtPowers P σ f := by
  constructor
  · intro h f hf
    refine atPowers_iff_terms.mpr fun t ht => ?_
    cases hvalue : t.const? with
    | some c => exact eq_const_of_const?_eq_some hvalue ▸ atPowers_const c
    | none => exact h t (List.mem_filter.mpr ⟨List.mem_flatMap.mpr ⟨f, hf, ht⟩, by simp [hvalue]⟩)
  · intro h t ht
    obtain ⟨f, hf, htf⟩ := List.mem_flatMap.mp (List.mem_of_mem_filter ht)
    exact atPowers_iff_terms.mp (h f hf) t htf

/-- The powers of formulas are those of the factors that are spliced in and are no constants. -/
theorem forall_openFactors_iff {fs : List (Formula α)} :
    (∀ g ∈ openFactors fs, AtPowers P σ g) ↔ ∀ f ∈ fs, AtPowers P σ f := by
  constructor
  · intro h f hf
    refine atPowers_iff_factors.mpr fun g hg => ?_
    cases hvalue : g.const? with
    | some c => exact eq_const_of_const?_eq_some hvalue ▸ atPowers_const c
    | none => exact h g (List.mem_filter.mpr ⟨List.mem_flatMap.mpr ⟨f, hf, hg⟩, by simp [hvalue]⟩)
  · intro h g hg
    obtain ⟨f, hf, hgf⟩ := List.mem_flatMap.mp (List.mem_of_mem_filter hg)
    exact atPowers_iff_factors.mp (h f hf) g hgf

end Powers

section Exact

variable [ExactScalar α] {P : Formula α → α → Prop} {σ : String → Option (Formula α)}

/-- A simplified sum has the powers of its terms. -/
theorem atPowers_sumOf_iff {fs : List (Formula α)} (hfs : ∀ f ∈ fs, f.IsNormal) :
    AtPowers P σ (sumOf fs) ↔ ∀ f ∈ fs, AtPowers P σ f := by
  rw [← forall_openTerms_iff, ← (parts_sumOf hfs).1, forall_openTerms_iff,
    List.forall_mem_singleton]

/-- A simplified product has the powers of its factors, unless they have been absorbed by a zero. -/
theorem atPowers_productOf_iff {fs : List (Formula α)} (hfs : ∀ f ∈ fs, f.IsNormal)
    (hne : coefficient fs ≠ 0) : AtPowers P σ (productOf fs) ↔ ∀ f ∈ fs, AtPowers P σ f := by
  rw [← forall_openFactors_iff, ← (parts_productOf hfs).2 hne, forall_openFactors_iff,
    List.forall_mem_singleton]

/-! ## Powers of powers -/

section Power

variable {f b : Formula α} {c i : α}

/-- A power that does not merge, unless it is the first. -/
theorem powConst_eq_self_or_power (hconst : f.const? = none)
    (hbase : Scalar.isInteger c = true → f.Unmerged) (hzero : c ≠ 0) :
    c = 1 ∧ powConst f c = f ∨ c ≠ 1 ∧ powConst f c = power f (const c) := by
  by_cases hone : c = 1
  · exact Or.inl ⟨hone, by rw [hone, powConst_one]⟩
  · exact Or.inr ⟨hone, powConst_eq_power (by rwa [ExactScalar.beq_iff_eq])
      (by rwa [ExactScalar.beq_iff_eq]) hconst hbase⟩

/-- The powers of a power that does not merge. -/
theorem atPowers_powConst_iff (hP : ∀ f, P f 1) (hconst : f.const? = none)
    (hbase : Scalar.isInteger c = true → f.Unmerged) (hzero : c ≠ 0) :
    AtPowers P σ (powConst f c) ↔ AtPowers P σ f ∧ P (substitute σ f) c := by
  rcases powConst_eq_self_or_power hconst hbase hzero with ⟨hone, hpow⟩ | ⟨-, hpow⟩
  · rw [hpow, hone]
    exact (and_iff_left (hP _)).symm
  · rw [hpow, atPowers_power_const_iff]

/-- Substitution goes through a power that does not merge. -/
theorem substitute_powConst_of_unmerged (hconst : f.const? = none)
    (hbase : Scalar.isInteger c = true → f.Unmerged) :
    substitute σ (powConst f c) = powConst (substitute σ f) c := by
  by_cases hzero : c = 0
  · rw [hzero, powConst_zero, powConst_zero, substitute]
  · rcases powConst_eq_self_or_power hconst hbase hzero with ⟨hone, hpow⟩ | ⟨-, hpow⟩
    · rw [hpow, hone, powConst_one]
    · rw [hpow]
      rfl

/-- A power of a constant is a constant. -/
theorem exists_powConst_const (v c : α) : ∃ w, powConst (const v) c = const w := by
  rw [powConst]
  split_ifs
  · exact ⟨1, rfl⟩
  · exact ⟨v, rfl⟩
  · exact ⟨Scalar.pow v c, rfl⟩

theorem zeroSafe_one (f : Formula α) : ZeroSafe f (1 : α) := fun _ => zero_le_one

/-- An integer power of a factor that is not zero is not zero. -/
theorem powConst_ne_zero (h : f.IsNormal) (hproduct : ¬f.IsProduct) (hne : f ≠ const 0)
    (hc : Scalar.isInteger c = true) : powConst f c ≠ const 0 := by
  have hunmerged : ∀ {b : Formula α} {e : α}, b.const? = none → b.Unmerged →
      powConst b e ≠ const 0 := by
    intro b e hconst hb
    by_cases hzero : e = 0
    · rw [hzero, powConst_zero]
      exact fun h => one_ne_zero (Formula.const.inj h)
    · rcases powConst_eq_self_or_power hconst (fun _ => hb) hzero with ⟨-, hpow⟩ | ⟨-, hpow⟩
      · rw [hpow]
        rintro rfl
        exact absurd hconst (by simp)
      · rw [hpow]
        exact fun h => by cases h
  rcases factor_cases h hproduct with ⟨v, rfl⟩ | ⟨hconst, hf⟩ |
    ⟨b, j, rfl, hj, hzero, hone, -, hbconst, hb⟩
  · obtain ⟨n, -, rfl⟩ := Scalar.isInteger_iff.mp hc
    have hv : v ≠ 0 := fun hv => hne (congrArg const hv)
    rw [powConst_const (Or.inl hv)]
    exact fun h => zpow_ne_zero n hv (Formula.const.inj h)
  · exact hunmerged hconst hf
  · rw [powConst_power hbconst hb hzero hone hj hc]
    exact hunmerged hbconst hb

theorem coefficient_powers_ne_zero (h : f.IsNormal) (hne : f ≠ const 0)
    (hc : Scalar.isInteger c = true) : coefficient (f.factors.map (powConst · c)) ≠ 0 := by
  intro hzero
  have hmem : const 0 ∈ f.factors.map (powConst · c) :=
    zero_mem_of_coefficient (List.forall_mem_map.mpr fun g hg =>
      isNormal_powConst c (isNormal_of_mem_factors h hg).1) hzero
  obtain ⟨g, hg, hpow⟩ := List.mem_map.mp hmem
  obtain ⟨hnormal, hproduct⟩ := isNormal_of_mem_factors h hg
  refine powConst_ne_zero hnormal hproduct ?_ hc hpow
  rintro rfl
  exact hne (eq_zero_of_mem_factors h hg)

/-! ## Substitution goes through powers -/

variable {t : String → Option (Formula α)}

/-- The exponents that are merged in a power have been merged before, or are parts of them. -/
theorem atPowers_of_powConst_factor (h : f.IsNormal) (hproduct : ¬f.IsProduct)
    (hc : Scalar.isInteger c = true) (hne : c ≠ 0)
    (hcomposes : ∀ b j, f = power b (const j) → Scalar.isInteger j = true →
      Scalar.isInteger (j * c) = true)
    (hpow : AtPowers Composes t (powConst f c)) : AtPowers Composes t f := by
  rcases factor_cases h hproduct with ⟨v, rfl⟩ | ⟨hconst, hf⟩ |
    ⟨b, j, rfl, hj, hzero, hone, -, hbconst, hb⟩
  · exact atPowers_const v
  · exact ((atPowers_powConst_iff (fun _ => composes_one) hconst (fun _ => hf) hne).mp hpow).1
  · rw [powConst_power hbconst hb hzero hone hj hc,
      atPowers_powConst_iff (fun _ => composes_one) hbconst (fun _ => hb) (mul_ne_zero hzero hne)]
      at hpow
    have hjc := hcomposes b j rfl hj
    exact atPowers_power_const_iff.mpr ⟨hpow.1, hpow.2.of_mul hj hc hne hjc⟩

/-- The exponents that are merged on the way to a formula are no more than on the way to its
power. -/
theorem atPowers_of_powConst (h : f.IsNormal) (hne : c ≠ 0) (hcomposes : Composes f c)
    (hpow : AtPowers Composes t (powConst f c)) : AtPowers Composes t f := by
  cases hvalue : f.const? with
  | some v => exact eq_const_of_const?_eq_some hvalue ▸ atPowers_const v
  | none =>
    by_cases hc : Scalar.isInteger c = true
    · have hfne : f ≠ const 0 := fun hf => by simp [hf] at hvalue
      rw [powConst_eq_productOf h hc, atPowers_productOf_iff
        (List.forall_mem_map.mpr fun g hg => isNormal_powConst c (isNormal_of_mem_factors h hg).1)
        (coefficient_powers_ne_zero h hfne hc), List.forall_mem_map] at hpow
      refine atPowers_iff_factors.mpr fun g hg => ?_
      obtain ⟨hnormal, hproduct⟩ := isNormal_of_mem_factors h hg
      exact atPowers_of_powConst_factor hnormal hproduct hc hne
        (fun b j hgb => hcomposes hc b j (hgb ▸ hg)) (hpow g hg)
    · exact ((atPowers_powConst_iff (fun _ => composes_one) hvalue (fun hi => absurd hi hc) hne).mp
        hpow).1

variable (ht : ∀ x g, t x = some g → g.IsNormal)
include ht

/-- Substitution goes through the power of a factor, and takes no zero to a negative power there. -/
theorem substitute_powConst_factor (h : f.IsNormal) (hproduct : ¬f.IsProduct)
    (hc : Scalar.isInteger c = true) (hne : c ≠ 0)
    (hcomposes : ∀ b j, f = power b (const j) → Scalar.isInteger j = true →
      Scalar.isInteger (j * c) = true)
    (hpow : AtPowers Composes t (powConst f c)) (hzero : AtPowers ZeroSafe t f)
    (hsafe : ZeroSafe (substitute t f) c) :
    substitute t (powConst f c) = powConst (substitute t f) c ∧
      AtPowers ZeroSafe t (powConst f c) := by
  rcases factor_cases h hproduct with ⟨v, rfl⟩ | ⟨hconst, hf⟩ |
    ⟨b, j, rfl, hj, hjzero, hjone, hbnormal, hbconst, hb⟩
  · obtain ⟨n, -, rfl⟩ := Scalar.isInteger_iff.mp hc
    have hv : v ≠ 0 ∨ 0 ≤ n := by
      by_cases hv : v = 0
      · exact Or.inr (by exact_mod_cast hsafe (congrArg const hv))
      · exact Or.inl hv
    rw [powConst_const hv, substitute, substitute, powConst_const hv]
    exact ⟨rfl, atPowers_const _⟩
  · exact ⟨substitute_powConst_of_unmerged hconst fun _ => hf,
      (atPowers_powConst_iff zeroSafe_one hconst (fun _ => hf) hne).mpr ⟨hzero, hsafe⟩⟩
  · have hjc := hcomposes b j rfl hj
    have hjcne : j * c ≠ 0 := mul_ne_zero hjzero hne
    rw [powConst_power hbconst hb hjzero hjone hj hc] at hpow ⊢
    obtain ⟨-, hmerged⟩ :=
      (atPowers_powConst_iff (fun _ => composes_one) hbconst (fun _ => hb) hjcne).mp hpow
    obtain ⟨hbzero, hbsafe⟩ := atPowers_power_const_iff.mp hzero
    have hsub : substitute t (power b (const j)) = powConst (substitute t b) j := rfl
    rw [hsub] at hsafe ⊢
    have hsafe' : ZeroSafe (substitute t b) (j * c) := by
      intro hb'
      -- A zero has stayed a zero under the exponent that is there already.
      obtain ⟨n, -, rfl⟩ := Scalar.isInteger_iff.mp hj
      have hj : (0 : α) ≤ n := hbsafe hb'
      have hn : 0 ≤ n := by exact_mod_cast hj
      have hn' : n ≠ 0 := by exact_mod_cast hjzero
      rw [hb', powConst_const (Or.inr hn), zero_zpow n hn'] at hsafe
      exact mul_nonneg hj (hsafe rfl)
    refine ⟨?_, (atPowers_powConst_iff zeroSafe_one hbconst (fun _ => hb) hjcne).mpr
      ⟨hbzero, hsafe'⟩⟩
    rw [substitute_powConst_of_unmerged hbconst fun _ => hb,
      powConst_powConst (isNormal_substitute ht b) hj hc hjc (hmerged.of_mul hj hc hne hjc) hbsafe
        hsafe]

/-- Substitution goes through the power of a normal formula. -/
theorem substitute_powConst (h : f.IsNormal) (hne : c ≠ 0) (hcomposes : Composes f c)
    (hpow : AtPowers Composes t (powConst f c)) (hzero : AtPowers ZeroSafe t f)
    (hsafe : ZeroSafe (substitute t f) c) :
    substitute t (powConst f c) = powConst (substitute t f) c ∧
      AtPowers ZeroSafe t (powConst f c) := by
  cases hvalue : f.const? with
  | some v =>
    obtain rfl := eq_const_of_const?_eq_some hvalue
    obtain ⟨w, hw⟩ := exists_powConst_const v c
    rw [hw, substitute, substitute, hw]
    exact ⟨rfl, atPowers_const w⟩
  | none =>
    by_cases hc : Scalar.isInteger c = true
    · have hfne : f ≠ const 0 := fun hf => by simp [hf] at hvalue
      have hpowers : ∀ g ∈ f.factors.map (powConst · c), g.IsNormal :=
        List.forall_mem_map.mpr fun g hg => isNormal_powConst c (isNormal_of_mem_factors h hg).1
      have hcoefficient := coefficient_powers_ne_zero h hfne hc
      rw [powConst_eq_productOf h hc] at hpow ⊢
      rw [atPowers_productOf_iff hpowers hcoefficient, List.forall_mem_map] at hpow ⊢
      rw [atPowers_iff_factors] at hzero
      rw [substitute_eq_productOf ht h] at hsafe ⊢
      have hfactor : ∀ g ∈ f.factors,
          substitute t (powConst g c) = powConst (substitute t g) c ∧
            AtPowers ZeroSafe t (powConst g c) := by
        intro g hg
        obtain ⟨hnormal, hproduct⟩ := isNormal_of_mem_factors h hg
        refine substitute_powConst_factor ht hnormal hproduct hc hne
          (fun b j hgb => hcomposes hc b j (hgb ▸ hg)) (hpow g hg) (hzero g hg) fun hg' => ?_
        exact hsafe (productOf_of_zero_mem (hg' ▸ List.mem_map_of_mem hg))
      refine ⟨?_, fun g hg => (hfactor g hg).2⟩
      rw [substitute_productOf_map ht hpowers, powConst_productOf
        (List.forall_mem_map.mpr fun g _ => isNormal_substitute ht g) hc hsafe, List.map_map,
        List.map_map]
      exact congrArg productOf (List.map_congr_left fun g hg => (hfactor g hg).1)
    · have hbase : Scalar.isInteger c = true → f.Unmerged := fun hi => absurd hi hc
      exact ⟨substitute_powConst_of_unmerged hvalue hbase,
        (atPowers_powConst_iff zeroSafe_one hvalue hbase hne).mpr ⟨hzero, hsafe⟩⟩

end Power

/-! ## Two substitutions -/

variable {s t : String → Option (Formula α)}

theorem pow_const_one (e : Formula α) : pow (const 1) e = const 1 := by
  cases hconst : e.const? with
  | some c =>
    obtain rfl := eq_const_of_const?_eq_some hconst
    show powConst (const 1) c = const 1
    rw [powConst, ExactScalar.one_pow]
    split_ifs <;> rfl
  | none =>
    rcases pow_cases (const 1) hconst with ⟨-, -, -, hpow⟩ | ⟨hone, -⟩
    · exact hpow
    · exact absurd rfl (Scalar.beq_eq_false_iff_ne.mp (hone 1 rfl))

theorem atPowers_exp_iff {f : Formula α} : AtPowers P σ (exp f) ↔ AtPowers P σ f := by
  cases f with
  | const c => exact Iff.rfl
  | symbol c | sum c | product c | power c d | exponential c => exact Iff.rfl

variable (hs : ∀ x g, s x = some g → g.IsNormal) (ht : ∀ x g, t x = some g → g.IsNormal)
include hs ht

/-- Two substitutions in a power, given what they come to in the base and in the exponent. -/
theorem substitute_substitute_power {b e : Formula α}
    (hbase : AtPowers Composes t (substitute s b) →
      substitute t (substitute s b) = substitute (composed s t) b ∧
        AtPowers ZeroSafe t (substitute s b))
    (hexponent : AtPowers Composes t (substitute s e) →
      substitute t (substitute s e) = substitute (composed s t) e ∧
        AtPowers ZeroSafe t (substitute s e))
    (hfirst : ∀ c, substitute s e = const c → Composes (substitute s b) c)
    (hsecond : AtPowers Composes t (substitute s (power b e)))
    (hzero : ∀ c, substitute (composed s t) e = const c →
      ZeroSafe (substitute (composed s t) b) c) :
    substitute t (substitute s (power b e)) = substitute (composed s t) (power b e) ∧
      AtPowers ZeroSafe t (substitute s (power b e)) := by
  have hb : (substitute s b).IsNormal := isNormal_substitute hs b
  rw [substitute] at hsecond ⊢
  rw [substitute]
  generalize substitute s b = gb at *
  generalize substitute s e = ge at *
  cases hconst : ge.const? with
  | some c =>
    obtain rfl := eq_const_of_const?_eq_some hconst
    obtain ⟨hexponent, -⟩ := hexponent (atPowers_const c)
    rw [← hexponent] at hzero ⊢
    change AtPowers Composes t (powConst gb c) at hsecond
    show substitute t (powConst gb c) = powConst (substitute (composed s t) b) c ∧
      AtPowers ZeroSafe t (powConst gb c)
    by_cases hc : c = 0
    · rw [hc, powConst_zero, powConst_zero]
      exact ⟨rfl, atPowers_const 1⟩
    · obtain ⟨hbase, hbzero⟩ := hbase (atPowers_of_powConst hb hc (hfirst c rfl) hsecond)
      rw [← hbase] at hzero ⊢
      exact substitute_powConst ht hb hc (hfirst c rfl) hsecond hbzero (hzero c rfl)
  | none =>
    rcases pow_cases gb hconst with ⟨v, rfl, hone, hpow⟩ | ⟨-, hpow⟩
    · obtain rfl := (ExactScalar.beq_iff_eq v 1).mp hone
      obtain ⟨hbase, -⟩ := hbase (atPowers_const 1)
      rw [hpow, ← hbase, substitute, pow_const_one]
      exact ⟨rfl, atPowers_const 1⟩
    · rw [hpow] at hsecond ⊢
      obtain ⟨hgb, hge, -⟩ := atPowers_power_iff.mp hsecond
      obtain ⟨hbase, hbzero⟩ := hbase hgb
      obtain ⟨hexponent, hezero⟩ := hexponent hge
      rw [← hbase, ← hexponent] at hzero ⊢
      exact ⟨rfl, atPowers_power_iff.mpr ⟨hbzero, hezero, hzero⟩⟩

/-- Two substitutions in a row are one, and the second takes no zero to a negative power if the one
does not. -/
theorem substitute_substitute {f : Formula α}
    (hvalues : ∀ x ∈ f.occurrences, ∀ g, s x = some g → AtPowers ZeroSafe t g)
    (hfirst : AtPowers Composes s f) (hsecond : AtPowers Composes t (substitute s f))
    (hzero : AtPowers ZeroSafe (composed s t) f) :
    substitute t (substitute s f) = substitute (composed s t) f ∧
      AtPowers ZeroSafe t (substitute s f) := by
  induction f with
  | const c => exact ⟨rfl, trivial⟩
  | symbol x =>
    rw [substitute, substitute, composed]
    cases hx : s x with
    | none => exact ⟨rfl, trivial⟩
    | some g => exact ⟨rfl, hvalues x (List.mem_singleton_self x) g hx⟩
  | sum ts ih =>
    have hnormal : ∀ g ∈ ts.map (substitute s), g.IsNormal :=
      List.forall_mem_map.mpr fun g _ => isNormal_substitute hs g
    rw [atPowers_sum_iff] at hfirst hzero
    rw [substitute, substituteEach_eq_map] at hsecond ⊢
    rw [atPowers_sumOf_iff hnormal, List.forall_mem_map] at hsecond ⊢
    have hterms : ∀ t' ∈ ts, _ := fun t' h => ih t' h
      (fun x hx => hvalues x (mem_occurrences_sum.mpr ⟨t', h, hx⟩)) (hfirst t' h) (hsecond t' h)
      (hzero t' h)
    refine ⟨?_, fun t' h => (hterms t' h).2⟩
    rw [substitute_sumOf ht hnormal, substitute, substituteEach_eq_map, List.map_map]
    exact congrArg sumOf (List.map_congr_left fun t' h => (hterms t' h).1)
  | product fs ih =>
    have hnormal : ∀ g ∈ fs.map (substitute s), g.IsNormal :=
      List.forall_mem_map.mpr fun g _ => isNormal_substitute hs g
    rw [atPowers_product_iff] at hfirst hzero
    rw [substitute, substituteEach_eq_map] at hsecond ⊢
    have hfactor : ∀ f ∈ fs, AtPowers Composes t (substitute s f) → _ := fun f h hf => ih f h
      (fun x hx => hvalues x (mem_occurrences_product.mpr ⟨f, h, hx⟩)) (hfirst f h) hf (hzero f h)
    by_cases hcoefficient : coefficient (fs.map (substitute s)) = 0
    · -- One factor has become zero, and it stays so whatever the others are.
      obtain ⟨f, hf, hf'⟩ := List.mem_map.mp (zero_mem_of_coefficient hnormal hcoefficient)
      obtain ⟨hsub, -⟩ := hfactor f hf (hf' ▸ atPowers_const 0)
      rw [hf', substitute] at hsub
      rw [productOf_of_coefficient hcoefficient, substitute, substitute, substituteEach_eq_map,
        productOf_of_zero_mem (hsub ▸ List.mem_map_of_mem hf)]
      exact ⟨rfl, atPowers_const 0⟩
    · rw [atPowers_productOf_iff hnormal hcoefficient, List.forall_mem_map] at hsecond ⊢
      refine ⟨?_, fun f h => (hfactor f h (hsecond f h)).2⟩
      rw [substitute_productOf_map ht hnormal, substitute, substituteEach_eq_map, List.map_map]
      exact congrArg productOf (List.map_congr_left fun f h => (hfactor f h (hsecond f h)).1)
  | power b e ihb ihe =>
    obtain ⟨hb, he, hcomposes⟩ := atPowers_power_iff.mp hfirst
    obtain ⟨hbzero, hezero, hsafe⟩ := atPowers_power_iff.mp hzero
    exact substitute_substitute_power hs ht
      (fun h => ihb (fun x hx => hvalues x (mem_occurrences_power.mpr (Or.inl hx))) hb h hbzero)
      (fun h => ihe (fun x hx => hvalues x (mem_occurrences_power.mpr (Or.inr hx))) he h hezero)
      hcomposes hsecond hsafe
  | exponential x ih =>
    rw [substitute, atPowers_exp_iff] at hsecond
    obtain ⟨hsub, hzero⟩ := ih hvalues hfirst hsecond hzero
    rw [substitute, substitute_exp, hsub, atPowers_exp_iff, substitute]
    exact ⟨rfl, hzero⟩

omit hs ht

/-! ## Nothing to replace -/

/-- A normal formula has no power of a constant at a constant exponent. -/
theorem atPowers_zeroSafe_of_not_mem {f : Formula α} (hnormal : f.IsNormal)
    (h : ∀ x ∈ f.occurrences, σ x = none) : AtPowers ZeroSafe σ f := by
  induction f with
  | const c => exact trivial
  | symbol x => exact trivial
  | sum ts ih =>
    exact atPowers_sum_iff.mpr fun t ht => ih t ht ((isNormal_sum_iff.mp hnormal).2 t ht)
      fun x hx => h x (mem_occurrences_sum.mpr ⟨t, ht, hx⟩)
  | product fs ih =>
    exact atPowers_product_iff.mpr fun f hf => ih f hf ((isNormal_product_iff.mp hnormal).2 f hf)
      fun x hx => h x (mem_occurrences_product.mpr ⟨f, hf, hx⟩)
  | power b e ihb ihe =>
    obtain ⟨hshape, hb, he⟩ := isNormal_power_iff.mp hnormal
    have hbsymbols : ∀ x ∈ b.occurrences, σ x = none := fun x hx =>
      h x (mem_occurrences_power.mpr (Or.inl hx))
    have hesymbols : ∀ x ∈ e.occurrences, σ x = none := fun x hx =>
      h x (mem_occurrences_power.mpr (Or.inr hx))
    refine ⟨ihb hb hbsymbols, ihe he hesymbols, fun c hc hzero => ?_⟩
    rw [substitute_of_not_mem unitLaws_of_exact he hesymbols] at hc
    rw [substitute_of_not_mem unitLaws_of_exact hb hbsymbols] at hzero
    rcases hshape.not_both_const with hconst | hconst
    · exact absurd hconst (by simp [hzero])
    · exact absurd hconst (by simp [hc])
  | exponential x ih => exact ih (isNormal_exponential_iff.mp hnormal).2 h

/-- Two substitutions of which neither replaces symbols of the values of the other are carried out
at once. -/
theorem substitute_substitute_of_apart
    (hs : ∀ x g, s x = some g → g.IsNormal ∧ ∀ y ∈ g.occurrences, t y = none)
    (ht : ∀ x g, t x = some g → g.IsNormal) {f : Formula α} (hfirst : AtPowers Composes s f)
    (hsecond : AtPowers Composes t (substitute s f))
    (hzero : AtPowers ZeroSafe (fun x => (s x).or (t x)) f) :
    substitute t (substitute s f) = substitute (fun x => (s x).or (t x)) f := by
  have hcomposed : composed s t = fun x => (s x).or (t x) := by
    funext x
    rw [composed]
    cases hx : s x with
    | none => rfl
    | some g =>
      obtain ⟨hnormal, hsymbols⟩ := hs x g hx
      rw [Option.map_some, substitute_of_not_mem unitLaws_of_exact hnormal hsymbols]
  rw [← hcomposed] at hzero ⊢
  refine (substitute_substitute (fun x g hx => (hs x g hx).1) ht (fun x _ g hx => ?_) hfirst
    hsecond hzero).1
  obtain ⟨hnormal, hsymbols⟩ := hs x g hx
  exact atPowers_zeroSafe_of_not_mem hnormal hsymbols

end Exact

/-! ## Finite maps -/

section Maps

theorem eq_of_lookup_singleton {x y : String} {a g : Formula α}
    (h : [(x, a)].lookup y = some g) : y = x ∧ g = a := by
  rw [List.lookup_cons] at h
  split at h
  · rename_i heq
    exact ⟨beq_iff_eq.mp heq, (Option.some.inj h).symm⟩
  · exact absurd h (by simp)

theorem lookup_map_snd (F : Formula α → Formula α) (s : List (String × Formula α)) (x : String) :
    (s.map fun entry => (entry.1, F entry.2)).lookup x = (s.lookup x).map F := by
  induction s with
  | nil => rfl
  | cons entry s ih =>
    rw [List.map_cons, List.lookup_cons, List.lookup_cons]
    split
    · rfl
    · exact ih

variable [Scalar α]

theorem substituteOne_eq_substituteAll (f : Formula α) (name : String) (g : Formula α) :
    f.substituteOne name g = f.substituteAll [(name, g)] := by
  refine substitute_congr fun s _ => ?_
  by_cases hs : s = name
  · rw [only, if_pos hs, List.lookup_cons, beq_iff_eq.mpr hs]
  · rw [only, if_neg hs, List.lookup_cons, beq_eq_false_iff_ne.mpr hs, List.lookup_nil]

/-- The map of two substitutions in a row: the second is carried out in the values of the first, and
its own values are put in where the first has none. -/
def followedBy (s t : List (String × Formula α)) : List (String × Formula α) :=
  s.map (fun entry => (entry.1, entry.2.substituteAll t)) ++ t

theorem lookup_followedBy (s t : List (String × Formula α)) (x : String) :
    (followedBy s t).lookup x = composed (fun x => s.lookup x) (fun x => t.lookup x) x := by
  rw [followedBy, List.lookup_append, lookup_map_snd fun g => g.substituteAll t]
  rfl

/-- Where a map is put in, no zero is taken to a negative power. -/
def KeepsZeros (map : List (String × Formula α)) (f : Formula α) : Prop :=
  AtPowers ZeroSafe (fun x => map.lookup x) f

/-- Where a map is put in, the exponents that are merged stay small integers. -/
def KeepsIntegers (map : List (String × Formula α)) (f : Formula α) : Prop :=
  AtPowers Composes (fun x => map.lookup x) f

end Maps

section Exact

variable [ExactScalar α] {f : Formula α}

/-- The one substitution of two maps. -/
theorem substituteAll_followedBy {s t : List (String × Formula α)}
    (hs : ∀ x g, s.lookup x = some g → g.IsNormal) (ht : ∀ x g, t.lookup x = some g → g.IsNormal)
    (hvalues : ∀ x ∈ f.occurrences, ∀ g, s.lookup x = some g → KeepsZeros t g)
    (hzero : KeepsZeros (followedBy s t) f) (hfirst : KeepsIntegers s f)
    (hsecond : KeepsIntegers t (f.substituteAll s)) :
    (f.substituteAll s).substituteAll t = f.substituteAll (followedBy s t) := by
  have hlookup := funext (lookup_followedBy s t)
  rw [KeepsZeros, hlookup] at hzero
  rw [substituteAll, substituteAll, substituteAll, hlookup]
  exact (substitute_substitute hs ht hvalues hfirst hsecond hzero).1

/-- Values for two symbols are put in at once if the value that is put in first does not mention the
other symbol. -/
theorem substituteOne_substituteOne {x y : String} {a b : Formula α} (ha : a.IsNormal)
    (hb : b.IsNormal) (hya : y ∉ a.occurrences) (hzero : KeepsZeros [(x, a), (y, b)] f)
    (hfirst : KeepsIntegers [(x, a)] f) (hsecond : KeepsIntegers [(y, b)] (f.substituteOne x a)) :
    (f.substituteOne x a).substituteOne y b = f.substituteAll [(x, a), (y, b)] := by
  rw [substituteOne_eq_substituteAll] at hsecond ⊢
  rw [substituteOne_eq_substituteAll]
  have hlookup : (fun s => ([(x, a)] ++ [(y, b)]).lookup s) =
      fun s => ([(x, a)].lookup s).or ([(y, b)].lookup s) := funext fun s => List.lookup_append
  rw [List.singleton_append] at hlookup
  rw [KeepsZeros, hlookup] at hzero
  rw [substituteAll, substituteAll, substituteAll, hlookup]
  refine substitute_substitute_of_apart (fun s g hs => ?_) (fun s g hs => ?_) hfirst hsecond hzero
  · obtain ⟨-, rfl⟩ := eq_of_lookup_singleton hs
    refine ⟨ha, fun z hz => ?_⟩
    have hne : z ≠ y := fun h => hya (h ▸ hz)
    rw [List.lookup_cons, beq_eq_false_iff_ne.mpr hne, List.lookup_nil]
  · obtain ⟨-, rfl⟩ := eq_of_lookup_singleton hs
    exact hb

/-- **Substitutions compose.**  Over exact scalars two substitutions in a row come to the same
formula as the one substitution that puts in the values of the first with the second carried out in
them.  So simplifying first changes nothing; and values for two symbols, of which neither mentions
the other symbol, may be put in one after the other, in either order, or both at once.  The formula
may be any tree and need not be simplified.  What is asked is that no zero is taken to a negative
power, neither in the one substitution nor within the values of the first, and that the two
substitutions in a row merge no exponents into one that is too large to count as an integer. -/
theorem substituteAll_substituteAll (f : Formula α) :
    (∀ s t : List (String × Formula α), (∀ x g, s.lookup x = some g → g.IsNormal) →
      (∀ x g, t.lookup x = some g → g.IsNormal) →
      (∀ x ∈ f.occurrences, ∀ g, s.lookup x = some g → KeepsZeros t g) →
      KeepsZeros (followedBy s t) f →
      KeepsIntegers s f → KeepsIntegers t (f.substituteAll s) →
      (f.substituteAll s).substituteAll t = f.substituteAll (followedBy s t)) ∧
    (∀ t : List (String × Formula α), (∀ x g, t.lookup x = some g → g.IsNormal) →
      KeepsZeros t f → KeepsIntegers [] f → KeepsIntegers t (f.substituteAll []) →
      (f.substituteAll []).substituteAll t = f.substituteAll t) ∧
    ∀ (x y : String) (a b : Formula α), x ≠ y → a.IsNormal → b.IsNormal →
      y ∉ a.occurrences → x ∉ b.occurrences →
      KeepsZeros [(x, a), (y, b)] f →
      KeepsIntegers [(x, a)] f → KeepsIntegers [(y, b)] (f.substituteOne x a) →
      KeepsIntegers [(y, b)] f → KeepsIntegers [(x, a)] (f.substituteOne y b) →
      (f.substituteOne x a).substituteOne y b = f.substituteAll [(x, a), (y, b)] ∧
        (f.substituteOne y b).substituteOne x a = f.substituteAll [(x, a), (y, b)] := by
  refine ⟨fun s t hs ht hvalues hzero hfirst hsecond =>
    substituteAll_followedBy hs ht hvalues hzero hfirst hsecond, ?_, ?_⟩
  · intro t ht hzero hfirst hsecond
    have hnone : ∀ x g, ([] : List (String × Formula α)).lookup x = some g → False :=
      fun x g h => absurd h (by simp)
    exact substituteAll_followedBy (fun x g h => (hnone x g h).elim) ht
      (fun x _ g h => (hnone x g h).elim) hzero hfirst hsecond
  · intro x y a b hxy ha hb hya hxb hzero hfirst hsecond hfirst' hsecond'
    have hswap : ∀ z, [(x, a), (y, b)].lookup z = [(y, b), (x, a)].lookup z := by
      intro z
      by_cases hx : z = x
      · rw [List.lookup_cons, List.lookup_cons, List.lookup_cons, List.lookup_cons,
          beq_iff_eq.mpr hx, beq_eq_false_iff_ne.mpr (hx ▸ hxy)]
      · rw [List.lookup_cons, List.lookup_cons, List.lookup_cons, List.lookup_cons,
          beq_eq_false_iff_ne.mpr hx, List.lookup_nil]
    have hatonce : f.substituteAll [(x, a), (y, b)] = f.substituteAll [(y, b), (x, a)] :=
      substitute_congr fun z _ => hswap z
    refine ⟨substituteOne_substituteOne ha hb hya hzero hfirst hsecond, ?_⟩
    rw [hatonce]
    rw [KeepsZeros, funext hswap] at hzero
    exact substituteOne_substituteOne hb ha hxb hzero hfirst' hsecond'

/-- Two substitutions into an inverse square: the symbol becomes a cube, whose exponent is merged,
and then a number.  The first of them in a sum of one term, simplified before; and the base of a
power renamed and its exponent made a number, in both orders. -/
theorem substituteAll_substituteAll_powers :
    let cube : List (String × Formula ℝ) := [("x", power (symbol "y") (const 3))]
    let two : List (String × Formula ℝ) := [("y", const 2)]
    let square : Formula ℝ := power (symbol "x") (const (-2))
    let f : Formula ℝ := power (symbol "x") (symbol "y")
    (square.substituteAll cube).substituteAll two = square.substituteAll (followedBy cube two) ∧
      ((sum [square]).substituteAll []).substituteAll cube = (sum [square]).substituteAll cube ∧
      (f.substituteOne "x" (symbol "z")).substituteOne "y" (const 3) =
        f.substituteAll [("x", symbol "z"), ("y", const 3)] ∧
      (f.substituteOne "y" (const 3)).substituteOne "x" (symbol "z") =
        f.substituteAll [("x", symbol "z"), ("y", const 3)] := by
  intro cube two square f
  have hsymbol : ∀ x, Unmerged (symbol x : Formula ℝ) := fun x => ⟨id, fun b i h => by cases h⟩
  have hcomposes : ∀ x c, Composes (symbol x : Formula ℝ) c := fun x c _ b i hmem =>
    absurd (List.mem_singleton.mp hmem) (by simp)
  have hpower : ∀ {x} {e : ℝ}, e ≠ 0 → e ≠ 1 →
      powConst (symbol x) e = power (symbol x) (const e) := powConst_of_unmerged rfl (hsymbol _)
  have hthree : Scalar.isInteger (3 : ℝ) = true :=
    Scalar.isInteger_iff.mpr ⟨3, by norm_num, by norm_num⟩
  have hminus : Scalar.isInteger (-2 : ℝ) = true :=
    Scalar.isInteger_iff.mpr ⟨-2, by norm_num, by norm_num⟩
  have hcube : ∀ x g, cube.lookup x = some g → g.IsNormal := by
    intro x g hg
    rw [(eq_of_lookup_singleton hg).2, ← hpower three_ne_zero (by norm_num)]
    exact isNormal_powConst 3 (isNormal_symbol "y")
  have hmerged : KeepsIntegers cube square := by
    refine atPowers_power_const_iff.mpr ⟨trivial, fun _ b i hmem _ => ?_⟩
    have hi : power b (const i) = power (symbol "y") (const 3) := List.mem_singleton.mp hmem
    cases hi
    exact Scalar.isInteger_iff.mpr ⟨-6, by norm_num, by norm_num⟩
  refine ⟨?_, ?_, ?_⟩
  · have height : substitute (fun x => two.lookup x) (power (symbol "y") (const 3)) = const 8 := by
      show powConst (const 2) 3 = const 8
      have h := powConst_const (v := (2 : ℝ)) (n := 3) (Or.inl two_ne_zero)
      norm_num at h
      exact h
    have hsixth : square.substituteAll cube = power (symbol "y") (const (3 * -2)) := by
      show powConst (power (symbol "y") (const 3)) (-2) = _
      rw [powConst_power rfl (hsymbol "y") three_ne_zero (by norm_num) hthree hminus,
        hpower (by norm_num) (by norm_num)]
    refine (substituteAll_substituteAll square).1 cube two hcube ?_ ?_ ?_ hmerged ?_
    · intro x g hg
      exact (eq_of_lookup_singleton hg).2 ▸ isNormal_const 2
    · intro x _ g hg
      rw [(eq_of_lookup_singleton hg).2]
      exact atPowers_power_const_iff.mpr ⟨trivial, fun _ => zero_le_three⟩
    · refine atPowers_power_const_iff.mpr ⟨trivial, fun h => ?_⟩
      have h8 : (const 8 : Formula ℝ) = const 0 := height.symm.trans h
      exact absurd (Formula.const.inj h8) (by norm_num)
    · rw [hsixth]
      refine atPowers_power_const_iff.mpr ⟨trivial, fun _ b i hmem _ => ?_⟩
      have hi : power b (const i) = const 2 := List.mem_singleton.mp hmem
      cases hi
  · have hsquare : powConst (symbol "x") (-2 : ℝ) = square := hpower (by norm_num) (by norm_num)
    have hsimplified : (sum [square]).substituteAll [] = square := by
      show sumOf [powConst (symbol "x") (-2)] = square
      rw [sumOf_singleton (isNormal_powConst (-2) (isNormal_symbol "x")), hsquare]
    refine (substituteAll_substituteAll (sum [square])).2.1 cube hcube ?_ ?_ ?_
    · exact atPowers_sum_iff.mpr (List.forall_mem_singleton.mpr
        (atPowers_power_const_iff.mpr ⟨trivial, fun h => by cases h⟩))
    · exact atPowers_sum_iff.mpr (List.forall_mem_singleton.mpr
        (atPowers_power_const_iff.mpr ⟨trivial, hcomposes "x" (-2)⟩))
    · rw [hsimplified]
      exact hmerged
  · have hthird : f.substituteOne "y" (const 3) = power (symbol "x") (const 3) :=
      hpower three_ne_zero (by norm_num)
    refine (substituteAll_substituteAll f).2.2 "x" "y" (symbol "z") (const 3) (by decide)
      (isNormal_symbol "z") (isNormal_const 3) (by simp [occurrences]) List.not_mem_nil
      ?_ ?_ ?_ ?_ ?_
    · exact ⟨trivial, trivial, fun c _ h => by cases h⟩
    · exact ⟨trivial, trivial, fun c h => by cases h⟩
    · exact ⟨trivial, trivial, fun c _ => hcomposes "z" c⟩
    · exact ⟨trivial, trivial, fun c _ => hcomposes "x" c⟩
    · rw [hthird]
      exact ⟨trivial, trivial, fun c _ => hcomposes "z" c⟩

end Exact

end Formula

end SphereLab
