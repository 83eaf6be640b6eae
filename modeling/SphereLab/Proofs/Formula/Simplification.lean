import Mathlib
import SphereLab.Proofs.Formula.Value

/-!
# Simplification keeps values

Whatever an operation means on the values of its operands, the simplified formula that it builds
has that value: simplifying introduces no unbound symbol and no division by zero.

* `hasValue_sumOf`, `hasValue_productOf`: constants may be collected, since they only change
  places (`exists_perm_of_haveValues`).
* `hasValue_powConst`: the rules for powers, one by one.
* `hasValue_substitute`: substituting and simplifying on the way up is evaluating in an updated
  environment.
-/

namespace SphereLab

namespace Formula

variable {α : Type} [ExactScalar α] {D : PowerDomain α} {env : String → Option α}

/-! ## Splicing and collecting constants -/

theorem haveValues_pair {f g : Formula α} {x y : α} (hf : f.HasValue D env x)
    (hg : g.HasValue D env y) : HaveValues D env [f, g] [x, y] := .cons hf (.cons hg .nil)

theorem hasValue_const (c : α) : (const c).HasValue D env c := hasValue_const_iff.mpr rfl

/-- What changes every member and its value changes all of them. -/
theorem haveValues_map {env' : String → Option α} {F : Formula α → Formula α} {G : α → α}
    {fs : List (Formula α)} {vs : List α} (h : HaveValues D env' fs vs)
    (hstep : ∀ f ∈ fs, ∀ v ∈ vs, f.HasValue D env' v → (F f).HasValue D env (G v)) :
    HaveValues D env (fs.map F) (vs.map G) := by
  induction h with
  | nil => exact .nil
  | @cons f v fs vs hf hfs ih =>
    refine .cons (hstep f List.mem_cons_self v List.mem_cons_self hf) (ih fun g hg w hw => ?_)
    exact hstep g (List.mem_cons_of_mem f hg) w (List.mem_cons_of_mem v hw)

/-- Collecting the constants of a list only permutes its values. -/
theorem exists_perm_of_haveValues {fs : List (Formula α)} {vs : List α}
    (h : HaveValues D env fs vs) : ∃ ws, HaveValues D env (fs.filter (·.const?.isNone)) ws ∧
      vs.Perm (fs.filterMap const? ++ ws) := by
  induction h with
  | nil => exact ⟨[], .nil, .nil⟩
  | @cons f v fs vs hf hfs ih =>
    obtain ⟨ws, hws, hperm⟩ := ih
    cases hconst : f.const? with
    | some c =>
      have hv : c = v := by
        rw [eq_const_of_const?_eq_some hconst] at hf
        exact hasValue_const_iff.mp hf
      rw [List.filter_cons_of_neg (by rw [hconst]; simp), List.filterMap_cons_some hconst, hv]
      exact ⟨ws, hws, hperm.cons v⟩
    | none =>
      rw [List.filter_cons_of_pos (by rw [hconst]; rfl), List.filterMap_cons_none hconst]
      exact ⟨v :: ws, .cons hf hws, (hperm.cons v).trans List.perm_middle.symm⟩

/-! ## Sums -/

theorem exists_haveValues_terms {f : Formula α} {v : α} (h : f.HasValue D env v) :
    ∃ vs, HaveValues D env f.terms vs ∧ vs.sum = v := by
  cases f with
  | sum ts => exact hasValue_sum_iff.mp h
  | const c | symbol c | product c | power c d | exponential c =>
    exact ⟨[v], .cons h .nil, List.sum_singleton⟩

theorem exists_haveValues_flatMap_terms {fs : List (Formula α)} {vs : List α}
    (h : HaveValues D env fs vs) :
    ∃ ws, HaveValues D env (fs.flatMap terms) ws ∧ ws.sum = vs.sum := by
  induction h with
  | nil => exact ⟨[], .nil, rfl⟩
  | cons hf hfs ih =>
    obtain ⟨ws, hws, hsum⟩ := ih
    obtain ⟨us, hus, hterms⟩ := exists_haveValues_terms hf
    rw [List.flatMap_cons]
    refine ⟨us ++ ws, List.rel_append hus hws, ?_⟩
    rw [List.sum_append, hterms, hsum, List.sum_cons]

theorem hasValue_ofTerms {ts : List (Formula α)} {vs : List α} (h : HaveValues D env ts vs) :
    (ofTerms ts).HasValue D env vs.sum := by
  match h with
  | .nil => exact hasValue_const 0
  | .cons ht .nil => rwa [List.sum_singleton]
  | .cons ht (.cons hu hus) => exact hasValue_sum_iff.mpr ⟨_, .cons ht (.cons hu hus), rfl⟩

/-- The simplified sum has the value of the sum. -/
theorem hasValue_sumOf {fs : List (Formula α)} {vs : List α} (h : HaveValues D env fs vs) :
    (sumOf fs).HasValue D env vs.sum := by
  obtain ⟨us, hus, hsum⟩ := exists_haveValues_flatMap_terms h
  obtain ⟨ws, hws, hperm⟩ := exists_perm_of_haveValues hus
  have hvalue : ((fs.flatMap terms).filterMap const?).sum + ws.sum = vs.sum := by
    rw [← hsum, hperm.sum_eq, List.sum_append]
  rw [sumOf, ← List.sum_eq_foldl]
  split
  · rename_i hzero
    rw [(ExactScalar.beq_iff_eq _ _).mp hzero, zero_add] at hvalue
    rw [← hvalue]
    exact hasValue_ofTerms hws
  · have hlast : HaveValues D env [const ((fs.flatMap terms).filterMap const?).sum]
        [((fs.flatMap terms).filterMap const?).sum] := .cons (hasValue_const _) .nil
    have hall := hasValue_ofTerms (List.rel_append hws hlast)
    rwa [List.sum_append, List.sum_singleton, add_comm, hvalue] at hall

/-! ## Products -/

theorem exists_haveValues_factors {f : Formula α} {v : α} (h : f.HasValue D env v) :
    ∃ vs, HaveValues D env f.factors vs ∧ vs.prod = v := by
  cases f with
  | product fs => exact hasValue_product_iff.mp h
  | const c | symbol c | sum c | power c d | exponential c =>
    exact ⟨[v], .cons h .nil, List.prod_singleton⟩

theorem exists_haveValues_flatMap_factors {fs : List (Formula α)} {vs : List α}
    (h : HaveValues D env fs vs) :
    ∃ ws, HaveValues D env (fs.flatMap factors) ws ∧ ws.prod = vs.prod := by
  induction h with
  | nil => exact ⟨[], .nil, rfl⟩
  | cons hf hfs ih =>
    obtain ⟨ws, hws, hprod⟩ := ih
    obtain ⟨us, hus, hfactors⟩ := exists_haveValues_factors hf
    rw [List.flatMap_cons]
    refine ⟨us ++ ws, List.rel_append hus hws, ?_⟩
    rw [List.prod_append, hfactors, hprod, List.prod_cons]

theorem hasValue_ofFactors {fs : List (Formula α)} {vs : List α} (h : HaveValues D env fs vs) :
    (ofFactors fs).HasValue D env vs.prod := by
  match h with
  | .nil => exact hasValue_const 1
  | .cons hf .nil => rwa [List.prod_singleton]
  | .cons hf (.cons hg hgs) => exact hasValue_product_iff.mpr ⟨_, .cons hf (.cons hg hgs), rfl⟩

/-- The simplified product has the value of the product; a zero coefficient may discard symbols,
which were bound. -/
theorem hasValue_productOf {fs : List (Formula α)} {vs : List α} (h : HaveValues D env fs vs) :
    (productOf fs).HasValue D env vs.prod := by
  obtain ⟨us, hus, hprod⟩ := exists_haveValues_flatMap_factors h
  obtain ⟨ws, hws, hperm⟩ := exists_perm_of_haveValues hus
  have hvalue : ((fs.flatMap factors).filterMap const?).prod * ws.prod = vs.prod := by
    rw [← hprod, hperm.prod_eq, List.prod_append]
  rw [productOf, ← List.prod_eq_foldl]
  split
  · rename_i hzero
    rw [(ExactScalar.beq_iff_eq _ _).mp hzero, zero_mul] at hvalue
    rw [← hvalue]
    exact hasValue_const 0
  · split
    · rename_i hone
      rw [(ExactScalar.beq_iff_eq _ _).mp hone, one_mul] at hvalue
      rw [← hvalue]
      exact hasValue_ofFactors hws
    · rw [← hvalue, ← List.prod_cons]
      exact hasValue_ofFactors (.cons (hasValue_const _) hws)

/-! ## Powers and exponentials -/

/-- An integer power of a product is the product of the powers. -/
theorem prod_map_power {vs : List α} {n : ℤ} (h : vs.prod ≠ 0 ∨ 0 ≤ n) :
    (vs.map (Scalar.power · (n : α))).prod = Scalar.power vs.prod (n : α) := by
  have hpowers : vs.map (Scalar.power · (n : α)) = vs.map (· ^ n) := by
    refine List.map_congr_left fun v hv => Scalar.power_intCast (h.imp (fun hne hzero => ?_) id)
    rw [hzero] at hv
    exact hne (List.prod_eq_zero hv)
  rw [hpowers, Scalar.power_intCast h, List.prod_zpow]

/-- A power at a constant exponent keeps its value under every rule. -/
theorem hasValue_powConst {f : Formula α} {e x : α} (hf : f.HasValue D env x)
    (hdomain : D.holds x e) : (powConst f e).HasValue D env (Scalar.power x e) := by
  induction f, e using powConst_induction generalizing x with
  | zero f e hzero =>
    rw [(ExactScalar.beq_iff_eq _ _).mp hzero, Scalar.power_zero]
    exact hasValue_const 1
  | one f e _ hone =>
    rwa [(ExactScalar.beq_iff_eq _ _).mp hone, Scalar.power_one]
  | const b e =>
    obtain rfl := hasValue_const_iff.mp hf
    rw [D.power_eq_pow hdomain]
    exact hasValue_const _
  | product fs e _ _ hint ih =>
    obtain ⟨vs, hvs, rfl⟩ := hasValue_product_iff.mp hf
    obtain ⟨n, _, rfl⟩ := Scalar.isInteger_iff.mp hint
    have hn := (D.holds_intCast _ n).mp hdomain
    rw [← prod_map_power hn]
    refine hasValue_productOf (haveValues_map hvs fun f hf v hv hfv => ih f hf hfv ?_)
    -- a product that is not zero has no factor that is
    refine (D.holds_intCast v n).mpr (hn.imp (fun hne hzero => ?_) id)
    rw [hzero] at hv
    exact hne (List.prod_eq_zero hv)
  | power b i e _ _ hint hi ih =>
    obtain ⟨y, w, hy, hw, hinner, rfl⟩ := hasValue_power_iff.mp hf
    obtain rfl := hasValue_const_iff.mp hw
    obtain ⟨n, _, rfl⟩ := Scalar.isInteger_iff.mp hint
    obtain ⟨m, _, rfl⟩ := Scalar.isInteger_iff.mp hi
    have hm := (D.holds_intCast _ m).mp hinner
    rw [Scalar.power_intCast hm] at hdomain ⊢
    have hn := (D.holds_intCast _ n).mp hdomain
    have hmn : y ≠ 0 ∨ 0 ≤ m * n := by
      by_cases hy0 : y = 0
      · have hm0 : 0 ≤ m := hm.resolve_left (not_not.mpr hy0)
        rcases hm0.eq_or_lt with rfl | hpos
        · exact Or.inr (by rw [zero_mul])
        · have hzero : y ^ m = 0 := by rw [hy0, zero_zpow _ hpos.ne']
          exact Or.inr (mul_nonneg hm0 (hn.resolve_left (not_not.mpr hzero)))
      · exact Or.inl hy0
    have hvalue : Scalar.power y ((m : α) * (n : α)) = Scalar.power (y ^ m) (n : α) := by
      rw [← Int.cast_mul, Scalar.power_intCast hmn, Scalar.power_intCast hn, zpow_mul]
    rw [← hvalue]
    refine ih hy ?_
    rw [← Int.cast_mul]
    exact (D.holds_intCast y (m * n)).mpr hmn
  | other f e =>
    exact hasValue_power_iff.mpr ⟨x, e, hf, hasValue_const e, hdomain, rfl⟩

theorem hasValue_pow {f g : Formula α} {x y : α} (hf : f.HasValue D env x)
    (hg : g.HasValue D env y) (hdomain : D.holds x y) :
    (pow f g).HasValue D env (Scalar.power x y) := by
  cases hconst : g.const? with
  | some c =>
    rw [eq_const_of_const?_eq_some hconst] at hg ⊢
    obtain rfl := hasValue_const_iff.mp hg
    exact hasValue_powConst hf hdomain
  | none =>
    rcases pow_cases f hconst with ⟨c, rfl, hc, hpow⟩ | ⟨_, hpow⟩
    · obtain rfl := hasValue_const_iff.mp hf
      rw [hpow, (ExactScalar.beq_iff_eq _ _).mp hc, Scalar.one_power]
      exact hasValue_const 1
    · rw [hpow]
      exact hasValue_power_iff.mpr ⟨x, y, hf, hg, hdomain, rfl⟩

theorem hasValue_exp {f : Formula α} {x : α} (hf : f.HasValue D env x) :
    (exp f).HasValue D env (Scalar.exp x) := by
  cases hconst : f.const? with
  | some c =>
    rw [eq_const_of_const?_eq_some hconst] at hf ⊢
    obtain rfl := hasValue_const_iff.mp hf
    exact hasValue_const _
  | none =>
    rw [exp_of_const?_eq_none hconst]
    exact hasValue_exponential_iff.mpr ⟨x, hf, rfl⟩

theorem hasValue_add {f g : Formula α} {x y : α} (hf : f.HasValue D env x)
    (hg : g.HasValue D env y) : (add f g).HasValue D env (x + y) := by
  have h := hasValue_sumOf (haveValues_pair hf hg)
  rwa [List.sum_cons, List.sum_singleton] at h

theorem hasValue_mul {f g : Formula α} {x y : α} (hf : f.HasValue D env x)
    (hg : g.HasValue D env y) : (mul f g).HasValue D env (x * y) := by
  have h := hasValue_productOf (haveValues_pair hf hg)
  rwa [List.prod_cons, List.prod_singleton] at h

theorem hasValue_neg {f : Formula α} {x : α} (hf : f.HasValue D env x) :
    (-f).HasValue D env (-x) := by
  rw [← neg_one_mul]
  exact hasValue_mul (hasValue_const (-1)) hf

theorem hasValue_recip {f : Formula α} {x : α} (hf : f.HasValue D env x) (hx : x ≠ 0) :
    f.recip.HasValue D env x⁻¹ := by
  have h := hasValue_powConst hf (D.holds_neg_one hx)
  have hcast : ((-1 : ℤ) : α) = -1 := by rw [Int.cast_neg, Int.cast_one]
  rwa [← hcast, Scalar.power_intCast (Or.inl hx), zpow_neg_one, hcast] at h

/-! ## Operations and substitution -/

/-- The formula that an operation builds has the value that the operation means. -/
theorem Operation.hasValue_result {op : Operation α} {v : α} (h : op.Means D env v) :
    op.result.HasValue D env v := by
  cases op with
  | sum fs =>
    obtain ⟨vs, hvs, rfl⟩ := h
    exact hasValue_sumOf hvs
  | product fs =>
    obtain ⟨vs, hvs, rfl⟩ := h
    exact hasValue_productOf hvs
  | add f g =>
    obtain ⟨x, y, hx, hy, rfl⟩ := h
    exact hasValue_add hx hy
  | addConst f c =>
    obtain ⟨x, hx, rfl⟩ := h
    exact hasValue_add hx (hasValue_const c)
  | constAdd c f =>
    obtain ⟨x, hx, rfl⟩ := h
    exact hasValue_add (hasValue_const c) hx
  | sub f g =>
    obtain ⟨x, y, hx, hy, rfl⟩ := h
    rw [sub_eq_add_neg]
    exact hasValue_add hx (hasValue_neg hy)
  | subConst f c =>
    obtain ⟨x, hx, rfl⟩ := h
    rw [sub_eq_add_neg]
    exact hasValue_add hx (hasValue_const (-c))
  | mul f g =>
    obtain ⟨x, y, hx, hy, rfl⟩ := h
    exact hasValue_mul hx hy
  | scale c f =>
    obtain ⟨x, hx, rfl⟩ := h
    exact hasValue_mul (hasValue_const c) hx
  | div f g =>
    obtain ⟨x, y, hx, hy, hne, rfl⟩ := h
    rw [div_eq_mul_inv]
    exact hasValue_mul hx (hasValue_recip hy hne)
  | divConst f c =>
    obtain ⟨x, hx, _, rfl⟩ := h
    rw [div_eq_inv_mul, ← one_div]
    exact hasValue_mul (hasValue_const (1 / c)) hx
  | neg f =>
    obtain ⟨x, hx, rfl⟩ := h
    exact hasValue_neg hx
  | recip f =>
    obtain ⟨x, hx, hne, rfl⟩ := h
    exact hasValue_recip hx hne
  | pow f g =>
    obtain ⟨x, y, hx, hy, hdomain, rfl⟩ := h
    exact hasValue_pow hx hy hdomain
  | powConst f c =>
    obtain ⟨x, hx, hdomain, rfl⟩ := h
    exact hasValue_powConst hx hdomain
  | powInt f n =>
    obtain ⟨x, hx, hn, rfl⟩ := h
    have hpow := hasValue_powConst hx ((D.holds_intCast x n).mpr hn)
    rw [Scalar.power_intCast hn, ← ExactScalar.ofInt_eq_intCast] at hpow
    exact hpow
  | exp f =>
    obtain ⟨x, hx, rfl⟩ := h
    exact hasValue_exp hx

/-- Substituting keeps the value, if every symbol that is bound has the value of what replaces
it. -/
theorem hasValue_substitute {σ : String → Option (Formula α)} {env' : String → Option α}
    (hσ : ∀ s v, env' s = some v → ((σ s).getD (.symbol s)).HasValue D env v) {f : Formula α}
    {v : α} (h : f.HasValue D env' v) : (substitute σ f).HasValue D env v := by
  induction f generalizing v with
  | const c =>
    obtain rfl := hasValue_const_iff.mp h
    exact hasValue_const c
  | symbol s =>
    rw [substitute]
    exact hσ s v (hasValue_symbol_iff.mp h)
  | sum ts ih =>
    obtain ⟨vs, hvs, rfl⟩ := hasValue_sum_iff.mp h
    have heach := haveValues_map hvs (G := id) fun t ht w _ htw => ih t ht htw
    rw [List.map_id] at heach
    rw [substitute, substituteEach_eq_map]
    exact hasValue_sumOf heach
  | product fs ih =>
    obtain ⟨vs, hvs, rfl⟩ := hasValue_product_iff.mp h
    have heach := haveValues_map hvs (G := id) fun f hf w _ hfw => ih f hf hfw
    rw [List.map_id] at heach
    rw [substitute, substituteEach_eq_map]
    exact hasValue_productOf heach
  | power b e ihb ihe =>
    obtain ⟨x, y, hx, hy, hdomain, rfl⟩ := hasValue_power_iff.mp h
    rw [substitute]
    exact hasValue_pow (ihb hx) (ihe hy) hdomain
  | exponential x ih =>
    obtain ⟨y, hy, rfl⟩ := hasValue_exponential_iff.mp h
    rw [substitute]
    exact hasValue_exp (ih hy)

theorem hasValue_substituteAll {f : Formula α} {map : List (String × Formula α)} {v : α}
    (h : f.HasValue D (updated D env map) v) : (f.substituteAll map).HasValue D env v := by
  refine hasValue_substitute (fun s w hw => ?_) h
  rw [updated] at hw
  split at hw
  · rename_i g hg
    rw [hg]
    exact value?_eq_some_iff.mp hw
  · rename_i hnone
    rw [hnone]
    exact hasValue_symbol_iff.mpr hw

theorem hasValue_substituteOne {f g : Formula α} {name : String} {v : α}
    (h : f.HasValue D (updated D env [(name, g)]) v) :
    (f.substituteOne name g).HasValue D env v := by
  have hlookup : only name g = fun s => [(name, g)].lookup s := by
    funext s
    by_cases hs : s = name
    · rw [only, if_pos hs, List.lookup_cons, beq_iff_eq.mpr hs]
    · rw [only, if_neg hs, List.lookup_cons, beq_eq_false_iff_ne.mpr hs, List.lookup_nil]
  rw [substituteOne, hlookup]
  exact hasValue_substituteAll h

/-- **Simplification keeps meanings.**  Wherever the values of its operands give an operation a
value without an unbound symbol or a division by zero, the formula that it builds evaluates to
that value, again without either; and a formula in which symbols are replaced evaluates to what
the formula itself does where those symbols have the values of what replaces them. -/
theorem hasValue_result_and_substitutions (D : PowerDomain α) (env : String → Option α) :
    (∀ (op : Operation α) (v : α), op.Means D env v → op.result.HasValue D env v) ∧
      (∀ (f : Formula α) (map : List (String × Formula α)) (v : α),
        f.HasValue D (updated D env map) v → (f.substituteAll map).HasValue D env v) ∧
      (∀ (f : Formula α) (name : String) (g : Formula α) (v : α),
        f.HasValue D (updated D env [(name, g)]) v → (f.substituteOne name g).HasValue D env v) :=
  ⟨fun _ _ h => Operation.hasValue_result h, fun _ _ _ h => hasValue_substituteAll h,
    fun _ _ _ _ h => hasValue_substituteOne h⟩

/-- A reciprocal square of a product, and a square in which a symbol is replaced by a sum, at
`x = 3`. -/
theorem hasValue_result_and_substitutions_real :
    let D := PowerDomain.nonzero ℝ
    let env : String → Option ℝ := fun s => if s = "x" then some 3 else none
    (Operation.powInt (product [const 2, symbol "x"]) (-2)).result.HasValue D env (6 ^ (-2 : ℤ)) ∧
      ((power (symbol "y") (const 2)).substituteAll
        [("y", sum [symbol "x", const 1])]).HasValue D env 16 ∧
      ((power (symbol "y") (const 2)).substituteOne "y"
        (sum [symbol "x", const 1])).HasValue D env 16 := by
  intro D env
  have hx : (symbol "x").HasValue D env 3 := hasValue_symbol_iff.mpr (if_pos rfl)
  have hproduct : (product [const 2, symbol "x"]).HasValue D env 6 :=
    hasValue_product_iff.mpr ⟨[2, 3], haveValues_pair (hasValue_const 2) hx, by norm_num⟩
  have hsum : (sum [symbol "x", const 1]).HasValue D env 4 :=
    hasValue_sum_iff.mpr ⟨[3, 1], haveValues_pair hx (hasValue_const 1), by norm_num⟩
  have hy : (symbol "y").HasValue D (updated D env [("y", sum [symbol "x", const 1])]) 4 :=
    hasValue_symbol_iff.mpr (value?_eq_some_iff.mpr hsum)
  have htwo : (2 : ℝ) = ((2 : ℤ) : ℝ) := by norm_num
  have hsquare : (power (symbol "y") (const 2)).HasValue D
      (updated D env [("y", sum [symbol "x", const 1])]) 16 := by
    refine hasValue_power_iff.mpr ⟨4, 2, hy, hasValue_const 2, Or.inl four_ne_zero, ?_⟩
    rw [htwo, Scalar.power_intCast (Or.inl four_ne_zero)]
    norm_num
  obtain ⟨hop, hall, hone⟩ := hasValue_result_and_substitutions D env
  exact ⟨hop _ _ ⟨6, hproduct, Or.inl (by norm_num), rfl⟩, hall _ _ _ hsquare,
    hone _ _ _ _ hsquare⟩

end Formula

end SphereLab
