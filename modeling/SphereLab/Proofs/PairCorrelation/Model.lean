import Mathlib
import SphereLab.Proofs.Formula.Compilation
import SphereLab.Proofs.PairCorrelation.Ansatz
import SphereLab.Proofs.PairCorrelation.Unwrapping

/-!
# The model in closed form

Over exact arithmetic the compiled model computes the ansatz as it is written down, whatever the
diameter, the scale and the coefficients are: constants that fold to zero or one change the shape of
the formula and not its value.  The value is carried through the whole way of the formula: it is
built, its chain of definitions is executed, the excess is replaced by `g_sigma - 1`, and the
program of the result has it.

* `closedForm`: the ansatz as it is written down.
* `hasValue_pairCorrelation`: the value of the formula that is built.
* `exists_pairCorrelation?`: the value of the formula that is carried out.
* `exists_compileModel`: the value of the program.
* `modelValue?_eq_closedForm`: the model over the real numbers.
-/

namespace SphereLab

namespace Ansatz

open Formula

variable {α : Type} [ExactScalar α] {D : PowerDomain α} {env : String → Option α}

/-! ## The formula -/

/-- The ansatz at an excess `h` and a gap `z`, with the scale `c` and coefficients `k`. -/
def closedForm (c : α) (k : ℕ → ℕ → α) (h z : α) : α :=
  1 + (h + ∑ i ∈ Finset.Icc 1 4, ∑ j ∈ Finset.Icc 1 4, k i j * h ^ i * z ^ j) / (1 + (c * h) ^ 4)

/-- Only the sixteen coefficients matter. -/
theorem closedForm_congr (c : α) {k k' : ℕ → ℕ → α} (h z : α)
    (hk : ∀ i ∈ Finset.Icc 1 4, ∀ j ∈ Finset.Icc 1 4, k i j = k' i j) :
    closedForm c k h z = closedForm c k' h z := by
  have hterms : ∑ i ∈ Finset.Icc 1 4, ∑ j ∈ Finset.Icc 1 4, k i j * h ^ i * z ^ j =
      ∑ i ∈ Finset.Icc 1 4, ∑ j ∈ Finset.Icc 1 4, k' i j * h ^ i * z ^ j :=
    Finset.sum_congr rfl fun i hi => Finset.sum_congr rfl fun j hj => by rw [hk i hi j hj]
  rw [closedForm, closedForm, hterms]

theorem closedForm_zero (c : α) (k : ℕ → ℕ → α) (h : α) :
    closedForm c k h 0 = 1 + h / (1 + (c * h) ^ 4) := by
  have hterms : ∑ i ∈ Finset.Icc 1 4, ∑ j ∈ Finset.Icc 1 4, k i j * h ^ i * (0 : α) ^ j = 0 := by
    refine Finset.sum_eq_zero fun i _ => Finset.sum_eq_zero fun j hj => ?_
    rw [zero_pow (Nat.one_le_iff_ne_zero.mp (Finset.mem_Icc.mp hj).1), mul_zero]
  rw [closedForm, hterms, add_zero]

/-- The sum over the exponents, row by row. -/
theorem sum_map_exponents (g : ℕ → ℕ → α) :
    (exponents.map fun ij => g ij.1 ij.2).sum =
      ∑ i ∈ Finset.Icc 1 4, ∑ j ∈ Finset.Icc 1 4, g i j := by
  have hfour : Finset.Icc 1 4 = ({1, 2, 3, 4} : Finset ℕ) := by decide
  simp [exponents, hfour]
  ring

theorem hasValue_sub {f g : Formula α} {x y : α} (hf : f.HasValue D env x)
    (hg : g.HasValue D env y) : (f - g).HasValue D env (x - y) := by
  have hmeans : (Operation.sub f g).Means D env (x - y) := ⟨x, y, hf, hg, rfl⟩
  exact Operation.hasValue_result hmeans

theorem hasValue_div {f g : Formula α} {x y : α} (hf : f.HasValue D env x)
    (hg : g.HasValue D env y) (hy : y ≠ 0) : (f / g).HasValue D env (x / y) := by
  have hmeans : (Operation.div f g).Means D env (x / y) := ⟨x, y, hf, hg, hy, rfl⟩
  exact Operation.hasValue_result hmeans

theorem hasValue_subConst {f : Formula α} {x : α} (hf : f.HasValue D env x) (c : α) :
    (f.subConst c).HasValue D env (x - c) := by
  have hmeans : (Operation.subConst f c).Means D env (x - c) := ⟨x, hf, rfl⟩
  exact Operation.hasValue_result hmeans

theorem hasValue_divConst {f : Formula α} {x c : α} (hf : f.HasValue D env x) (hc : c ≠ 0) :
    (f.divConst c).HasValue D env (x / c) := by
  have hmeans : (Operation.divConst f c).Means D env (x / c) := ⟨x, hf, hc, rfl⟩
  exact Operation.hasValue_result hmeans

theorem hasValue_powInt_natCast {f : Formula α} {x : α} (hf : f.HasValue D env x) (n : ℕ) :
    (f.powInt n).HasValue D env (x ^ n) := by
  have hmeans : (Operation.powInt f n).Means D env (x ^ n) :=
    ⟨x, hf, Or.inr (Int.natCast_nonneg n), zpow_natCast x n⟩
  exact Operation.hasValue_result hmeans

/-- The switch is positive. -/
theorem switch_pos (c h : α) : 0 < (c * h) ^ 4 + 1 := by
  have hnonneg : 0 ≤ (c * h) ^ 4 := Even.pow_nonneg (by decide) _
  linarith

/-- The pair correlation that is built has the value of the closed form; its decay is the
exponential of zero. -/
theorem hasValue_pairCorrelation (hexp : (Scalar.exp 0 : α) = 1) (c : α) {k : ℕ → ℕ → α}
    {h z alpha : α} (hk : ∀ ij ∈ exponents, env (kappaName ij) = some (k ij.1 ij.2))
    (hexcess : env "h_sigma" = some h) (hgap : env "zeta" = some z)
    (halpha : env alphaName = some alpha) :
    (pairCorrelation c).HasValue D env (closedForm c k h z) := by
  have hh : (excess : Formula α).HasValue D env h := hasValue_symbol_iff.mpr hexcess
  have hz : (gap : Formula α).HasValue D env z := hasValue_symbol_iff.mpr hgap
  have hterm : ∀ ij ∈ exponents,
      (term ij : Formula α).HasValue D env (k ij.1 ij.2 * h ^ ij.1 * z ^ ij.2) := fun ij hij =>
    hasValue_mul (hasValue_mul (hasValue_symbol_iff.mpr (hk ij hij)) (hasValue_powInt_natCast hh _))
      (hasValue_powInt_natCast hz _)
  have hpolynomial : (polynomial : Formula α).HasValue D env
      (h + (exponents.map fun ij => k ij.1 ij.2 * h ^ ij.1 * z ^ ij.2).sum) := by
    rw [← List.sum_cons]
    refine hasValue_sumOf (.cons hh ?_)
    rw [List.forall₂_map_left_iff, List.forall₂_map_right_iff, List.forall₂_same]
    exact hterm
  have hswitch : (switchOff c).HasValue D env ((c * h) ^ 4 + 1) :=
    hasValue_add (hasValue_powInt_natCast (hasValue_mul (hasValue_const c) hh) 4) (hasValue_const 1)
  have hdecay : (decay : Formula α).HasValue D env 1 := by
    have hone : Scalar.exp (-0 * alpha * z) = 1 := by rw [neg_zero, zero_mul, zero_mul, hexp]
    have hvalue := hasValue_exp (hasValue_mul (hasValue_mul (hasValue_const (-0))
      (hasValue_symbol_iff.mpr halpha)) hz)
    rw [hone] at hvalue
    exact hvalue
  have hvalue := hasValue_add (hasValue_const 1) (hasValue_mul (hasValue_mul
    (hasValue_recip hswitch (switch_pos c h).ne') hpolynomial) hdecay)
  rw [mul_one, inv_mul_eq_div, add_comm _ (1 : α),
    sum_map_exponents fun i j => k i j * h ^ i * z ^ j] at hvalue
  exact hvalue

/-! ## The chain of definitions -/

/-- What the definitions of the chain assign, apart from the pair correlation. -/
def assigned (env : String → Option α) (sigma radius gap contact : α) : String → Option α :=
  Function.update (Function.update (Function.update (Function.update env "sigma" (some sigma))
    "R" (some radius)) "zeta" (some gap)) "g_sigma" (some contact)

omit [ExactScalar α] in
theorem assigned_of_not_mem {s : String} (hs : s ∉ ["g_sigma", "zeta", "R", "sigma"])
    (sigma radius gap contact : α) : assigned env sigma radius gap contact s = env s := by
  simp only [List.mem_cons, List.not_mem_nil, not_or] at hs
  obtain ⟨hcontact, hgap, hradius, hsigma, -⟩ := hs
  rw [assigned, Function.update_of_ne hcontact, Function.update_of_ne hgap,
    Function.update_of_ne hradius, Function.update_of_ne hsigma]

/-- The names of the coefficients, of the excess and of the decay rate are not defined. -/
theorem not_mem_assigned : "h_sigma" ∉ ["g_sigma", "zeta", "R", "sigma"] ∧
    alphaName ∉ ["g_sigma", "zeta", "R", "sigma"] ∧
    ∀ ij ∈ exponents, kappaName ij ∉ ["g_sigma", "zeta", "R", "sigma"] := by decide +kernel

/-- The chain of definitions is executed, the pair correlation last. -/
theorem executes_definitions (hexp : (Scalar.exp 0 : α) = 1) {a : Ansatz α} (hsigma : a.sigma ≠ 0)
    {k : ℕ → ℕ → α} {h r alpha : α}
    (hk : ∀ ij ∈ exponents, env (kappaName ij) = some (k ij.1 ij.2))
    (hexcess : env "h_sigma" = some h) (hr : env "r" = some r)
    (halpha : env alphaName = some alpha) :
    Definition.Executes D env a.definitions.reverse [a.sigma, a.sigma / 2,
      (r - a.sigma) / a.sigma, h + 1, closedForm a.scale k h ((r - a.sigma) / a.sigma)] := by
  obtain ⟨hexcess', halpha', hkappa'⟩ := not_mem_assigned
  have htwo : (2.0 : α) = 2 := by
    rw [ExactScalar.ofScientific_eq_ratCast]
    norm_num
  refine .cons (hasValue_const a.sigma) (.cons ?_ (.cons ?_ (.cons ?_ (.cons ?_ .nil))))
  · rw [← htwo]
    refine hasValue_divConst (hasValue_symbol_iff.mpr (Function.update_self ..)) ?_
    rw [htwo]
    exact two_ne_zero
  · -- the distance is not defined, and the diameter is before the radius
    have hs : (Function.update (Function.update env "sigma" (some a.sigma)) "R"
        (some (a.sigma / 2))) "sigma" = some a.sigma := by
      rw [Function.update_of_ne (by decide), Function.update_self]
    have hr' : (Function.update (Function.update env "sigma" (some a.sigma)) "R"
        (some (a.sigma / 2))) "r" = some r := by
      rw [Function.update_of_ne (by decide), Function.update_of_ne (by decide), hr]
    exact hasValue_div (hasValue_sub (hasValue_symbol_iff.mpr hr') (hasValue_symbol_iff.mpr hs))
      (hasValue_symbol_iff.mpr hs) hsigma
  · have hh : Function.update (Function.update (Function.update env "sigma" (some a.sigma)) "R"
        (some (a.sigma / 2))) "zeta" (some ((r - a.sigma) / a.sigma)) "h_sigma" = some h := by
      rw [Function.update_of_ne (by decide), Function.update_of_ne (by decide),
        Function.update_of_ne (by decide), hexcess]
    exact hasValue_add (hasValue_symbol_iff.mpr hh) (hasValue_const 1)
  · have hkappa : ∀ ij ∈ exponents, assigned env a.sigma (a.sigma / 2) ((r - a.sigma) / a.sigma)
        (h + 1) (kappaName ij) = some (k ij.1 ij.2) := by
      intro ij hij
      rw [assigned_of_not_mem (hkappa' ij hij), hk ij hij]
    have hzeta : assigned env a.sigma (a.sigma / 2) ((r - a.sigma) / a.sigma) (h + 1) "zeta" =
        some ((r - a.sigma) / a.sigma) := by
      rw [assigned, Function.update_of_ne (by decide), Function.update_self]
    exact hasValue_pairCorrelation hexp a.scale hkappa
      ((assigned_of_not_mem hexcess' ..).trans hexcess) hzeta
      ((assigned_of_not_mem halpha' ..).trans halpha)

/-- The chain has a pair correlation, and carried out it has the value of the closed form. -/
theorem exists_pairCorrelation? (hexp : (Scalar.exp 0 : α) = 1) {a : Ansatz α}
    (hsigma : a.sigma ≠ 0) :
    ∃ pair, pairCorrelation? (Definition.unwrap a.definitions) = .ok pair ∧
      ∀ (env : String → Option α) (k : ℕ → ℕ → α) (h r alpha : α),
        (∀ ij ∈ exponents, env (kappaName ij) = some (k ij.1 ij.2)) → env "h_sigma" = some h →
        env "r" = some r → env alphaName = some alpha →
        pair.HasValue D env (closedForm a.scale k h ((r - a.sigma) / a.sigma)) := by
  obtain ⟨sigma, radius, gap, contact, pair, hunwrap⟩ : ∃ sigma radius gap contact pair,
      Definition.unwrap a.definitions = [⟨"sigma", sigma⟩, ⟨"R", radius⟩, ⟨"zeta", gap⟩,
        ⟨"g_sigma", contact⟩, ⟨"g_HS", pair⟩] := ⟨_, _, _, _, _, rfl⟩
  refine ⟨pair, by rw [hunwrap]; rfl, fun env k h r alpha hk hexcess hr halpha => ?_⟩
  have hexecutes := executes_definitions (D := D) hexp hsigma hk hexcess hr halpha
  have hvalues : List.Forall₂ (fun d v => d.value.HasValue D env v)
    (Definition.unwrap a.definitions) _ := Definition.forall₂_unwrapFrom hexecutes
  rw [hunwrap] at hvalues
  obtain _ | ⟨-, _ | ⟨-, _ | ⟨-, _ | ⟨-, _ | ⟨hpair, -⟩⟩⟩⟩⟩ := hvalues
  exact hpair

/-! ## The program -/

omit [ExactScalar α] in
/-- No argument of the model is missing. -/
theorem length_modelArguments_le {params : List α} (hparams : parameterCount ≤ params.length)
    (contact r : α) :
    modelArguments.length ≤ (params.take parameterCount ++ [contact, r]).length := by
  have hlength : modelArguments.length = parameterCount + 2 := by decide
  rw [hlength, List.length_append, List.length_take_of_le hparams]
  exact le_rfl

/-- The pair correlation is compiled to a program of the closed form. -/
theorem exists_compileModel {pair : Formula α} {c sigma : α}
    (hpair : ∀ (env : String → Option α) (k : ℕ → ℕ → α) (h r alpha : α),
      (∀ ij ∈ exponents, env (kappaName ij) = some (k ij.1 ij.2)) → env "h_sigma" = some h →
      env "r" = some r → env alphaName = some alpha →
      pair.HasValue D env (closedForm c k h ((r - sigma) / sigma))) :
    ∃ program, compileModel pair = .ok program ∧
      ∀ (params : List α) (contact r : α), parameterCount ≤ params.length →
        modelValue? program params contact r = some (closedForm c
          (fun i j => coefficientOf params (i, j)) (contact - 1) ((r - sigma) / sigma)) := by
  have hcompile : ∀ (params : List α) (contact r : α), parameterCount ≤ params.length →
      ∃ program, compileModel pair = .ok program ∧ modelValue? program params contact r =
        some (closedForm c (fun i j => coefficientOf params (i, j)) (contact - 1)
          ((r - sigma) / sigma)) := by
    intro params contact r hparams
    obtain ⟨hcontact, hr, hk⟩ := argumentAt_modelArguments hparams contact r
    have hlength := length_modelArguments_le hparams contact r
    obtain ⟨alpha, halpha⟩ := (exists_argumentAt_iff (s := alphaName) hlength).mpr
      (by decide +kernel)
    generalize henv : argumentAt modelArguments (params.take parameterCount ++ [contact, r]) = env
      at hcontact hr hk halpha
    have hshift : (subConst (.symbol "g_sigma") 1).HasValue D env (contact - 1) :=
      hasValue_subConst (hasValue_symbol_iff.mpr hcontact) 1
    have hother : ∀ s, s ≠ "h_sigma" →
        updated D env [("h_sigma", subConst (.symbol "g_sigma") 1)] s = env s := by
      intro s hs
      rw [updated, List.lookup_cons, beq_eq_false_iff_ne.mpr hs, List.lookup_nil]
    have hnames : alphaName ≠ "h_sigma" ∧ ∀ ij ∈ exponents, kappaName ij ≠ "h_sigma" := by
      decide +kernel
    have hvalue := hasValue_substituteOne (hpair _ (fun i j => coefficientOf params (i, j))
      (contact - 1) r alpha (fun ij hij => (hother _ (hnames.2 ij hij)).trans (hk ij hij))
      (value?_eq_some_iff.mpr hshift) ((hother _ (by decide)).trans hr)
      ((hother _ hnames.1).trans halpha))
    rw [← henv] at hvalue
    obtain ⟨program, hprogram, heval⟩ := exists_eval?_of_hasValue hvalue hlength
    refine ⟨program, ?_, ?_⟩
    · rw [compileModel, hprogram]
      rfl
    · rw [modelValue?, if_neg (not_lt.mpr hparams)]
      exact heval
  obtain ⟨program, hprogram, -⟩ := hcompile (List.replicate parameterCount 0) 0 0
    (by rw [List.length_replicate])
  refine ⟨program, hprogram, fun params contact r hparams => ?_⟩
  obtain ⟨p, hp, hvalue⟩ := hcompile params contact r hparams
  rw [hprogram] at hp
  obtain rfl := Except.ok.inj hp
  exact hvalue

/-! ## The model over the real numbers -/

/-- **The model.**  For every diameter but zero and every scale the chain of definitions has a pair
correlation, which is compiled, and at any parameters the program computes the ansatz as it is
written down.  So the decay rate, which is the last parameter, has no effect, and at contact only
the excess is left of the polynomial. -/
theorem modelValue?_eq_closedForm {a : Ansatz ℝ} (hsigma : a.sigma ≠ 0) :
    ∃ pair program, pairCorrelation? (Definition.unwrap a.definitions) = .ok pair ∧
      compileModel pair = .ok program ∧
      (∀ (params : List ℝ) (contact r : ℝ), parameterCount ≤ params.length →
        modelValue? program params contact r = some (closedForm a.scale
          (fun i j => coefficientOf params (i, j)) (contact - 1) ((r - a.sigma) / a.sigma))) ∧
      (∀ (kappas : List ℝ) (alpha alpha' contact r : ℝ), kappas.length = 16 →
        modelValue? program (kappas ++ [alpha]) contact r =
          modelValue? program (kappas ++ [alpha']) contact r) ∧
      ∀ (params : List ℝ) (contact : ℝ), parameterCount ≤ params.length →
        modelValue? program params contact a.sigma =
          some (1 + (contact - 1) / (1 + (a.scale * (contact - 1)) ^ 4)) := by
  obtain ⟨pair, hpair, hvalue⟩ := exists_pairCorrelation? (D := PowerDomain.nonzero ℝ)
    Real.exp_zero hsigma
  obtain ⟨program, hprogram, hmodel⟩ := exists_compileModel hvalue
  refine ⟨pair, program, hpair, hprogram, hmodel, ?_, ?_⟩
  · intro kappas alpha alpha' contact r hkappas
    have hlength : ∀ alpha : ℝ, parameterCount ≤ (kappas ++ [alpha]).length := fun alpha => by
      rw [List.length_append, hkappas]
      exact le_rfl
    rw [hmodel _ contact r (hlength alpha), hmodel _ contact r (hlength alpha')]
    refine congrArg some (closedForm_congr _ _ _ fun i hi j hj => ?_)
    rw [Finset.mem_Icc] at hi hj
    have hplace : (i - 1) * 4 + (j - 1) < kappas.length := by omega
    rw [coefficientOf, coefficientOf, List.getElem?_append_left hplace,
      List.getElem?_append_left hplace]
  · intro params contact hparams
    rw [hmodel params contact a.sigma hparams, sub_self, zero_div, closedForm_zero]

theorem modelValue?_eq_closedForm_leading : (2 : ℝ) ≠ 0 ∧
    ∃ pair program, pairCorrelation? (Definition.unwrap (definitions ⟨2, 1⟩)) = .ok pair ∧
      compileModel pair = .ok program ∧
      modelValue? program (0.5 :: List.replicate 16 0) 2 3 = some (13 / 8 : ℝ) := by
  have htwo : (2 : ℝ) ≠ 0 := two_ne_zero
  obtain ⟨pair, program, hpair, hprogram, hmodel, -⟩ :=
    modelValue?_eq_closedForm (a := ⟨2, 1⟩) htwo
  refine ⟨htwo, pair, program, hpair, hprogram, ?_⟩
  rw [hmodel _ _ _ (by rw [List.length_cons, List.length_replicate]; exact le_rfl), closedForm,
    ← sum_map_exponents]
  norm_num [exponents, coefficientOf]

end Ansatz

end SphereLab
