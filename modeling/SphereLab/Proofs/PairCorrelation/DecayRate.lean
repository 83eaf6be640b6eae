import Mathlib
import SphereLab.PairCorrelation.Fit
import SphereLab.Proofs.Formula.Compilation
import SphereLab.Proofs.LeastSquares.Ignored
import SphereLab.Proofs.PairCorrelation.Ansatz
import SphereLab.Proofs.PairCorrelation.Unwrapping
import SphereLab.Proofs.Scalar.Word

/-!
# A fit leaves the decay rate where it is

The last parameter of the ansatz is the rate of a decay with distance, but the rate is multiplied by
zero: the decay folds to a constant when the formula is built, and its symbol is gone before the
model is compiled.  The model has a place for the parameter among its arguments and never looks at
it.  So the residuals of a fit ignore it, and a minimisation with an exact solver leaves it where it
is.  What a fit reports is rounded to decimals, and their number is taken as a signed number of
thirty-two bits.  So from `2 ^ 31` decimals on the decay rate is rounded to a multiple of a power of
ten, and reported as zero.

* `mem_occurrences_pairCorrelation`: the symbols of the pair correlation, without the decay rate.
* `exists_model_ignores`: every ansatz has a model, which ignores the decay rate.
* `residuals?_set`: if the model ignores it, so do the residuals.
* `roundTo_three`, `roundTo_three_eq_zero`: what the first guess is rounded to.
* `bestStep`: a solver that is exact.
* `ignored_parameters_rest`: what the residuals ignore is found as it was at the start, and when the
  decay rate of a fit is the first guess.
-/

namespace SphereLab

open Formula

/-- A program has the same value whatever the argument at a position is. -/
def Program.Ignores {α : Type} [Scalar α] (p : Program α) (i : ℕ) : Prop :=
  ∀ args v, p.eval? (args.set i v) = p.eval? args

/-! ## Symbols of the model -/

namespace Ansatz

variable {α : Type} [Scalar α]

/-- A zero takes a symbol with it. -/
theorem productOf_zero_symbol (hlaws : UnitLaws α) {c : α} (hc : (c == 0) = true) (s : String) :
    productOf [.const c, .symbol s] = .const 0 := by
  refine if_pos ?_
  change (1 * c == 0) = true
  rwa [hlaws.one_mul]

/-- The decay is a constant. -/
theorem decay_eq (hlaws : UnitLaws α) (hneg : ((-0 : α) == 0) = true) :
    decay = (.const (Scalar.exp 0) : Formula α) := by
  refine Eq.trans (b := Formula.exp (productOf [productOf [.const (-0), .symbol alphaName],
    .symbol "zeta"])) rfl ?_
  rw [productOf_zero_symbol hlaws hneg, productOf_zero_symbol hlaws hlaws.zero_beq_zero]
  rfl

/-- The symbols of a term of the polynomial. -/
theorem mem_occurrences_term {ij : ℕ × ℕ} {s : String}
    (h : s ∈ (term ij : Formula α).occurrences) :
    s = kappaName ij ∨ s = "h_sigma" ∨ s = "zeta" := by
  obtain ⟨f, hf, hs⟩ := exists_of_mem_occurrences_productOf h
  rcases List.mem_pair.mp hf with rfl | rfl
  · obtain ⟨f, hf, hs⟩ := exists_of_mem_occurrences_productOf hs
    rcases List.mem_pair.mp hf with rfl | rfl
    · exact Or.inl (List.mem_singleton.mp hs)
    · exact Or.inr (Or.inl (List.mem_singleton.mp (mem_occurrences_of_powConst hs)))
  · exact Or.inr (Or.inr (List.mem_singleton.mp (mem_occurrences_of_powConst hs)))

/-- The symbols of the reciprocal of the switch. -/
theorem mem_occurrences_switchOff {scale : α} {s : String}
    (h : s ∈ (switchOff scale).occurrences) : s = "h_sigma" := by
  obtain ⟨f, hf, hs⟩ := exists_of_mem_occurrences_sumOf h
  rcases List.mem_pair.mp hf with rfl | rfl
  · obtain ⟨f, hf, hs⟩ := exists_of_mem_occurrences_productOf (mem_occurrences_of_powConst hs)
    rcases List.mem_pair.mp hf with rfl | rfl
    · exact absurd hs List.not_mem_nil
    · exact List.mem_singleton.mp hs
  · exact absurd hs List.not_mem_nil

/-- The symbols of the pair correlation: the decay rate is none of them. -/
theorem mem_occurrences_pairCorrelation (hlaws : UnitLaws α) (hneg : ((-0 : α) == 0) = true)
    {scale : α} {s : String} (h : s ∈ (pairCorrelation scale).occurrences) :
    s ∈ kappaNames ∨ s = "h_sigma" ∨ s = "zeta" := by
  obtain ⟨f, hf, hs⟩ := exists_of_mem_occurrences_sumOf h
  rcases List.mem_pair.mp hf with rfl | rfl
  · exact absurd hs List.not_mem_nil
  · obtain ⟨f, hf, hs⟩ := exists_of_mem_occurrences_productOf hs
    rcases List.mem_pair.mp hf with rfl | rfl
    · obtain ⟨f, hf, hs⟩ := exists_of_mem_occurrences_productOf hs
      rcases List.mem_pair.mp hf with rfl | rfl
      · exact Or.inr (Or.inl (mem_occurrences_switchOff (mem_occurrences_of_powConst hs)))
      · obtain ⟨f, hf, hs⟩ := exists_of_mem_occurrences_sumOf hs
        rcases List.mem_cons.mp hf with rfl | hf
        · exact Or.inr (Or.inl (List.mem_singleton.mp hs))
        · obtain ⟨ij, hij, rfl⟩ := List.mem_map.mp hf
          rcases mem_occurrences_term hs with rfl | hs
          · exact Or.inl (List.mem_map_of_mem hij)
          · exact Or.inr hs
    · rw [decay_eq hlaws hneg] at hs
      exact absurd hs List.not_mem_nil

/-- The symbol of the reduced distance, carried out, is that of the distance. -/
theorem mem_occurrences_gap {known : List (String × Formula α)} {sigma : α} {s : String}
    (hr : known.lookup "r" = none) (hsigma : known.lookup "sigma" = some (.const sigma))
    (h : s ∈ (((Formula.symbol "r" - .symbol "sigma") / .symbol "sigma" :
      Formula α).substituteAll known).occurrences) : s = "r" := by
  obtain ⟨t, ht, hs⟩ := exists_of_mem_occurrences_substitute h
  have hname : t = "r" ∨ t = "sigma" := by
    obtain ⟨f, hf, ht⟩ := exists_of_mem_occurrences_productOf ht
    rcases List.mem_pair.mp hf with rfl | rfl
    · obtain ⟨f, hf, ht⟩ := exists_of_mem_occurrences_sumOf ht
      rcases List.mem_pair.mp hf with rfl | rfl
      · exact Or.inl (List.mem_singleton.mp ht)
      · obtain ⟨f, hf, ht⟩ := exists_of_mem_occurrences_productOf ht
        rcases List.mem_pair.mp hf with rfl | rfl
        · exact absurd ht List.not_mem_nil
        · exact Or.inr (List.mem_singleton.mp ht)
    · exact Or.inr (List.mem_singleton.mp (mem_occurrences_of_powConst ht))
  rcases hname with rfl | rfl
  · rw [hr] at hs
    exact List.mem_singleton.mp hs
  · rw [hsigma] at hs
    exact absurd hs List.not_mem_nil

/-- The symbols of the pair correlation when all definitions are carried out. -/
theorem exists_unwrapped (hlaws : UnitLaws α) (hneg : ((-0 : α) == 0) = true) (a : Ansatz α) :
    ∃ pair, pairCorrelation? (Definition.unwrap a.definitions) = .ok pair ∧
      ∀ s ∈ pair.occurrences, s ∈ kappaNames ∨ s = "h_sigma" ∨ s = "r" := by
  obtain ⟨known, inner, hunwrap, hnames, hgap, hr, hsigma⟩ :
      ∃ known inner : List (String × Formula α),
        pairCorrelation? (Definition.unwrap a.definitions) =
          .ok ((pairCorrelation a.scale).substituteAll known) ∧
        known.map Prod.fst = ["g_sigma", "zeta", "R", "sigma"] ∧
        known.lookup "zeta" = some (((Formula.symbol "r" - .symbol "sigma") / .symbol "sigma" :
          Formula α).substituteAll inner) ∧
        inner.lookup "r" = none ∧ inner.lookup "sigma" = some (.const a.sigma) :=
    ⟨_, _, rfl, rfl, rfl, rfl, rfl⟩
  refine ⟨_, hunwrap, fun s hs => ?_⟩
  obtain ⟨hexcess, hkappa⟩ := lookup_eq_none hnames
  obtain ⟨t, ht, hs⟩ := exists_of_mem_occurrences_substitute hs
  rcases mem_occurrences_pairCorrelation hlaws hneg ht with ht | rfl | rfl
  · obtain ⟨ij, hij, rfl⟩ := List.mem_map.mp ht
    rw [hkappa ij hij] at hs
    obtain rfl := List.mem_singleton.mp hs
    exact Or.inl ht
  · rw [hexcess] at hs
    exact Or.inr (Or.inl (List.mem_singleton.mp hs))
  · rw [hgap] at hs
    exact Or.inr (Or.inr (mem_occurrences_gap hr hsigma hs))

/-- The symbols of the model. -/
theorem mem_occurrences_model {pair : Formula α}
    (hpair : ∀ s ∈ pair.occurrences, s ∈ kappaNames ∨ s = "h_sigma" ∨ s = "r") {s : String}
    (h : s ∈ (pair.substituteOne "h_sigma" (subConst (.symbol "g_sigma") 1)).occurrences) :
    s ∈ kappaNames ∨ s = "g_sigma" ∨ s = "r" := by
  obtain ⟨t, ht, hs⟩ := exists_of_mem_occurrences_substitute h
  rw [only] at hs
  split at hs
  · obtain ⟨f, hf, hs⟩ := exists_of_mem_occurrences_sumOf hs
    rcases List.mem_pair.mp hf with rfl | rfl
    · exact Or.inr (Or.inl (List.mem_singleton.mp hs))
    · exact absurd hs List.not_mem_nil
  · rename_i hne
    obtain rfl := List.mem_singleton.mp hs
    exact (hpair s ht).imp id fun hrest => Or.inr (hrest.resolve_left hne)

/-- Every symbol of the model has a position among the arguments, which is not the one of the decay
rate. -/
theorem findIdx?_modelArguments {s : String} (h : s ∈ kappaNames ∨ s = "g_sigma" ∨ s = "r") :
    s ∈ modelArguments ∧ modelArguments.findIdx? (· == s) ≠ some (parameterCount - 1) := by
  have hall : ∀ s ∈ kappaNames ++ ["g_sigma", "r"], s ∈ modelArguments ∧
      modelArguments.findIdx? (· == s) ≠ some (parameterCount - 1) := by decide +kernel
  refine hall s (List.mem_append.mpr (h.imp id fun hrest => ?_))
  rcases hrest with rfl | rfl
  · exact List.mem_cons_self
  · exact List.mem_cons_of_mem _ List.mem_cons_self

/-- **The decay rate has no effect.**  Every ansatz has a model, and the model does not look at the
argument for the decay rate. -/
theorem exists_model_ignores (hlaws : UnitLaws α) (hneg : ((-0 : α) == 0) = true) (a : Ansatz α) :
    ∃ pair program, a.model = .ok (pair, program) ∧ program.Ignores (parameterCount - 1) := by
  obtain ⟨pair, hpair, hsymbols⟩ := exists_unwrapped hlaws hneg a
  have hmodel := fun s => mem_occurrences_model (s := s) hsymbols
  obtain ⟨program, hprogram⟩ := exists_compile_eq_ok_iff.mpr fun s hs =>
    (findIdx?_modelArguments (hmodel s (mem_symbols_iff.mp hs))).1
  refine ⟨pair, program, ?_, fun args v => ?_⟩
  · have hcompiled : compileModel pair = .ok program := by
      rw [compileModel, hprogram]
      rfl
    rw [model, hpair]
    exact congrArg (fun p => Except.map (Prod.mk pair) p) hcompiled
  · obtain ⟨t, ht, rfl⟩ := compile_eq_ok_iff.mp hprogram
    refine eval?_congr_of_resolve ht fun s hs => ?_
    have hposition := (findIdx?_modelArguments (hmodel s hs)).2
    rw [argumentAt, argumentAt]
    cases hi : modelArguments.findIdx? (· == s) with
    | none => rfl
    | some i =>
      rw [hi] at hposition
      exact List.getElem?_set_ne fun heq => hposition (congrArg some heq.symm)

end Ansatz

/-! ## Fits -/

namespace Fit

open Ansatz LevenbergMarquardt

section Residuals

variable {α : Type} [Scalar α] {model : Program α}

theorem modelValue?_set (h : model.Ignores (parameterCount - 1)) (params : List α)
    (v contact r : α) :
    modelValue? model (params.set (parameterCount - 1) v) contact r =
      modelValue? model params contact r := by
  rw [modelValue?, modelValue?, List.length_set]
  split
  · rfl
  · rename_i hlength
    have hposition : parameterCount - 1 < (params.take parameterCount).length := by
      rw [List.length_take_of_le (not_lt.mp hlength)]
      decide
    rw [List.take_set, ← List.set_append_left _ _ hposition]
    exact h _ v

/-- If the model ignores the decay rate, so do the residuals. -/
theorem residuals?_set (h : model.Ignores (parameterCount - 1)) (sets : List (DataSet α))
    (cutoff : α) (params : List α) (v : α) :
    residuals? model sets cutoff (params.set (parameterCount - 1) v) =
      residuals? model sets cutoff params := by
  rw [residuals?, residuals?]
  simp only [modelValue?_set h]

end Residuals

/-! ## Rounding the first guess -/

section Rounding

open Marked

/-- The units of marked numbers are those of the numbers. -/
theorem unitLaws_marked {K : Type} [ExactScalar K] : UnitLaws (Marked K) where
  zero_beq_zero := (ExactScalar.beq_iff_eq (0 : K) 0).mpr rfl
  one_beq_one := (ExactScalar.beq_iff_eq (1 : K) 1).mpr rfl
  one_beq_zero := Scalar.beq_eq_false_iff_ne.mpr (one_ne_zero (α := K))
  zero_add c _ := by
    cases c with
    | number a => exact congrArg number (zero_add a)
    | undefined => rfl
  one_mul c := by
    cases c with
    | number a => exact congrArg number (one_mul a)
    | undefined => rfl

/-- Powers of numbers are numbers. -/
theorem powLoop_number (acc base : ℝ) (n : ℕ) :
    Scalar.powLoop (number acc) (number base) n = number (acc * base ^ n) := by
  rw [← Scalar.powLoop_eq]
  induction n using Nat.strong_induction_on generalizing acc base with
  | _ n ih =>
    rw [Scalar.powLoop]
    conv_rhs => rw [Scalar.powLoop]
    have hstep : (if n % 2 = 1 then number acc * number base else number acc) =
        number (if n % 2 = 1 then acc * base else acc) := (apply_ite number _ _ _).symm
    rw [hstep]
    split
    · rfl
    · rename_i hzero
      exact ih (n / 2) (by omega) _ _

/-- Powers of ten, those with negative exponents too. -/
theorem powInt_ten (e : ℤ) : Scalar.powInt (10.0 : Marked ℝ) e = number (10 ^ e) := by
  have hpower : Scalar.powLoop 1 (10.0 : Marked ℝ) e.natAbs = number (10 ^ e.natAbs) := by
    rw [literal_ten, one_eq, powLoop_number, one_mul]
  have hne : ((10 : ℝ) ^ e.natAbs == 0) = false :=
    Scalar.beq_eq_false_iff_ne.mpr (pow_ne_zero _ (by norm_num))
  rw [Scalar.powInt, hpower]
  split
  · rename_i hneg
    rw [one_eq, number_div, hne]
    have hopposite : e = -(e.natAbs : ℤ) := by omega
    conv_rhs => rw [hopposite, zpow_neg, zpow_natCast]
    exact congrArg number (one_div _)
  · rename_i hnonneg
    have hsame : e = (e.natAbs : ℤ) := by omega
    conv_rhs => rw [hsame, zpow_natCast]

/-- A number rounded to decimals, whose number may count as negative. -/
theorem roundTo_number (x : ℝ) (digits : ℕ) :
    roundTo (number x) digits = number
      (Scalar.round (x * 10 ^ Int.bmod digits (2 ^ 32)) / 10 ^ Int.bmod digits (2 ^ 32)) := by
  have hne : ((10 : ℝ) ^ Int.bmod digits (2 ^ 32) == 0) = false :=
    Scalar.beq_eq_false_iff_ne.mpr (zpow_ne_zero _ (by norm_num))
  have hword : Nat.pow 2 32 = 2 ^ 32 := rfl
  have hround : Scalar.round (number (x * 10 ^ Int.bmod digits (2 ^ 32))) =
      number (Scalar.round (x * 10 ^ Int.bmod digits (2 ^ 32))) := rfl
  rw [roundTo, hword, powInt_ten, number_mul, hround, number_div, hne]
  rfl

/-- What is whole is its own nearest integer. -/
theorem round_natCast (n : ℕ) : Scalar.round (n : ℝ) = n := by
  have hfloor : ⌊(n : ℝ) + 1 / 2⌋ = (n : ℤ) := by
    rw [Int.floor_eq_iff]
    constructor
    · push_cast
      linarith
    · push_cast
      linarith
  rw [round_of_nonneg n.cast_nonneg, hfloor, Int.cast_natCast]

/-- What is less than a half is nearest to zero. -/
theorem round_eq_zero {x : ℝ} (hnonneg : 0 ≤ x) (hhalf : x < 1 / 2) : Scalar.round x = 0 := by
  have hfloor : ⌊x + 1 / 2⌋ = 0 := by
    rw [Int.floor_eq_zero_iff]
    constructor <;> linarith
  rw [round_of_nonneg hnonneg, hfloor, Int.cast_zero]

theorem literal_three : (3.0 : Marked ℝ) = number 3 := by
  rw [ofScientific_eq_number]
  norm_num

theorem zero_ne_three : (0 : Marked ℝ) ≠ 3.0 := by
  rw [literal_three, zero_eq, ne_eq, Marked.number.injEq]
  norm_num

/-- Rounded to decimals, the first guess stays what it is, unless they are so many that their number
counts as negative. -/
theorem roundTo_three {digits : ℕ} (h : digits < 2 ^ 31) :
    roundTo (3.0 : Marked ℝ) digits = 3.0 := by
  have hdigits : Int.bmod digits (2 ^ 32) = digits := (bmod_natCast_eq_iff digits).mpr h
  have hwhole : Scalar.round (3 * 10 ^ digits : ℝ) = 3 * 10 ^ digits := by
    exact_mod_cast round_natCast (3 * 10 ^ digits)
  rw [literal_three, roundTo_number, hdigits, zpow_natCast, hwhole]
  exact congrArg number (mul_div_cancel_right₀ 3 (pow_ne_zero _ (by norm_num)))

/-- Where the number of decimals counts as negative, the first guess is rounded to a multiple of
ten, and that is zero. -/
theorem roundTo_three_eq_zero {digits : ℕ} (hlow : 2 ^ 31 ≤ digits) (hhigh : digits < 2 ^ 32) :
    roundTo (3.0 : Marked ℝ) digits = 0 := by
  have htenth : (10 : ℝ) ^ (-(2 ^ 32 - digits : ℕ) : ℤ) ≤ 10 ^ (-1 : ℤ) :=
    zpow_le_zpow_right₀ (by norm_num) (by omega)
  have hsmall : (3 : ℝ) * 10 ^ (-(2 ^ 32 - digits : ℕ) : ℤ) < 1 / 2 := by
    rw [zpow_neg_one] at htenth
    linarith
  rw [literal_three, roundTo_number, bmod_natCast_of_le hlow hhigh,
    round_eq_zero (by positivity) hsmall]
  exact congrArg number (zero_div _)

end Rounding

/-! ## The decay rate of a fit -/

open Marked

variable {solve : List (List (Marked ℝ)) → List (Marked ℝ) → Option (List (Marked ℝ))}
  {model : Program (Marked ℝ)} {sets : List (DataSet (Marked ℝ))} {options : Fit.Options (Marked ℝ)}

/-- A fit is what a report of the minimisation amounts to. -/
theorem run_eq_ok (hsome : (residuals? model sets options.cutoff initialGuess).getD [] ≠ [])
    {report : Report (Marked ℝ)}
    (hreport : LevenbergMarquardt.minimise
      (fun x => (residuals? model sets options.cutoff x).getD []) solve options.search
        initialGuess = .ok report) :
    run solve model sets options = .ok (ofReport model sets options
      (sumOfSquares ((residuals? model sets options.cutoff initialGuess).getD [])) report) := by
  rw [run]
  dsimp only
  rw [if_neg (by rwa [List.isEmpty_iff]), hreport]

/-- A fit with a model that ignores the decay rate has it as it was guessed. -/
theorem unrounded_of_run (hmodel : model.Ignores (parameterCount - 1))
    (hsolve : SolvesExactly fun _ => solve) (hdamping : 0 < options.search.initialDamping)
    {fit : Fit (Marked ℝ)} (h : run solve model sets options = .ok fit) :
    fit.unrounded[parameterCount - 1]? = some 3.0 ∧
      fit.alpha? = some (roundTo 3.0 options.digits) := by
  rw [run] at h
  dsimp only at h
  split at h
  · exact absurd h (by simp)
  · split at h
    · exact absurd h (by simp)
    · rename_i report hreport
      obtain rfl := Except.ok.inj h
      have hparam : report.params[parameterCount - 1]? = some 3.0 :=
        rests_minimise (fun x v => congrArg (·.getD []) (residuals?_set hmodel _ _ x v)) hsolve
          hdamping _ hreport
      refine ⟨hparam, ?_⟩
      rw [alpha?, ofReport, List.getElem?_map, hparam]
      rfl

/-! ## A fit with an exact solver -/

/-- A vector of numbers than which none leaves less of a problem in numbers. -/
def IsBest (rows : List (List (Marked ℝ))) (target step : List (Marked ℝ)) : Prop :=
  ∃ (values : List (List ℝ)) (right best : List ℝ), rows = values.map (List.map number) ∧
    target = right.map number ∧ step = best.map number ∧
    (values ≠ [] ∧ ∀ row ∈ values, row.length = best.length) ∧
    ∀ other : List ℝ, other.length = best.length →
      misfit values right best ≤ misfit values right other

open Classical in
/-- What is best for a problem in numbers, if anything is. -/
noncomputable def bestStep (rows : List (List (Marked ℝ))) (target : List (Marked ℝ)) :
    Option (List (Marked ℝ)) :=
  if h : ∃ step, IsBest rows target step then some h.choose else none

theorem isBest_of_bestStep {rows : List (List (Marked ℝ))} {target step : List (Marked ℝ)}
    (h : bestStep rows target = some step) : IsBest rows target step := by
  rw [bestStep] at h
  split at h
  · rename_i hexists
    obtain rfl := Option.some.inj h
    exact hexists.choose_spec
  · exact absurd h (by simp)

theorem solvesExactly_bestStep : SolvesExactly fun _ => bestStep := by
  intro asked rows target width answer hne hmatrix hanswer
  obtain ⟨values, right, best, hrows, htarget, rfl, ⟨-, hwidth⟩, hbest⟩ :=
    isBest_of_bestStep hanswer
  have hnumber : Function.Injective (number : ℝ → Marked ℝ) := fun _ _ => number.inj
  obtain rfl := List.map_injective_iff.mpr (List.map_injective_iff.mpr hnumber) hrows
  obtain rfl := List.map_injective_iff.mpr hnumber htarget
  obtain ⟨row, hrow⟩ := List.exists_mem_of_ne_nil rows hne
  have hlength : best.length = width := (hwidth row hrow).symm.trans (hmatrix.2 row hrow)
  exact ⟨best, rfl, hlength, fun other hother => hbest other (hother.trans hlength.symm)⟩

theorem answers_bestStep (residuals : List (Marked ℝ) → List (Marked ℝ))
    (options : LevenbergMarquardt.Options (Marked ℝ)) (start : List (Marked ℝ)) :
    LevenbergMarquardt.Task.Answers ⟨residuals, fun _ => bestStep, options⟩ start := by
  intro asked rows target step hmatrix _ hstep
  obtain ⟨values, right, best, rfl, rfl, rfl, ⟨hne, hwidth⟩, -⟩ := isBest_of_bestStep hstep
  obtain ⟨row, hrow⟩ := List.exists_mem_of_ne_nil values hne
  have hlength := hmatrix.2 _ (List.mem_map_of_mem hrow)
  rw [List.length_map] at hlength
  rw [List.length_map, ← hwidth row hrow, hlength]

/-- Bring the first of some numbers to one. -/
noncomputable def firstTowardOne : LevenbergMarquardt.Task (Marked ℝ) where
  residuals x := (x.take 1).map (· - 1)
  solve _ := bestStep
  options := .standard

theorem ignores_firstTowardOne : firstTowardOne.Ignores 1 := by
  intro x v
  rw [firstTowardOne]
  cases x with
  | nil => rfl
  | cons a x => rfl

theorem isUniform_firstTowardOne (a : Marked ℝ) (start : List (Marked ℝ)) :
    firstTowardOne.IsUniform (a :: start) := by
  intro x hx
  rw [firstTowardOne]
  simp [hx]

/-- A model that is one coefficient everywhere. -/
def oneCoefficient : Program (Marked ℝ) := ⟨19, .argument 0⟩

/-- A data set of one point. -/
def onePoint : DataSet (Marked ℝ) := ⟨0, number 0, number 1, [number 2], [number 1]⟩

theorem ignores_oneCoefficient : oneCoefficient.Ignores (parameterCount - 1) := by
  intro args v
  exact List.getElem?_set_ne (by decide)

/-- The residuals of one coefficient at one point. -/
theorem residuals?_onePoint {x : List (Marked ℝ)} (hx : x.length = parameterCount) :
    (residuals? oneCoefficient [onePoint] 6.0 x).getD [] = firstTowardOne.residuals x := by
  have hcutoff : (number 2 : Marked ℝ) < 6.0 := by
    rw [ofScientific_eq_number, number_lt]
    norm_num
  match x with
  | [] => exact absurd hx (by decide)
  | a :: rest =>
    have hvalue : modelValue? oneCoefficient (a :: rest) (number 1) (number 2) = some a := by
      rw [modelValue?, if_neg (not_lt.mpr hx.ge)]
      rfl
    simp [residuals?, pointsBelow, onePoint, hcutoff, hvalue, firstTowardOne]

/-- There is a fit of one coefficient to one point, whatever the decimals to keep are. -/
theorem exists_fit_onePoint (digits : ℕ) : ∃ fit,
    run bestStep oneCoefficient [onePoint] { Options.standard with digits } = .ok fit := by
  let t : LevenbergMarquardt.Task (Marked ℝ) :=
    ⟨fun x => (residuals? oneCoefficient [onePoint] 6.0 x).getD [], fun _ => bestStep, .standard⟩
  have hresiduals : ∀ x, x.length = parameterCount → t.residuals x = firstTowardOne.residuals x :=
    fun x => residuals?_onePoint
  have hguess : (initialGuess : List (Marked ℝ)).length = parameterCount := rfl
  have huniform : t.IsUniform initialGuess := by
    intro x hx
    rw [hresiduals x (hx.trans hguess), hresiduals _ hguess]
    exact isUniform_firstTowardOne _ _ x hx
  have hsome : t.residuals initialGuess ≠ [] := by
    rw [hresiduals _ hguess]
    exact List.cons_ne_nil _ _
  have hfinite : (t.residuals initialGuess).all Scalar.isFinite = true := by
    rw [hresiduals _ hguess]
    rfl
  have hstart : (initialGuess : List (Marked ℝ)) ≠ [] := List.cons_ne_nil _ _
  have hpatience : 29 ≤ dampingFuel := by decide
  obtain ⟨report, hreport⟩ := exists_minimise_eq_ok huniform (answers_bestStep _ _ _)
    aboveFloor_standard hstart hpatience hsome hfinite
  exact ⟨_, run_eq_ok hsome hreport⟩

/-! ## Ignored parameters -/

/-- **Ignored parameters rest.**  Over exact arithmetic, with a solver that finds what is best for
each linear problem, a minimisation reports a parameter that the residuals do not depend on as it
was at the start, whatever the residuals, the start, the other options and the number of problems
are.  Every ansatz has a model, which does not look at the decay rate; and a fit with such a model
finds the decay rate that was guessed.  The decimals to keep are a number of thirty-two bits: the
decay rate that is reported is the one that was guessed just if there are fewer than `2 ^ 31` of
them, and zero otherwise. -/
theorem ignored_parameters_rest (options : Fit.Options (Marked ℝ)) :
    (∀ (t : LevenbergMarquardt.Task (Marked ℝ)) (j : ℕ) (start : List (Marked ℝ)) (patience : ℕ),
      t.Ignores j → SolvesExactly t.solve → 0 < t.options.initialDamping →
        ∀ report, t.minimise patience start = .ok report → report.params[j]? = start[j]?) ∧
    (∀ a : Ansatz (Marked ℝ), ∃ pair program, a.model = .ok (pair, program) ∧
      program.Ignores (parameterCount - 1)) ∧
    ∀ (solve : List (List (Marked ℝ)) → List (Marked ℝ) → Option (List (Marked ℝ)))
      (model : Program (Marked ℝ)) (sets : List (DataSet (Marked ℝ))),
      model.Ignores (parameterCount - 1) → SolvesExactly (fun _ => solve) →
        0 < options.search.initialDamping → ∀ fit, run solve model sets options = .ok fit →
          fit.unrounded[parameterCount - 1]? = initialGuess[parameterCount - 1]? ∧
          (options.digits < 2 ^ 32 →
            (fit.alpha? = initialGuess[parameterCount - 1]? ↔ options.digits < 2 ^ 31) ∧
            (2 ^ 31 ≤ options.digits → fit.alpha? = some 0)) := by
  have hlaws : UnitLaws (Marked ℝ) := unitLaws_marked
  have hneg : ((-0 : Marked ℝ) == 0) = true := (ExactScalar.beq_iff_eq (-0 : ℝ) 0).mpr neg_zero
  refine ⟨fun t j start patience hignores hsolve hdamping report hreport =>
    rests_minimise hignores hsolve hdamping patience hreport,
    exists_model_ignores hlaws hneg,
    fun solve model sets hmodel hsolve hdamping fit hfit => ?_⟩
  obtain ⟨hparam, halpha⟩ := unrounded_of_run hmodel hsolve hdamping hfit
  refine ⟨hparam, fun hword => ?_⟩
  have hzero : 2 ^ 31 ≤ options.digits → fit.alpha? = some 0 := fun hlow => by
    rw [halpha, roundTo_three_eq_zero hlow hword]
  refine ⟨⟨fun hguess => ?_, fun hdigits => ?_⟩, hzero⟩
  · by_contra hlow
    have hsame : some (0 : Marked ℝ) = some 3.0 := (hzero (not_lt.mp hlow)).symm.trans hguess
    exact zero_ne_three (Option.some.inj hsame)
  · rw [halpha, roundTo_three hdigits]
    rfl

/-- A number that is brought to one beside a number that is not looked at, and two fits with a model
that is one coefficient everywhere: one keeps three decimals, and one so many that their number
counts as minus one. -/
theorem ignored_parameters_rest_three :
    (firstTowardOne.Ignores 1 ∧ SolvesExactly firstTowardOne.solve ∧
      0 < firstTowardOne.options.initialDamping ∧
      ∃ report, firstTowardOne.minimise 29 [number 0, number 3] = .ok report ∧
        report.params[1]? = some (number 3)) ∧
    (∃ pair program, (Ansatz.standard : Ansatz (Marked ℝ)).model = .ok (pair, program) ∧
      program.Ignores (parameterCount - 1)) ∧
    oneCoefficient.Ignores (parameterCount - 1) ∧ SolvesExactly (fun _ => bestStep) ∧
      0 < (Options.standard : Fit.Options (Marked ℝ)).search.initialDamping ∧
      (∃ fit, run bestStep oneCoefficient [onePoint] Options.standard = .ok fit ∧
        fit.unrounded[parameterCount - 1]? = some 3.0 ∧ fit.alpha? = some 3.0) ∧
      ∃ fit, run bestStep oneCoefficient [onePoint]
          { Options.standard with digits := 2 ^ 32 - 1 } = .ok fit ∧
        fit.unrounded[parameterCount - 1]? = some 3.0 ∧ fit.alpha? = some 0 := by
  have hdamping : 0 < (LevenbergMarquardt.Options.standard :
      LevenbergMarquardt.Options (Marked ℝ)).initialDamping :=
    aboveFloor_standard.pos
  obtain ⟨hminimise, hmodel, hfits⟩ := ignored_parameters_rest Options.standard
  obtain ⟨report, hreport⟩ : ∃ report,
      firstTowardOne.minimise 29 [number 0, number 3] = .ok report :=
    exists_minimise_eq_ok (isUniform_firstTowardOne _ _) (answers_bestStep _ _ _)
      aboveFloor_standard (List.cons_ne_nil _ _) le_rfl
      (List.cons_ne_nil _ _) rfl
  obtain ⟨fit, hfit⟩ := exists_fit_onePoint 3
  obtain ⟨hparam, halpha⟩ := hfits bestStep oneCoefficient [onePoint] ignores_oneCoefficient
    solvesExactly_bestStep hdamping fit hfit
  obtain ⟨many, hmany⟩ := exists_fit_onePoint (2 ^ 32 - 1)
  obtain ⟨-, -, hfits'⟩ :=
    ignored_parameters_rest { Options.standard with digits := 2 ^ 32 - 1 }
  obtain ⟨hparam', halpha'⟩ := hfits' bestStep oneCoefficient [onePoint] ignores_oneCoefficient
    solvesExactly_bestStep hdamping many hmany
  exact ⟨⟨ignores_firstTowardOne, solvesExactly_bestStep, hdamping, report, hreport,
      hminimise firstTowardOne 1 _ 29 ignores_firstTowardOne solvesExactly_bestStep hdamping
        report hreport⟩,
    hmodel Ansatz.standard, ignores_oneCoefficient, solvesExactly_bestStep, hdamping,
    ⟨fit, hfit, hparam, (halpha (by decide)).1.mpr (by decide)⟩,
    ⟨many, hmany, hparam', (halpha' (by norm_num)).2 (by norm_num)⟩⟩

end Fit

end SphereLab
