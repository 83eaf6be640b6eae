import Mathlib
import SphereLab.PairCorrelation.Publication
import SphereLab.Proofs.CExpression.Header
import SphereLab.Proofs.Decimal.Fixed
import SphereLab.Proofs.PairCorrelation.Ansatz
import SphereLab.Proofs.Scalar.Elementary

/-!
# The published header

The header of a fit is read as C, and its function is called over the real numbers, with the
constants that the header declares.  The function is one without excess, nothing below a bound, and
the fitted model from the bound on.  The bound is written as an integer, whereas the model has the
diameter itself, so that the function has its documented meaning only if the diameter is a whole
number.

* `Declares`: the constants of a header are those of a fit, in as many places as asked for.
* `piecewise`: what the function is documented to return.
* `exists_header`: what is read from the header, and what its function returns.
* `documented_iff_whole`: when that is what is documented.
-/

namespace SphereLab

namespace Publication

open CExpression CHeader Ansatz

/-! ## Numbers -/

/-- A natural number of at most fifty-three binary digits is written as an expression. -/
theorem value?_decimalDigits {n : ℕ} (hn : n < 2 ^ 53) (env : String → Option ℝ) :
    (Tree.number (decimalDigits n)).value? env = some (n : ℝ) := by
  obtain ⟨hvalue, hfinite⟩ := realOf_nearestDecimal_natCast hn
  rw [(CSource.writes_number (decimalText_decimalDigits n) hfinite).2, hvalue]

/-- A finite double with a set number of places is a constant expression. -/
theorem exists_isExpression_fixedText (places : ℕ) {x : Float} (hx : x.isFinite = true) :
    ∃ t v, parse? (fixedText places x) = some t ∧ IsExpression (fixedText places x).toList t ∧
      ∀ env, t.value? env = some v := by
  obtain ⟨negative, cs, digits, shift, htext, hdecimal, hfinite⟩ :=
    exists_decimalText_fixedText places hx
  obtain ⟨hwrites, hvalue⟩ := CSource.writes_number hdecimal hfinite
  obtain ⟨t, v, ht, hv⟩ : ∃ t v, Writes .additive (fixedText places x).toList t ∧
      ∀ env, t.value? env = some v := by
    rw [htext]
    cases negative with
    | false => exact ⟨_, _, hwrites.additive, hvalue⟩
    | true =>
      obtain ⟨t, ht, hneg⟩ := hwrites.multiplicative.minus
      exact ⟨t, _, ht, fun env => hneg env _ (hvalue env)⟩
  have hparse := ht.derivable.parse?_eq
  exact ⟨t, v, hparse, isExpression_of_parse? hparse, hv⟩

/-- The bound of a positive diameter: the nearest integer, as far as sixty-four bits go. -/
noncomputable def bound (sigma : ℝ) : ℝ := min (⌊sigma + 1 / 2⌋₊ : ℝ) (2 ^ 63)

/-- A diameter is its own bound if it is a whole number that sixty-four bits hold. -/
theorem bound_eq_iff {sigma : ℝ} : bound sigma = sigma ↔ ∃ n : ℕ, n ≤ 2 ^ 63 ∧ sigma = n := by
  constructor
  · intro h
    refine ⟨min ⌊sigma + 1 / 2⌋₊ (2 ^ 63), min_le_right _ _, h.symm.trans ?_⟩
    rw [bound, Nat.cast_min]
    norm_num
  · rintro ⟨n, hn, rfl⟩
    have hfloor : ⌊(n : ℝ) + 1 / 2⌋₊ = n := by
      rw [Nat.floor_eq_iff (by positivity)]
      exact ⟨by linarith, by linarith⟩
    rw [bound, hfloor]
    exact min_eq_left (by exact_mod_cast hn)

/-- The bound as it is written is a constant expression without parentheses. -/
theorem exists_isExpression_roundedText {sigma : Float} (hfinite : sigma.isFinite = true)
    (hpos : 0 < realOf sigma) :
    ∃ t, IsExpression (roundedText sigma).toList t ∧ ')' ∉ (roundedText sigma).toList ∧
      ∀ env, t.value? env = some (bound (realOf sigma)) := by
  obtain ⟨n, htext, hvalue, hread⟩ := exists_toList_roundedText hfinite hpos
  obtain ⟨hwrites, hnumber⟩ := CSource.writes_number (decimalText_decimalDigits n) hread
  rw [← htext] at hwrites hnumber
  refine ⟨_, isExpression_of_parse? hwrites.additive.derivable.parse?_eq, ?_, fun env => ?_⟩
  · rw [htext]
    exact fun h => absurd (allDigits_decimalDigits n _ h) (by decide)
  · rw [hnumber env, hvalue, bound]

/-! ## The constants -/

/-- The header has the constants of the fit, in their order and with so many places, and they have
the given values. -/
structure Declares (header : CHeader.Header) (fit : Fit Float) (digits : ℕ) (params : List ℝ) :
    Prop where
  names : header.constants.map Prod.fst = parameterNames
  texts : header.constants.map (fun c => some c.2) =
    fit.params.map fun v => parse? (fixedText digits v)
  values : header.constants.map (fun c => c.2.value? fun _ => none) = params.map some

/-- The position of a coefficient among the parameters. -/
def position (ij : ℕ × ℕ) : ℕ := (ij.1 - 1) * 4 + (ij.2 - 1)

/-- As many items as there are parameters: one for each pair of exponents, and one more. -/
theorem exists_map_exponents {γ : Type} {ps : List γ} (h : ps.length = parameterCount) :
    ∃ (v : ℕ × ℕ → γ) (a : γ), ps = exponents.map v ++ [a] ∧ ps[parameterCount - 1]? = some a ∧
      ∀ ij ∈ exponents, ps[position ij]? = some (v ij) := by
  have hpos : 0 < ps.length := h.symm ▸ (by decide)
  have hget : ∀ n < parameterCount, ps[n]? = some ((ps[n]?).getD ps[0]) := fun n hn => by
    rw [List.getElem?_eq_getElem (hn.trans_eq h.symm), Option.getD_some]
  have hrange : List.range parameterCount = exponents.map position ++ [parameterCount - 1] := by
    decide
  have hps : ps = (List.range parameterCount).map fun n => (ps[n]?).getD ps[0] := by
    refine List.ext_getElem (by rw [List.length_map, List.length_range, h]) fun n hn _ => ?_
    rw [List.getElem_map, List.getElem_range, List.getElem?_eq_getElem hn, Option.getD_some]
  refine ⟨fun ij => (ps[position ij]?).getD ps[0], (ps[parameterCount - 1]?).getD ps[0], ?_,
    hget _ (by decide), fun ij hij => hget _ ?_⟩
  · rw [hrange, List.map_append, List.map_map] at hps
    exact hps
  · obtain ⟨hi, hi4, hj, hj4⟩ := exponents_bounds ij hij
    rw [position, parameterCount]
    omega

/-! ## Reading the header -/

/-- The name of the function that the header defines. -/
def distribution : String := "short_range_radial_distribution"

section Reading

variable {fit : Fit Float} {digits : ℕ} {v : ℕ × ℕ → Float} {a : Float}

/-- The lines of a header, with the fitted parameters at hand. -/
def headerLines (pair : Formula Float) (sigma : Float) (v : ℕ × ℕ → Float) (a : Float)
    (digits : ℕ) (stamp : String) : List String :=
  ["// Code generated by smc fit-ghs on " ++ stamp, "#include <math.h>", ""] ++
    [1, 2, 3, 4].flatMap (fun i =>
      [1, 2, 3, 4].map (fun j =>
        declaration (kappaName (i, j)) (fixedText digits (v (i, j)))) ++ [""]) ++
    [declaration alphaName (fixedText digits a), "",
      "// inline double short_range_gsigma_to_eta(const double g_sigma) \x7b",
      "//   if (g_sigma <= 1) return 0;",
      "//   return " ++ (Formula.symbol "h_sigma" : Formula Float).toC ++ ";",
      "// \x7d", "", ""] ++
    function sigma pair.toC

theorem header?_eq (hdigits : digits ≤ precisionLimit)
    (hkappa : ∀ ij ∈ exponents, fit.params[position ij]? = some (v ij))
    (halpha : fit.params[parameterCount - 1]? = some a) (pair : Formula Float) (sigma : Float)
    (stamp : String) :
    header? pair sigma fit digits stamp =
      some (ofLines (headerLines pair sigma v a digits stamp)) := by
  have hfit : ∀ i ∈ [1, 2, 3, 4], ∀ j ∈ [1, 2, 3, 4], fit.kappa? i j = some (v (i, j)) := by
    intro i hi j hj
    exact hkappa (i, j) (List.mem_flatMap.mpr ⟨i, hi, List.mem_map_of_mem hj⟩)
  have hrow : ∀ i ∈ [1, 2, 3, 4], rowDeclarations digits fit i = some
      ([1, 2, 3, 4].map (fun j =>
        declaration (kappaName (i, j)) (fixedText digits (v (i, j)))) ++ [""]) := by
    intro i hi
    have h := hfit i hi
    simp only [List.forall_mem_cons] at h
    obtain ⟨h1, h2, h3, h4⟩ := h
    simp only [rowDeclarations, List.mapM_cons, List.mapM_nil, h1, h2, h3, h4,
      fixedText?_of_le hdigits, Option.bind_eq_bind, Option.bind_some, Option.pure_def]
    rfl
  simp only [List.forall_mem_cons] at hrow
  obtain ⟨h1, h2, h3, h4⟩ := hrow
  have ha : fit.alpha? = some a := halpha
  simp only [header?, List.mapM_cons, List.mapM_nil, h1, h2, h3, h4, ha,
    fixedText?_of_le hdigits, Option.bind_eq_bind, Option.bind_some, Option.pure_def]
  rfl

/-- There is no header with more digits than a layout takes, whatever the fit. -/
theorem header?_eq_none (hdigits : precisionLimit < digits) (pair : Formula Float) (sigma : Float)
    (stamp : String) : header? pair sigma fit digits stamp = none := by
  have hrow : rowDeclarations digits fit 1 = none := by
    simp only [rowDeclarations, List.mapM_cons, fixedText?_of_lt hdigits, Option.bind_eq_bind,
      Option.bind_none, Option.bind_fun_none]
  simp only [header?, List.mapM_cons, hrow, Option.bind_eq_bind, Option.bind_none]

theorem header?_eq_none_iff (hlength : fit.params.length = parameterCount)
    (pair : Formula Float) (sigma : Float) (stamp : String) :
    header? pair sigma fit digits stamp = none ↔ precisionLimit < digits := by
  refine ⟨fun hnone => ?_, fun hdigits => header?_eq_none hdigits pair sigma stamp⟩
  by_contra hle
  obtain ⟨v, a, -, halpha, hkappa⟩ := exists_map_exponents hlength
  rw [header?_eq (Nat.not_lt.mp hle) hkappa halpha] at hnone
  exact absurd hnone (by simp)

/-- The declaration of a constant is read as one. -/
theorem reads_declaration {name : String} (hname : isIdentifier name = true) {x : Float}
    {t : Tree} (ht : IsExpression (fixedText digits x).toList t) :
    Reads [declaration name (fixedText digits x)] [.constant name t] := by
  have htext : (declaration name (fixedText digits x)).toList = "const double ".toList ++
      (name.toList ++ (" = ".toList ++ ((fixedText digits x).toList ++ ";".toList))) := by
    refine Eq.trans
      (b := ("const double " ++ name ++ " = " ++ fixedText digits x ++ ";").toList) rfl ?_
    simp only [String.toList_append, List.append_assoc]
  have hname' : '\n' ∉ name.toList := fun h => absurd (mem_of_isIdentifier hname _ h) (by decide)
  refine .statement ?_ ?_ .nil
  · rw [htext]
    simp only [List.mem_append, not_or]
    exact ⟨by decide, hname', by decide, ht.newline_not_mem, by decide⟩
  · rw [htext]
    exact line?_constant hname ht

/-- The body of the function that the header defines. -/
def functionBody (lower model : Tree) : List Statement :=
  [.guard "g_sigma" true (.number ['1']) (.number ['1']), .guard "r" false lower (.number ['0']),
    .constant "h_sigma" (.binary .sub (.name "g_sigma") (.number ['1'])), .result model]

/-- The function is read with its bound and its model. -/
theorem reads_function {sigma : Float} {body : String} {lower model : Tree}
    (hlower : IsExpression (roundedText sigma).toList lower)
    (hparen : ')' ∉ (roundedText sigma).toList) (hmodel : IsExpression body.toList model) :
    Reads (function sigma body)
      (.opening distribution ["g_sigma", "r"] :: (functionBody lower model ++ [.closing])) := by
  have hguard : ("  if (r < " ++ roundedText sigma ++ ") return 0;").toList =
      "  if (r < ".toList ++ ((roundedText sigma).toList ++ ") return 0;".toList) := by
    simp only [String.toList_append, List.append_assoc]
  have hresult : ("  return " ++ body ++ ";").toList =
      "  return ".toList ++ (body.toList ++ ";".toList) := by
    simp only [String.toList_append, List.append_assoc]
  refine .statement (by decide +kernel) (by decide +kernel) <|
    .statement (by decide +kernel) (by decide +kernel) <| .statement ?_ ?_ <|
    .statement (by decide +kernel) (by decide +kernel) <| .statement ?_ ?_ <|
    .statement (by decide +kernel) (by decide +kernel) .nil
  · rw [hguard]
    simp only [List.mem_append, not_or]
    exact ⟨by decide, hlower.newline_not_mem, by decide⟩
  · rw [hguard]
    exact line?_guard hlower hparen
  · rw [hresult]
    simp only [List.mem_append, not_or]
    exact ⟨by decide, hmodel.newline_not_mem, by decide⟩
  · rw [hresult]
    exact line?_result hmodel

/-- What the header is read as, with a tree for every finite number. -/
def constantsOf (tree : Float → Tree) (v : ℕ × ℕ → Float) (a : Float) : List (String × Tree) :=
  exponents.map (fun ij => (kappaName ij, tree (v ij))) ++ [(alphaName, tree a)]

theorem reads_headerLines {pair : Formula Float} {sigma : Float} {stamp : String}
    {tree : Float → Tree} {lower model : Tree} (hstamp : '\n' ∉ stamp.toList)
    (hv : ∀ ij ∈ exponents, IsExpression (fixedText digits (v ij)).toList (tree (v ij)))
    (ha : IsExpression (fixedText digits a).toList (tree a))
    (hfunction : Reads (function sigma pair.toC)
      (.opening distribution ["g_sigma", "r"] :: (functionBody lower model ++ [.closing]))) :
    Reads (headerLines pair sigma v a digits stamp)
      ((constantsOf tree v a).map (fun c => .constant c.1 c.2) ++
        .opening distribution ["g_sigma", "r"] :: (functionBody lower model ++ [.closing])) := by
  have hkappa : ∀ ij ∈ exponents, isIdentifier (kappaName ij) = true := by decide +kernel
  have htop : Reads ["// Code generated by smc fit-ghs on " ++ stamp, "#include <math.h>", ""]
      [] := by
    refine .nothing ?_ ?_ <| .nothing (by decide +kernel) (by decide +kernel) <|
      .nothing (by decide +kernel) (by decide +kernel) .nil
    · rw [String.toList_append, List.mem_append, not_or]
      exact ⟨by decide, hstamp⟩
    · rw [String.toList_append]
      exact line?_comment _
  have hrow : ∀ i ∈ [1, 2, 3, 4], Reads
      ([1, 2, 3, 4].map (fun j =>
        declaration (kappaName (i, j)) (fixedText digits (v (i, j)))) ++ [""])
      ([1, 2, 3, 4].map fun j => .constant (kappaName (i, j)) (tree (v (i, j)))) := by
    intro i hi
    have hdeclarations : ∀ j ∈ [1, 2, 3, 4], Reads
        [declaration (kappaName (i, j)) (fixedText digits (v (i, j)))]
        [.constant (kappaName (i, j)) (tree (v (i, j)))] := by
      intro j hj
      have hij : (i, j) ∈ exponents := List.mem_flatMap.mpr ⟨i, hi, List.mem_map_of_mem hj⟩
      exact reads_declaration (hkappa _ hij) (hv _ hij)
    have hempty : Reads [""] [] := .nothing (by decide +kernel) (by decide +kernel) .nil
    exact (Reads.flatMap hdeclarations).append hempty
  have hmiddle : Reads [declaration alphaName (fixedText digits a), "",
      "// inline double short_range_gsigma_to_eta(const double g_sigma) \x7b",
      "//   if (g_sigma <= 1) return 0;",
      "//   return " ++ (Formula.symbol "h_sigma" : Formula Float).toC ++ ";",
      "// \x7d", "", ""] [.constant alphaName (tree a)] := by
    refine (reads_declaration (by decide +kernel) ha).append ?_
    exact .nothing (by decide +kernel) (by decide +kernel) <|
      .nothing (by decide +kernel) (by decide +kernel) <|
      .nothing (by decide +kernel) (by decide +kernel) <|
      .nothing (by decide +kernel) (by decide +kernel) <|
      .nothing (by decide +kernel) (by decide +kernel) <|
      .nothing (by decide +kernel) (by decide +kernel) <|
      .nothing (by decide +kernel) (by decide +kernel) .nil
  have hall := ((htop.append (Reads.flatMap hrow)).append hmiddle).append hfunction
  rw [constantsOf, List.map_append, List.map_map]
  exact hall

/-- The header that constants and the function make. -/
def headerOf (constants : List (String × Tree)) (lower model : Tree) : CHeader.Header :=
  ⟨constants, [⟨distribution, ["g_sigma", "r"], functionBody lower model⟩]⟩

/-- The constants of the header are those of the fit. -/
theorem declares_headerOf {tree : Float → Tree} {value : Float → ℝ} {lower model : Tree}
    (hsplit : fit.params = exponents.map v ++ [a])
    (hparse : ∀ x ∈ fit.params, parse? (fixedText digits x) = some (tree x))
    (hvalue : ∀ x ∈ fit.params, ∀ env, (tree x).value? env = some (value x)) :
    Declares (headerOf (constantsOf tree v a) lower model) fit digits (fit.params.map value) := by
  have htrees : ∀ {γ : Type} (g : Tree → γ), (constantsOf tree v a).map (fun c => g c.2) =
      fit.params.map fun x => g (tree x) := fun g => by
    rw [hsplit, constantsOf, List.map_append, List.map_append, List.map_map, List.map_map]
    rfl
  refine ⟨?_, ?_, ?_⟩
  · refine Eq.trans (b := (constantsOf tree v a).map Prod.fst) rfl ?_
    rw [constantsOf, List.map_append, List.map_map]
    rfl
  · exact (htrees some).trans (List.map_congr_left fun x hx => (hparse x hx).symm)
  · rw [List.map_map]
    exact (htrees fun t => t.value? fun _ => none).trans
      (List.map_congr_left fun x hx => hvalue x hx _)

theorem read?_ofLines {ls : List String} {constants : List (String × Tree)} {lower model : Tree}
    (h : Reads ls (constants.map (fun c => .constant c.1 c.2) ++
      .opening distribution ["g_sigma", "r"] :: (functionBody lower model ++ [.closing]))) :
    read? (ofLines ls) = some (headerOf constants lower model) := by
  rw [read?, ofLines, h.statements?_eq, Option.bind_some, List.foldlM_append,
    foldlM_place?_constants]
  rfl

end Reading

/-! ## Calling the function -/

section Calling

open Classical in
/-- What the function is documented to return: one without excess, nothing below the diameter, and
the fitted value from the diameter on. -/
noncomputable def piecewise (sigma contact r fitted : ℝ) : ℝ :=
  if contact ≤ 1 then 1 else if r < sigma then 0 else fitted

variable {tree : Float → Tree} {value : Float → ℝ} {v : ℕ × ℕ → Float} {a : Float}

/-- The constants have their values. -/
theorem exists_environment
    (hvalue : ∀ ij ∈ exponents, ∀ env, (tree (v ij)).value? env = some (value (v ij)))
    (ha : ∀ env, (tree a).value? env = some (value a)) :
    ∃ env, environment? (constantsOf tree v a) = some env ∧
      ∀ ij ∈ exponents, env (kappaName ij) = some (value (v ij)) := by
  -- the names of the coefficients tell them apart
  have hfind : ∀ ij ∈ exponents,
      exponents.find? (fun x => kappaName x == kappaName ij) = some ij := by decide +kernel
  have hnone : exponents.find? (fun x => kappaName x == alphaName) = none := by decide +kernel
  let named : String → ℝ := fun s => value ((exponents.find? (kappaName · == s)).elim a v)
  have hnamed : ∀ c ∈ constantsOf tree v a, ∀ env, c.2.value? env = some (named c.1) := by
    intro c hc
    rw [constantsOf, List.mem_append, List.mem_map, List.mem_singleton] at hc
    rcases hc with ⟨ij, hij, rfl⟩ | rfl
    · intro env
      simp only [named, hfind ij hij, Option.elim_some]
      exact hvalue ij hij env
    · intro env
      simp only [named, hnone, Option.elim_none]
      exact ha env
  refine ⟨_, environment?_eq hnamed, fun ij hij => ?_⟩
  have hmem : kappaName ij ∈ (constantsOf tree v a).map Prod.fst :=
    List.mem_map.mpr ⟨_, List.mem_append_left _ (List.mem_map_of_mem hij), rfl⟩
  rw [if_pos hmem]
  simp only [named, hfind ij hij, Option.elim_some]

/-- The function returns one without excess, nothing below its bound, and otherwise what its model
returns for the excess and the distance. -/
theorem call?_headerOf {constants : List (String × Tree)} {lower model : Tree}
    {env : String → Option ℝ} {b : ℝ} (henv : environment? constants = some env)
    (hlower : ∀ env, lower.value? env = some b) (contact r : ℝ) :
    (headerOf constants lower model).call? distribution [contact, r] =
      if contact ≤ 1 then some 1 else if r < b then some 0 else
        model.value? (Function.update (Function.update (Function.update env
          "g_sigma" (some contact)) "r" (some r)) "h_sigma" (some (contact - 1))) := by
  have hone : numeralValue? ['1'] = some 1 :=
    (value?_decimalDigits (n := 1) (by norm_num) env).trans (congrArg some Nat.cast_one)
  have hzero : numeralValue? ['0'] = some 0 :=
    (value?_decimalDigits (n := 0) (by norm_num) env).trans (congrArg some Nat.cast_zero)
  have hfind : (headerOf constants lower model).functions.find? (·.name == distribution) =
      some ⟨distribution, ["g_sigma", "r"], functionBody lower model⟩ :=
    List.find?_cons_of_pos (beq_self_eq_true distribution)
  have hrun : (headerOf constants lower model).call? distribution [contact, r] =
      run? (Function.update (Function.update env "g_sigma" (some contact)) "r" (some r))
        (functionBody lower model) := by
    rw [CHeader.Header.call?, hfind]
    exact congrArg (Option.bind · _) henv
  have hcontact : Function.update (Function.update env "g_sigma" (some contact)) "r" (some r)
      "g_sigma" = some contact := rfl
  have hr : Function.update (Function.update env "g_sigma" (some contact)) "r" (some r) "r" =
      some r := rfl
  rw [hrun]
  generalize Function.update (Function.update env "g_sigma" (some contact)) "r" (some r) = e
    at hcontact hr
  simp only [functionBody, run?, Tree.value?, hcontact, hr, hone, hzero, hlower, Option.bind_some,
    Operator.result?]
  exact if_congr (by rw [true_and, le_iff_lt_or_eq]) rfl (if_congr (by simp) rfl rfl)

end Calling

/-! ## The meaning of the header -/

section Meaning

/-- The carried-out pair correlation has a value other than zero close to contact. -/
theorem exists_pairValue_ne_zero (c : ℝ) (k : ℕ × ℕ → ℝ) (z : ℕ → ℝ) :
    ∃ x > 0, pairValue c k z x ≠ 0 := by
  have hcontinuous : ContinuousAt (pairValue c k z) 0 := by
    unfold pairValue
    fun_prop (disch := simp)
  have hone : pairValue c k z 0 = 1 := by
    have hterms : exponents.map (fun ij => k ij * (0 : ℝ) ^ ij.1 * z ij.2) =
        exponents.map fun _ => 0 := by
      refine List.map_congr_left fun ij hij => ?_
      rw [zero_pow (by have := exponents_bounds ij hij; omega), mul_zero, zero_mul]
    rw [pairValue, hterms]
    simp
  have hne : pairValue c k z 0 ≠ 0 := hone ▸ one_ne_zero
  obtain ⟨x, hx, hpos⟩ := (((hcontinuous.eventually_ne hne).filter_mono
    nhdsWithin_le_nhds).and (self_mem_nhdsWithin (s := Set.Ioi 0))).exists
  exact ⟨x, hpos, hx⟩

/-- Two bounds are told apart between them, where there is an excess. -/
theorem piecewise_ne {b sigma x fitted : ℝ} (h : b ≠ sigma) (hx : 0 < x) (hfitted : fitted ≠ 0) :
    piecewise b (1 + x) (min b sigma) fitted ≠ piecewise sigma (1 + x) (min b sigma) fitted := by
  have hcontact : ¬1 + x ≤ 1 := by linarith
  rw [piecewise, piecewise, if_neg hcontact, if_neg hcontact]
  rcases h.lt_or_gt with hlt | hgt
  · rw [min_eq_left hlt.le, if_neg (lt_irrefl b), if_pos hlt]
    exact hfitted
  · rw [min_eq_right hgt.le, if_neg (lt_irrefl sigma), if_pos hgt]
    exact hfitted.symm

variable {sigma : Float} {fit : Fit Float} {pair : Formula Float} {stamp : String}

theorem Declares.length_params {header : CHeader.Header} {digits : ℕ} {params : List ℝ}
    (h : Declares header fit digits params) : params.length = parameterCount := by
  have hvalues := congrArg List.length h.values
  have hnames := congrArg List.length h.names
  rw [List.length_map, List.length_map] at hvalues
  rw [List.length_map] at hnames
  exact hvalues.symm.trans hnames

/-- The header of a fit is read, declares the parameters, and its function returns one without
excess, nothing below the bound, and the value of the pair correlation from the bound on. -/
theorem exists_header (hfinite : sigma.isFinite = true) (hpos : 0 < realOf sigma)
    (hlength : fit.params.length = parameterCount) (hparams : ∀ v ∈ fit.params, v.isFinite = true)
    {digits : ℕ} (hdigits : digits ≤ precisionLimit) (hstamp : '\n' ∉ stamp.toList)
    (hnormal : pair.IsNormal)
    (hconstants : ∀ c ∈ pair.constants, c.isFinite = true)
    (hnames : ∀ s ∈ pair.occurrences, s = "h_sigma" ∨ s = "r" ∨ ∃ ij ∈ exponents, s = kappaName ij)
    {fitted : (ℕ × ℕ → ℝ) → ℝ → ℝ → ℝ}
    (hfitted : ∀ env k x r, (∀ ij ∈ exponents, env (kappaName ij) = some (k ij)) →
      env "h_sigma" = some x → env "r" = some r →
      (pair.mapConstants realOf).HasValue PowerDomain.real env (fitted k x r)) :
    ∃ text header params, header? pair sigma fit digits stamp = some text ∧
      read? text = some header ∧ Declares header fit digits params ∧
      ∀ contact r, header.call? distribution [contact, r] = some
        (piecewise (bound (realOf sigma)) contact r (fitted (coefficientOf params) (contact - 1) r))
    := by
  have hnumber : ∀ x : Float, ∃ t v, x.isFinite = true → parse? (fixedText digits x) = some t ∧
      IsExpression (fixedText digits x).toList t ∧ ∀ env, t.value? env = some v := by
    intro x
    by_cases hx : x.isFinite = true
    · obtain ⟨t, v, h⟩ := exists_isExpression_fixedText digits hx
      exact ⟨t, v, fun _ => h⟩
    · exact ⟨.number [], 0, fun h => absurd h hx⟩
  choose tree value hread using hnumber
  obtain ⟨v, a, hsplit, halpha, hkappa⟩ := exists_map_exponents hlength
  have hfiniteParam : (∀ ij ∈ exponents, (v ij).isFinite = true) ∧ a.isFinite = true := by
    rw [hsplit] at hparams
    exact ⟨fun ij hij => hparams _ (List.mem_append_left _ (List.mem_map_of_mem hij)),
      hparams _ (List.mem_append_right _ (List.mem_singleton_self a))⟩
  obtain ⟨hv, ha⟩ := hfiniteParam
  obtain ⟨lower, hlower, hparen, hbound⟩ := exists_isExpression_roundedText hfinite hpos
  have hvariable : IsVariable "h_sigma" ∧ IsVariable "r" ∧
      ∀ ij ∈ exponents, IsVariable (kappaName ij) := by
    unfold IsVariable
    decide +kernel
  obtain ⟨model, -, hmodel, -, hvalue⟩ := Formula.exists_tree_toC hnormal hconstants fun s hs => by
    rcases hnames s hs with rfl | rfl | ⟨ij, hij, rfl⟩
    · exact hvariable.1
    · exact hvariable.2.1
    · exact hvariable.2.2 ij hij
  obtain ⟨env, henv, hnamed⟩ := exists_environment (fun ij hij => (hread _ (hv ij hij)).2.2)
    (hread a ha).2.2
  refine ⟨_, headerOf (constantsOf tree v a) lower model, fit.params.map value,
    header?_eq hdigits hkappa halpha pair sigma stamp,
    read?_ofLines (reads_headerLines hstamp (fun ij hij => (hread _ (hv ij hij)).2.1)
      (hread a ha).2.1 (reads_function hlower hparen (isExpression_of_parse? hmodel))),
    declares_headerOf hsplit (fun x hx => (hread x (hparams x hx)).1)
      (fun x hx => (hread x (hparams x hx)).2.2), fun contact r => ?_⟩
  have hcoefficient : ∀ ij ∈ exponents, coefficientOf (fit.params.map value) ij = value (v ij) := by
    intro ij hij
    have hget := hkappa ij hij
    rw [position] at hget
    rw [coefficientOf, List.getElem?_map, hget, Option.map_some, Option.getD_some]
  have hother : ∀ ij ∈ exponents, kappaName ij ≠ "h_sigma" ∧ kappaName ij ≠ "r" ∧
      kappaName ij ≠ "g_sigma" := by decide +kernel
  rw [call?_headerOf henv hbound, piecewise, apply_ite some, apply_ite some]
  refine if_congr Iff.rfl rfl (if_congr Iff.rfl rfl (hvalue _ _ (hfitted _ _ _ _ ?_ ?_ ?_)))
  · intro ij hij
    obtain ⟨hexcess, hr, hcontact⟩ := hother ij hij
    rw [Function.update_of_ne hexcess, Function.update_of_ne hr, Function.update_of_ne hcontact,
      hnamed ij hij, hcoefficient ij hij]
  · exact Function.update_self _ _ _
  · rfl

/-- The standard switch does not fold away, if the fourth power of a quarter is positive. -/
theorem switched_quarter {e : ElementaryFunctions} (hpow : 0 < realOf (e.pow 0.25 4.0)) :
    @Switched Float ℝ (Scalar.doublesWith e) _ realOf 0.25 := by
  have hfour : doubleOfInt 4 = 4.0 := @Reading.eq_of_ofFloat_eq _ _ false ⟨2 ^ 52, -50⟩
    (by decide +kernel) (by decide +kernel)
  have hone : ((0.25 : Float) == 1.0) = false := by decide +kernel
  have hconstant : @switchConstant Float (Scalar.doublesWith e) 0.25 = e.pow 0.25 4.0 := by
    refine Eq.trans
      (b := if (0.25 : Float) == 1.0 then 1.0 else e.pow 0.25 (doubleOfInt 4)) rfl ?_
    rw [hone, hfour]
    rfl
  have hzero : ((0.25 : Float) == 0.0) = false := by decide +kernel
  refine @Switched.mk Float ℝ (Scalar.doublesWith e) _ realOf 0.25 hzero ?_
  rw [hconstant]
  exact hpow

/-- **The published header.**  There is a header of a finite fit unless its digits are more than a
layout takes.  It is read, with the parameters as they are written, and its function returns one
without excess, nothing below the bound that is written for the diameter, and from there on the
value of the compiled model at the parameters of the header.  That is what it is documented to
return exactly if the diameter is a whole number. -/
theorem documented_iff_whole (e : ElementaryFunctions) (hpow : 0 < realOf (e.pow 0.25 4.0))
    (hfinite : sigma.isFinite = true) (hpos : 0 < realOf sigma)
    (hlength : fit.params.length = parameterCount) (hparams : ∀ v ∈ fit.params, v.isFinite = true)
    (digits : ℕ) (hstamp : '\n' ∉ stamp.toList) :
    ∃ pair program,
      @Ansatz.model Float (Scalar.doublesWith e) { standard with sigma := sigma } =
        .ok (pair, program) ∧
      (header? pair sigma fit digits stamp = none ↔ precisionLimit < digits) ∧
      ((∀ c ∈ pair.constants, c.isFinite = true) → digits ≤ precisionLimit →
        ∃ text header params, header? pair sigma fit digits stamp = some text ∧
          read? text = some header ∧ Declares header fit digits params ∧
          (∀ contact r, ∃ fitted,
            modelValue? (program.mapConstants realOf) params contact r = some fitted ∧
            header.call? distribution [contact, r] =
              some (piecewise (bound (realOf sigma)) contact r fitted)) ∧
          ((∀ contact r fitted,
            modelValue? (program.mapConstants realOf) params contact r = some fitted →
            header.call? distribution [contact, r] =
              some (piecewise (realOf sigma) contact r fitted)) ↔
            ∃ n : ℕ, n ≤ 2 ^ 63 ∧ realOf sigma = n)) := by
  obtain ⟨pair, program, z, hmodel, hnormal, hnames, hpair, hprogram⟩ :=
    @exists_model Float ℝ (Scalar.doublesWith e) _ realOf (standsFor_realOf e)
      { standard with sigma := sigma } (switched_quarter hpow)
  refine ⟨pair, program, hmodel, header?_eq_none_iff hlength pair sigma stamp,
    fun hconstants hdigits => ?_⟩
  obtain ⟨text, header, params, htext, hread, hdeclares, hcall⟩ :=
    exists_header hfinite hpos hlength hparams hdigits hstamp
      (Formula.isNormal_of_doublesWith hnormal) hconstants hnames (hpair PowerDomain.real)
  have hvalue := fun contact r => hprogram params contact r hdeclares.length_params.ge
  refine ⟨text, header, params, htext, hread, hdeclares,
    fun contact r => ⟨_, hvalue contact r, hcall contact r⟩, ?_⟩
  rw [← bound_eq_iff]
  constructor
  · intro hdocumented
    by_contra hne
    -- between the bound and the diameter one of the two is zero and the other is the model
    obtain ⟨x, hx, hmodel⟩ := exists_pairValue_ne_zero _ (coefficientOf params)
      (z (min (bound (realOf sigma)) (realOf sigma)))
    refine piecewise_ne hne hx hmodel (Option.some.inj ?_)
    have h := hdocumented (1 + x) (min (bound (realOf sigma)) (realOf sigma)) _ (hvalue _ _)
    rw [hcall, add_sub_cancel_left] at h
    exact h
  · intro hbound contact r fitted hfitted
    obtain rfl := Option.some.inj ((hvalue contact r).symm.trans hfitted)
    rw [hcall, hbound]

/-- The elementary functions of the library, with powers by repeated multiplication. -/
def repeatedPowers : ElementaryFunctions where
  exp x := if x == 0.0 then 1.0 else Float.exp x
  log := Float.log
  pow b n := Scalar.powInt b (truncateDouble n)
  exp_zero := if_pos (by decide +kernel)

/-- A fit with thousandths for coefficients. -/
def thousandths : Fit Float where
  params := [0.001, 0.002, 0.003, 0.004, 0.005, 0.006, 0.007, 0.008, 0.009, 0.010, 0.011, 0.012,
    0.013, 0.014, 0.015, 0.016, 3.0]
  unrounded := []
  initialSquares := 0.0
  squares := 0.0
  worst := ⟨0.0, 0.0, 0.0⟩
  cutoff := 6.0
  iterations := 0
  converged := true
  message := ""

/-- The header for a diameter of two and a half does not return what it is documented to. -/
theorem documented_iff_whole_fraction :
    ∃ pair program text header params,
      @Ansatz.model Float (Scalar.doublesWith repeatedPowers) { standard with sigma := 2.5 } =
        .ok (pair, program) ∧
      header? pair 2.5 thousandths 3 "now" = some text ∧ read? text = some header ∧
      ∃ contact r fitted,
        modelValue? (program.mapConstants realOf) params contact r = some fitted ∧
        header.call? distribution [contact, r] ≠ some (piecewise (5 / 2) contact r fitted) := by
  have hread : Reading.ofFloat 2.5 = .finite false ⟨5 * 2 ^ 50, -51⟩ := by decide +kernel
  have hreal : realOf 2.5 = 5 / 2 := by
    rw [realOf_of_ofFloat hread, signedValue, if_neg (by decide), Dyadic.value]
    norm_num
  have hquarter : Reading.ofFloat (repeatedPowers.pow 0.25 4.0) = .finite false ⟨2 ^ 52, -60⟩ := by
    decide +kernel
  have hpow : 0 < realOf (repeatedPowers.pow 0.25 4.0) := by
    rw [realOf_of_ofFloat hquarter, signedValue, if_neg (by decide), Dyadic.value]
    norm_num
  have hpos : 0 < realOf 2.5 := by
    rw [hreal]
    norm_num
  have hparams : ∀ v ∈ thousandths.params, v.isFinite = true := by
    rw [← List.all_eq_true]
    decide +kernel
  have hfinite : (2.5 : Float).isFinite = true := by decide +kernel
  have hlength : thousandths.params.length = parameterCount := rfl
  have hstamp : '\n' ∉ "now".toList := by decide
  have hfraction : ¬∃ n : ℕ, n ≤ 2 ^ 63 ∧ realOf 2.5 = n := by
    rintro ⟨n, -, hn⟩
    rw [hreal, div_eq_iff two_ne_zero] at hn
    have hodd : 5 = n * 2 := by exact_mod_cast hn
    omega
  obtain ⟨pair, program, hmodel, -, hheader⟩ :=
    documented_iff_whole repeatedPowers hpow hfinite hpos hlength hparams 3 hstamp
  have hconstants : ∀ c ∈ pair.constants, c.isFinite = true := by
    have hall : (@Ansatz.model Float (Scalar.doublesWith repeatedPowers)
        { standard with sigma := 2.5 }).map (·.1.constants.all Float.isFinite) = .ok true := by
      decide +kernel
    rw [hmodel] at hall
    exact List.all_eq_true.mp (Except.ok.inj hall)
  obtain ⟨text, header, params, htext, hread, -, -, hiff⟩ := hheader hconstants (by decide)
  have hdiffers := mt hiff.mp hfraction
  push Not at hdiffers
  rw [hreal] at hdiffers
  exact ⟨pair, program, text, header, params, hmodel, htext, hread, hdiffers⟩

end Meaning

end Publication

end SphereLab
