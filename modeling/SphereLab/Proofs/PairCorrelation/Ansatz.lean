import Mathlib
import SphereLab.PairCorrelation.Ansatz
import SphereLab.Proofs.Formula.Program

/-!
# The carried-out ansatz

Carrying out the definitions of the ansatz gives the same formula as building it with the reduced
distance in the place of its symbol, and replacing the excess contact value by `g_sigma - 1` gives
the same formula as building it with that in the place of its symbol.  None of the constants that
either of these folds leaves a rounding error, except those in which the diameter enters the
reduced distance.

* `pairAt`: the pair correlation built from formulas for the excess and for the powers of the gap.
* `hasValue_pairAt`: its value.
-/

namespace SphereLab

namespace Ansatz

open Formula

variable {α β : Type} [Scalar α] [ExactScalar β] {exact : α → β} {D : PowerDomain β}
  {env : String → Option β}

/-! ## The parts of the ansatz -/

/-- The fourth power of the scaled excess. -/
def bell (scale : α) (H : Formula α) : Formula α := (Formula.const scale * H).powInt 4

/-- The reciprocal of the switch. -/
def switchAt (scale : α) (H : Formula α) : Formula α := bell scale H + .const 1

/-- One term of the polynomial. -/
def termAt (H : Formula α) (Z : Nat → Formula α) (ij : Nat × Nat) : Formula α :=
  productOf [.symbol (kappaName ij), H.powInt ij.1, Z ij.2]

/-- The polynomial that the switch multiplies. -/
def polynomialAt (H : Formula α) (Z : Nat → Formula α) : Formula α :=
  sumOf (H :: exponents.map (termAt H Z))

/-- The pair correlation, from formulas for the excess and for the powers of the gap. -/
def pairAt (scale : α) (H : Formula α) (Z : Nat → Formula α) : Formula α :=
  sumOf [productOf [(switchAt scale H).recip, polynomialAt H Z], .const 1]

/-! ## Terms -/

/-- The exponents of the coefficients lie between one and four. -/
theorem exponents_bounds : ∀ ij ∈ exponents, 1 ≤ ij.1 ∧ ij.1 ≤ 4 ∧ 1 ≤ ij.2 ∧ ij.2 ≤ 4 := by
  decide

/-- A product with the same factors, spliced, is the same product. -/
theorem productOf_congr {fs gs : List (Formula α)} (h : fs.flatMap factors = gs.flatMap factors) :
    productOf fs = productOf gs := by rw [productOf, productOf, h]

section Terms

variable {H : Formula α} {Z : Nat → Formula α} {ij : Nat × Nat}

/-- The factors of a term: the coefficient, the power of the excess, and those of the power of the
gap. -/
theorem flatMap_factors_term (hexact : StandsFor exact) (hH : Plain H) (hij : ij ∈ exponents) :
    [.symbol (kappaName ij), H.powInt ij.1, Z ij.2].flatMap factors =
      .symbol (kappaName ij) :: H.powInt ij.1 :: (Z ij.2).factors := by
  obtain ⟨hi, hi4, -⟩ := exponents_bounds ij hij
  have hpower : (H.powInt ij.1).factors = [H.powInt ij.1] := by
    have hproduct := (hH.powInt_factor hexact hi (by omega)).2
    cases hf : H.powInt ij.1 with
    | product fs =>
      rw [hf] at hproduct
      exact absurd trivial hproduct
    | const c | symbol c | sum c | power c d | exponential c => rfl
  rw [List.flatMap_cons, List.flatMap_cons, List.flatMap_singleton, hpower]
  rfl

/-- The constants among the factors of a normal formula: at most one. -/
theorem constants_factors {f : Formula α} (h : f.IsNormal) :
    f.factors.filterMap const? = [] ∨ ∃ c, f.factors.filterMap const? = [c] := by
  cases f with
  | const c => exact Or.inr ⟨c, rfl⟩
  | symbol s | sum ts | power b e | exponential x => exact Or.inl rfl
  | product fs =>
    obtain ⟨-, -, hconst, -⟩ := (isNormal_product_iff.mp h).1
    rw [factors]
    cases fs with
    | nil => exact Or.inl rfl
    | cons g gs =>
      have hrest := filterMap_const?_eq_nil hconst
      rw [List.tail_cons] at hrest
      cases hg : g.const? with
      | none => exact Or.inl (by rw [List.filterMap_cons_none hg, hrest])
      | some c => exact Or.inr ⟨c, by rw [List.filterMap_cons_some hg, hrest]⟩

/-- The constants of a product are multiplied without an error if there is at most one. -/
theorem exact_foldl_mul (hexact : StandsFor exact) {cs : List α} (h : cs = [] ∨ ∃ c, cs = [c]) :
    exact (cs.foldl (· * ·) 1) = (cs.map exact).prod := by
  rcases h with rfl | ⟨c, rfl⟩
  · exact hexact.exact_one
  · rw [List.foldl_cons, List.foldl_nil, hexact.one_mul, List.map_singleton, List.prod_singleton]

/-- A term has the value of its factors. -/
theorem hasValue_termAt (hexact : StandsFor exact) (hH : Plain H) (hij : ij ∈ exponents)
    (hZ : (Z ij.2).IsNormal) {k x z : β} (hk : env (kappaName ij) = some k)
    (hx : (H.mapConstants exact).HasValue D env x)
    (hz : ((Z ij.2).mapConstants exact).HasValue D env z) :
    ((termAt H Z ij).mapConstants exact).HasValue D env (k * x ^ ij.1 * z) := by
  obtain ⟨hi, hi4, -⟩ := exponents_bounds ij hij
  have hfold : exact ((([.symbol (kappaName ij), H.powInt ij.1, Z ij.2].flatMap
      factors).filterMap const?).foldl (· * ·) 1) = ((([.symbol (kappaName ij), H.powInt ij.1,
      Z ij.2].flatMap factors).filterMap const?).map exact).prod := by
    rw [flatMap_factors_term hexact hH hij, List.filterMap_cons_none rfl,
      List.filterMap_cons_none (hH.powInt_factor hexact hi (by omega)).1]
    exact exact_foldl_mul hexact (constants_factors hZ)
  have hvalues : HaveValues D env ([.symbol (kappaName ij), H.powInt ij.1, Z ij.2].map
      (mapConstants exact)) [k, x ^ ij.1, z] :=
    .cons (hasValue_symbol_iff.mpr hk)
      (.cons (hH.hasValue_powInt hexact hi (by omega) hx) (.cons hz .nil))
  have hvalue := hasValue_mapConstants_productOf hexact hfold hvalues
  rwa [List.prod_cons, List.prod_cons, List.prod_singleton, ← mul_assoc] at hvalue

/-- A term is zero or a product. -/
theorem termAt_cases (hexact : StandsFor exact) (hH : Plain H) (hij : ij ∈ exponents) :
    termAt H Z ij = .const 0 ∨ ∃ fs, termAt H Z ij = .product fs := by
  obtain ⟨hi, hi4, -⟩ := exponents_bounds ij hij
  have hpower := (hH.powInt_factor hexact hi (by omega)).1
  rw [termAt, productOf, flatMap_factors_term hexact hH hij,
    List.filter_cons_of_pos (by rfl), List.filter_cons_of_pos (by rw [hpower]; rfl)]
  split
  · exact Or.inl rfl
  · refine Or.inr ?_
    split
    · exact ⟨_, rfl⟩
    · exact ⟨_, rfl⟩

end Terms

/-! ## The polynomial -/

/-- A formula for the excess contact value: a symbol, or a symbol less one. -/
inductive IsExcess : Formula α → Prop where
  | symbol (s : String) : IsExcess (.symbol s)
  | shifted (s : String) : IsExcess (.sum [.symbol s, .const (-1)])

theorem IsExcess.plain {H : Formula α} (h : IsExcess H) : Plain H := by
  cases h with
  | symbol s => exact .symbol s
  | shifted s => exact .sum _

section Polynomial

variable {H : Formula α} {Z : Nat → Formula α} {ts : List (Formula α)}

/-- Adding zeros leaves a constant alone, if adding one does. -/
theorem foldl_add_zeros {c : α} (hc : c + 0 = c) {cs : List α} (hcs : ∀ d ∈ cs, d = 0) :
    cs.foldl (· + ·) c = c := by
  induction cs with
  | nil => rfl
  | cons d cs ih =>
    obtain ⟨rfl, hrest⟩ := List.forall_mem_cons.mp hcs
    rw [List.foldl_cons, hc, ih hrest]

/-- Zeros and products are spliced into a sum as they are. -/
theorem splice_terms (hts : ∀ t ∈ ts, t = .const 0 ∨ ∃ fs, t = .product fs) :
    ts.flatMap terms = ts ∧ ∀ c ∈ ts.filterMap const?, c = 0 := by
  constructor
  · refine flatMap_terms_eq_self fun t ht => ?_
    rcases hts t ht with rfl | ⟨fs, rfl⟩
    · exact id
    · exact id
  · intro c hc
    obtain ⟨t, ht, hconst⟩ := List.mem_filterMap.mp hc
    rcases hts t ht with rfl | ⟨fs, rfl⟩
    · exact (Option.some.inj hconst).symm
    · exact absurd hconst (by simp [const?])

theorem sumOf_symbol (hexact : StandsFor exact) (s : String)
    (hts : ∀ t ∈ ts, t = .const 0 ∨ ∃ fs, t = .product fs) :
    sumOf (.symbol s :: ts) = ofTerms (.symbol s :: ts.filter (·.const?.isNone)) := by
  obtain ⟨hterms, hzeros⟩ := splice_terms hts
  rw [sumOf, List.flatMap_cons, hterms, terms, List.singleton_append,
    List.filterMap_cons_none rfl, foldl_add_zeros hexact.zero_add_zero hzeros,
    List.filter_cons_of_pos (by rfl), if_pos hexact.zero_beq_zero]
  simp

theorem sumOf_shifted (hexact : StandsFor exact) (s : String)
    (hts : ∀ t ∈ ts, t = .const 0 ∨ ∃ fs, t = .product fs) :
    sumOf (.sum [.symbol s, .const (-1)] :: ts) =
      ofTerms (.symbol s :: (ts.filter (·.const?.isNone) ++ [.const (-1)])) := by
  obtain ⟨hterms, hzeros⟩ := splice_terms hts
  rw [sumOf, List.flatMap_cons, hterms, terms, List.cons_append, List.singleton_append,
    List.filterMap_cons_none rfl, List.filterMap_cons_some (const?_const _), List.foldl_cons,
    hexact.zero_add _ hexact.neg_one_beq_zero, foldl_add_zeros hexact.neg_one_add_zero hzeros,
    List.filter_cons_of_pos (by rfl), List.filter_cons_of_neg (by exact Bool.false_ne_true),
    if_neg (by rw [hexact.neg_one_beq_zero]; exact Bool.false_ne_true)]
  rfl

/-- Zeros behind the excess have no effect. -/
theorem sumOf_filter (hexact : StandsFor exact) (hH : IsExcess H)
    (hts : ∀ t ∈ ts, t = .const 0 ∨ ∃ fs, t = .product fs) :
    sumOf (H :: ts.filter (·.const?.isNone)) = sumOf (H :: ts) := by
  have hts' : ∀ t ∈ ts.filter (·.const?.isNone), t = .const 0 ∨ ∃ fs, t = .product fs :=
    fun t ht => hts t (List.mem_of_mem_filter ht)
  have htwice : (ts.filter (·.const?.isNone)).filter (·.const?.isNone) =
      ts.filter (·.const?.isNone) := by simp
  cases hH with
  | symbol s => rw [sumOf_symbol hexact s hts, sumOf_symbol hexact s hts', htwice]
  | shifted s => rw [sumOf_shifted hexact s hts, sumOf_shifted hexact s hts', htwice]

/-- The terms of the polynomial are zeros and products. -/
theorem forall_mem_terms (hexact : StandsFor exact) (hH : Plain H) :
    ∀ t ∈ exponents.map (termAt H Z), t = .const 0 ∨ ∃ fs, t = .product fs :=
  List.forall_mem_map.mpr fun _ hij => termAt_cases hexact hH hij

/-- The polynomial is a symbol or a sum. -/
theorem plain_polynomialAt (hexact : StandsFor exact) (hH : IsExcess H) :
    Plain (polynomialAt H Z) := by
  have hts := forall_mem_terms (Z := Z) hexact hH.plain
  rw [polynomialAt]
  cases hH with
  | symbol s =>
    rw [sumOf_symbol hexact s hts]
    cases (exponents.map (termAt (.symbol s) Z)).filter (·.const?.isNone) with
    | nil => exact .symbol s
    | cons t ts => exact .sum _
  | shifted s =>
    rw [sumOf_shifted hexact s hts, ofTerms_of_two_le (by simp)]
    exact .sum _

/-- The polynomial has the value of the excess and of all its terms. -/
theorem hasValue_polynomialAt (hexact : StandsFor exact) (hH : IsExcess H) {x : β}
    (hx : (H.mapConstants exact).HasValue D env x) {value : Nat × Nat → β}
    (hvalue : ∀ ij ∈ exponents, ((termAt H Z ij).mapConstants exact).HasValue D env (value ij)) :
    ((polynomialAt H Z).mapConstants exact).HasValue D env (x + (exponents.map value).sum) := by
  obtain ⟨hterms, hzeros⟩ := splice_terms (forall_mem_terms (Z := Z) hexact hH.plain)
  have hzero : (((exponents.map (termAt H Z)).filterMap const?).map exact).sum = 0 := by
    refine List.sum_eq_zero (List.forall_mem_map.mpr fun c hc => ?_)
    rw [hzeros c hc, hexact.exact_zero]
  have hfold : exact ((((H :: exponents.map (termAt H Z)).flatMap terms).filterMap const?).foldl
      (· + ·) 0) = ((((H :: exponents.map (termAt H Z)).flatMap terms).filterMap const?).map
      exact).sum := by
    rw [List.flatMap_cons, hterms, List.filterMap_append, List.map_append, List.sum_append, hzero,
      add_zero, List.foldl_append]
    cases hH with
    | symbol s =>
      have hnone : (terms (.symbol s : Formula α)).filterMap const? = [] := rfl
      rw [hnone, List.foldl_nil, foldl_add_zeros hexact.zero_add_zero hzeros, hexact.exact_zero]
      rfl
    | shifted s =>
      have hone : (terms (.sum [.symbol s, .const (-1)] : Formula α)).filterMap const? = [-1] := rfl
      rw [hone, List.foldl_cons, List.foldl_nil, hexact.zero_add _ hexact.neg_one_beq_zero,
        foldl_add_zeros hexact.neg_one_add_zero hzeros, List.map_singleton, List.sum_singleton]
  have hvalues : HaveValues D env ((exponents.map (termAt H Z)).map (mapConstants exact))
      (exponents.map value) := by
    rw [HaveValues, List.forall₂_map_left_iff, List.forall₂_map_left_iff,
      List.forall₂_map_right_iff, List.forall₂_same]
    exact hvalue
  rw [← List.sum_cons]
  exact hasValue_mapConstants_sumOf hexact hfold (.cons hx hvalues)

end Polynomial

/-! ## The switch -/

/-- A formula that is scaled by a constant, which vanishes where it has no effect. -/
def scaled (c : α) (f : Formula α) : Formula α :=
  if c == 0 then .const 0 else if c == 1 then f else .product [.const c, f]

section Switch

variable {f H : Formula α} {c scale : α}

/-- A constant and a formula make a scaled formula, in either order. -/
theorem productOf_eq_scaled (hlaws : UnitLaws α) {fs : List (Formula α)}
    (hfs : fs = [.const c, f] ∨ fs = [f, .const c]) (hf : f.const? = none)
    (hproduct : ¬f.IsProduct) : productOf fs = scaled c f := by
  have hconsts : fs.filterMap const? = [c] := by
    rcases hfs with rfl | rfl <;> simp [hf]
  have hrest : fs.filter (·.const?.isNone) = [f] := by
    rcases hfs with rfl | rfl <;> simp [hf]
  have hsplice : fs.flatMap factors = fs := by
    refine flatMap_factors_eq_self fun g hg => ?_
    obtain rfl | rfl : g = .const c ∨ g = f := by
      rcases hfs with rfl | rfl
      · simpa using hg
      · simpa [or_comm] using hg
    · exact id
    · exact hproduct
  rw [productOf, hsplice, hconsts, hrest, List.foldl_cons, List.foldl_nil, hlaws.one_mul, scaled]
  split
  · rfl
  · split
    · rfl
    · rfl

theorem hasValue_scaled (hexact : StandsFor exact) (c : α) {x : β}
    (hx : (f.mapConstants exact).HasValue D env x) :
    ((scaled c f).mapConstants exact).HasValue D env (exact c * x) := by
  rw [scaled]
  split
  · rename_i hzero
    rw [hexact.exact_of_beq_zero c hzero, zero_mul, mapConstants, hexact.exact_zero]
    exact hasValue_const 0
  · split
    · rename_i hone
      rwa [hexact.exact_of_beq_one c hone, one_mul]
    · rw [mapConstants, mapConstantsEach_eq_map, List.map_cons, List.map_singleton, mapConstants]
      exact hasValue_product_iff.mpr ⟨[exact c, x], haveValues_pair (hasValue_const _) hx, by simp⟩

/-- The power of a constant, unless the constant has no effect. -/
def constantPower (c : α) (n : Nat) : α := if c == 1 then 1 else Scalar.pow c (Scalar.ofInt n)

/-- The power of a scaled formula is scaled by a power. -/
theorem powInt_scaled (hexact : StandsFor exact) (hc : (c == 0) = false) (hH : Plain H) {n : ℕ}
    (hn : 2 ≤ n) (hsmall : n < 10 ^ 15) :
    (scaled c H).powInt n = scaled (constantPower c n) (H.powInt n) := by
  have hpower := hH.powInt_factor hexact (n := n) (by omega) hsmall
  have hzero := hexact.ofInt_beq_zero (n := n) (by omega) (by omega)
  have hone := hexact.ofInt_beq_one (n := n) (by omega) (by omega)
  rw [scaled, if_neg (by rw [hc]; exact Bool.false_ne_true), constantPower]
  split
  · rw [scaled, if_neg (by rw [hexact.one_beq_zero]; exact Bool.false_ne_true),
      if_pos hexact.one_beq_one]
  · have hconst : powConst (.const c) (Scalar.ofInt n) =
        .const (Scalar.pow c (Scalar.ofInt n)) := by
      rw [powConst, if_neg hzero, if_neg hone]
    rw [powInt, powConst, if_neg hzero, if_neg hone,
      if_pos (hexact.isInteger_ofInt n (by omega)).1, powEach, powEach, powEach, hconst]
    exact productOf_eq_scaled hexact.toUnitLaws (Or.inl rfl) hpower.1 hpower.2

/-- The constant of the switch: the fourth power of the scale. -/
def switchConstant (scale : α) : α := constantPower scale 4

/-- The switch does not fold away, and is positive. -/
structure Switched (exact : α → β) (scale : α) : Prop where
  scale_ne : (scale == 0) = false
  pos : 0 < exact (switchConstant scale)

theorem Switched.constant_ne (hexact : StandsFor exact) (h : Switched exact scale) :
    ¬(switchConstant scale == 0) = true := fun hzero =>
  lt_irrefl 0 (lt_of_lt_of_eq h.pos (hexact.exact_of_beq_zero _ hzero))

theorem bell_eq (hexact : StandsFor exact) (h : Switched exact scale) (hH : Plain H) :
    bell scale H = scaled (switchConstant scale) (H.powInt 4) := by
  have hmul : Formula.const scale * H = scaled scale H :=
    productOf_eq_scaled hexact.toUnitLaws (Or.inl rfl) hH.const?_eq_none hH.not_isProduct
  rw [bell, hmul]
  exact powInt_scaled hexact h.scale_ne hH (n := 4) (by decide) (by decide)

end Switch

/-! ## The pair correlation -/

section Pair

variable {f H H' : Formula α} {scale : α} {Z Z' : Nat → Formula α}
  {σ : String → Option (Formula α)}

/-- One behind a formula stays where it is. -/
theorem sumOf_one (hlaws : UnitLaws α) (hf : f.const? = none) (hsum : ¬f.IsSum) :
    sumOf [f, .const 1] = .sum [f, .const 1] := by
  refine sumOf_eq_sum hlaws ⟨le_rfl, List.forall_mem_cons.mpr ⟨hsum,
    List.forall_mem_singleton.mpr id⟩, List.forall_mem_singleton.mpr hf, fun c hc => ?_⟩
  obtain rfl : 1 = c := Formula.const.inj (Option.some.inj hc)
  exact hlaws.one_beq_zero

/-- One behind a product of two factors has no effect. -/
theorem productOf_one (hlaws : UnitLaws α) {g : Formula α} (hf : f.const? = none)
    (hg : g.const? = none) : productOf [.product [f, g], .const 1] = .product [f, g] := by
  have hsplice : [.product [f, g], .const 1].flatMap factors = [f, g, .const (1 : α)] := rfl
  have hconsts : [f, g, .const (1 : α)].filterMap const? = [1] := by simp [hf, hg]
  have hrest : [f, g, .const (1 : α)].filter (·.const?.isNone) = [f, g] := by simp [hf, hg]
  rw [productOf, hsplice, hconsts, hrest, List.foldl_cons, List.foldl_nil, hlaws.one_mul,
    if_neg (by rw [hlaws.one_beq_zero]; exact Bool.false_ne_true), if_pos hlaws.one_beq_one]
  rfl

/-- The fourth power of the scaled excess is a power or a product. -/
theorem bell_kind (hexact : StandsFor exact) (h : Switched exact scale) (hH : Plain H) :
    (bell scale H).const? = none ∧ ¬(bell scale H).IsSum := by
  rw [bell_eq hexact h hH, scaled, if_neg (h.constant_ne hexact)]
  split
  · have hpower := hH.powInt_eq hexact (n := 4) (by decide) (by decide)
    rw [Nat.cast_ofNat] at hpower
    rw [hpower]
    exact ⟨rfl, id⟩
  · exact ⟨rfl, id⟩

theorem switchAt_eq (hexact : StandsFor exact) (h : Switched exact scale) (hH : Plain H) :
    switchAt scale H = .sum [bell scale H, .const 1] :=
  sumOf_one hexact.toUnitLaws (bell_kind hexact h hH).1 (bell_kind hexact h hH).2

theorem recip_sum (hexact : StandsFor exact) (ts : List (Formula α)) :
    (Formula.sum ts).recip = .power (.sum ts) (.const (-1)) :=
  powConst_eq_power (by rw [hexact.neg_one_beq_zero]; exact Bool.false_ne_true)
    (by rw [hexact.neg_one_beq_one]; exact Bool.false_ne_true) rfl fun _ => (Plain.sum ts).unmerged

/-- The reciprocal of the switch and the polynomial are not merged. -/
theorem productOf_recip (hexact : StandsFor exact) (h : Switched exact scale) (hH : IsExcess H) :
    productOf [(switchAt scale H).recip, polynomialAt H Z] =
      .product [.power (.sum [bell scale H, .const 1]) (.const (-1)), polynomialAt H Z] := by
  have hP := plain_polynomialAt (Z := Z) hexact hH
  rw [switchAt_eq hexact h hH.plain, recip_sum hexact]
  refine productOf_eq_product hexact.toUnitLaws ⟨le_rfl, List.forall_mem_cons.mpr ⟨id,
    List.forall_mem_singleton.mpr hP.not_isProduct⟩,
    List.forall_mem_singleton.mpr hP.const?_eq_none, fun c hc => ?_⟩
  exact absurd (Option.some.inj hc) (by simp)

/-- The pair correlation, written out. -/
theorem pairAt_eq (hexact : StandsFor exact) (h : Switched exact scale) (hH : IsExcess H) :
    pairAt scale H Z = .sum [.product [.power (.sum [bell scale H, .const 1]) (.const (-1)),
      polynomialAt H Z], .const 1] := by
  rw [pairAt, productOf_recip hexact h hH]
  exact sumOf_one hexact.toUnitLaws rfl id

/-- The pair correlation of normal formulas is normal. -/
theorem isNormal_pairAt (scale : α) (hH : H.IsNormal) (hZ : ∀ j, (Z j).IsNormal) :
    (pairAt scale H Z).IsNormal := by
  have hpair : ∀ {f g : Formula α}, f.IsNormal → g.IsNormal → ∀ k ∈ [f, g], k.IsNormal :=
    fun hf hg => List.forall_mem_cons.mpr ⟨hf, List.forall_mem_singleton.mpr hg⟩
  have hterm : ∀ ij, (termAt H Z ij).IsNormal := fun ij =>
    isNormal_productOf (List.forall_mem_cons.mpr ⟨isNormal_symbol _,
      hpair (isNormal_powConst _ hH) (hZ ij.2)⟩)
  have hpolynomial : (polynomialAt H Z).IsNormal :=
    isNormal_sumOf (List.forall_mem_cons.mpr ⟨hH, List.forall_mem_map.mpr fun ij _ => hterm ij⟩)
  have hswitch : (switchAt scale H).IsNormal :=
    isNormal_sumOf (hpair (isNormal_powConst _ (isNormal_productOf (hpair (isNormal_const _) hH)))
      (isNormal_const _))
  exact isNormal_sumOf (hpair (isNormal_productOf (hpair (isNormal_powConst _ hswitch) hpolynomial))
    (isNormal_const _))

/-! ### Its value -/

/-- The pair correlation at an excess `x`, with the constant `c` of the switch, coefficients `k`
and powers `z` of the gap. -/
def pairValue (c : β) (k : Nat × Nat → β) (z : Nat → β) (x : β) : β :=
  (c * x ^ 4 + 1)⁻¹ * (x + (exponents.map fun ij => k ij * x ^ ij.1 * z ij.2).sum) + 1

/-- The carried-out pair correlation has the value of the ansatz. -/
theorem hasValue_pairAt (hexact : StandsFor exact) (h : Switched exact scale) (hH : IsExcess H)
    (hZ : ∀ j, (Z j).IsNormal) {k : Nat × Nat → β} {z : Nat → β} {x : β}
    (hk : ∀ ij ∈ exponents, env (kappaName ij) = some (k ij))
    (hx : (H.mapConstants exact).HasValue D env x)
    (hz : ∀ ij ∈ exponents, ((Z ij.2).mapConstants exact).HasValue D env (z ij.2)) :
    ((pairAt scale H Z).mapConstants exact).HasValue D env
      (pairValue (exact (switchConstant scale)) k z x) := by
  have hterms : ∀ ij ∈ exponents, ((termAt H Z ij).mapConstants exact).HasValue D env
      (k ij * x ^ ij.1 * z ij.2) := fun ij hij =>
    hasValue_termAt hexact hH.plain hij (hZ ij.2) (hk ij hij) hx (hz ij hij)
  have hpolynomial := hasValue_polynomialAt hexact hH hx hterms
  have hbell : ((bell scale H).mapConstants exact).HasValue D env
      (exact (switchConstant scale) * x ^ 4) := by
    rw [bell_eq hexact h hH.plain]
    exact hasValue_scaled hexact _
      (hH.plain.hasValue_powInt hexact (n := 4) (by decide) (by decide) hx)
  have hne : exact (switchConstant scale) * x ^ 4 + 1 ≠ 0 := by
    have hnonneg : 0 ≤ exact (switchConstant scale) * x ^ 4 :=
      mul_nonneg h.pos.le (Even.pow_nonneg (by decide) x)
    exact ne_of_gt (by linarith)
  have hswitch : (Formula.sum [(bell scale H).mapConstants exact, .const 1]).HasValue D env
      (exact (switchConstant scale) * x ^ 4 + 1) :=
    hasValue_sum_iff.mpr ⟨_, haveValues_pair hbell (hasValue_const 1), by simp⟩
  have hrecip : (Formula.power (.sum [(bell scale H).mapConstants exact, .const 1])
      (.const (-1))).HasValue D env (exact (switchConstant scale) * x ^ 4 + 1)⁻¹ := by
    refine hasValue_power_iff.mpr ⟨_, -1, hswitch, hasValue_const _, D.holds_neg_one hne, ?_⟩
    have hpower := Scalar.power_intCast (n := -1) (Or.inl hne)
    rwa [Int.cast_neg, Int.cast_one, zpow_neg_one] at hpower
  rw [pairAt_eq hexact h hH]
  simp only [mapConstants, mapConstantsEach, hexact.exact_neg_one, hexact.exact_one]
  refine hasValue_sum_iff.mpr ⟨_, haveValues_pair (hasValue_product_iff.mpr
    ⟨_, haveValues_pair hrecip hpolynomial, rfl⟩) (hasValue_const 1), ?_⟩
  simp [pairValue]

/-! ### Replacing the excess -/

theorem substitute_scaled (hlaws : UnitLaws α) (c : α) (hf : (substitute σ f).const? = none)
    (hproduct : ¬(substitute σ f).IsProduct) :
    substitute σ (scaled c f) = scaled c (substitute σ f) := by
  rw [scaled]
  split
  · rename_i hzero
    rw [scaled, if_pos hzero]
    rfl
  · rename_i hzero
    split
    · rename_i hone
      rw [scaled, if_neg hzero, if_pos hone]
    · rw [substitute, substituteEach_eq_map]
      exact productOf_eq_scaled hlaws (Or.inl rfl) hf hproduct

theorem substitute_bell (hexact : StandsFor exact) (h : Switched exact scale) {s : String}
    (hH' : Plain H') (hσ : (σ s).getD (.symbol s) = H') :
    substitute σ (bell scale (.symbol s)) = bell scale H' := by
  have hpower := substitute_powInt_symbol hexact σ s (n := 4) (by decide) (by decide)
  have hfactor := hH'.powInt_factor hexact (n := 4) (by decide) (by decide)
  rw [hσ] at hpower
  rw [← hpower] at hfactor
  rw [bell_eq hexact h (.symbol s), bell_eq hexact h hH']
  exact (substitute_scaled hexact.toUnitLaws _ hfactor.1 hfactor.2).trans
    (congrArg (scaled _) hpower)

omit [Scalar α] in
/-- What maps constants to constants may be applied before or after they are dropped. -/
theorem filter_map_filter {F : Formula α → Formula α}
    (hF : ∀ c : α, F (.const c) = .const c) (ts : List (Formula α)) :
    ((ts.filter (·.const?.isNone)).map F).filter (·.const?.isNone) =
      (ts.map F).filter (·.const?.isNone) := by
  induction ts with
  | nil => rfl
  | cons t ts ih =>
    cases ht : t.const? with
    | none => rw [List.filter_cons_of_pos (by rw [ht]; rfl), List.map_cons, List.map_cons,
        List.filter_cons, List.filter_cons, ih]
    | some c =>
      have hconst : F t = .const c := by rw [eq_const_of_const?_eq_some ht, hF]
      rw [List.filter_cons_of_neg (by rw [ht]; simp), List.map_cons,
        List.filter_cons_of_neg (by rw [hconst]; simp), ih]

theorem substitute_polynomialAt (hexact : StandsFor exact) {s : String} (hH' : IsExcess H')
    (hσ : (σ s).getD (.symbol s) = H')
    (hterm : ∀ ij ∈ exponents, substitute σ (termAt (.symbol s) Z ij) = termAt H' Z' ij) :
    substitute σ (polynomialAt (.symbol s) Z) = polynomialAt H' Z' := by
  have hts := forall_mem_terms (Z := Z) hexact (.symbol s)
  have himages : (exponents.map (termAt (.symbol s) Z)).map (substitute σ) =
      exponents.map (termAt H' Z') := by
    rw [List.map_map]
    exact List.map_congr_left hterm
  have hts' := forall_mem_terms (Z := Z') hexact hH'.plain
  have hkept : ∀ t ∈ ((exponents.map (termAt (.symbol s) Z)).filter (·.const?.isNone)).map
      (substitute σ), t = .const 0 ∨ ∃ fs, t = .product fs := by
    refine List.forall_mem_map.mpr fun t ht => hts' _ ?_
    rw [← himages]
    exact List.mem_map_of_mem (List.mem_of_mem_filter ht)
  have hsum : substitute σ (polynomialAt (.symbol s) Z) = sumOf (H' ::
      ((exponents.map (termAt (.symbol s) Z)).filter (·.const?.isNone)).map (substitute σ)) := by
    rw [polynomialAt, sumOf_symbol hexact s hts]
    cases hkept' : (exponents.map (termAt (.symbol s) Z)).filter (·.const?.isNone) with
    | nil =>
      rw [ofTerms, substitute, hσ, List.map_nil]
      cases hH' with
      | symbol t => exact (@sumOf_symbol _ _ _ _ _ [] hexact t (by simp)).symm
      | shifted t => exact (@sumOf_shifted _ _ _ _ _ [] hexact t (by simp)).symm
    | cons t ts =>
      rw [ofTerms_of_two_le (by simp), substitute, substituteEach_eq_map, List.map_cons, substitute,
        hσ]
  rw [hsum, ← sumOf_filter hexact hH' hkept, filter_map_filter (fun _ => rfl), himages,
    sumOf_filter hexact hH' hts', polynomialAt]

/-- Replacing the excess in the carried-out pair correlation gives the pair correlation that is
built with what replaces it, if it does so in every term. -/
theorem substitute_pairAt (hexact : StandsFor exact) (h : Switched exact scale) {s : String}
    (hH' : IsExcess H') (hσ : (σ s).getD (.symbol s) = H')
    (hterm : ∀ ij ∈ exponents, substitute σ (termAt (.symbol s) Z ij) = termAt H' Z' ij) :
    substitute σ (pairAt scale (.symbol s) Z) = pairAt scale H' Z' := by
  have hswitch : substitute σ (.sum [bell scale (.symbol s), .const 1]) = switchAt scale H' := by
    rw [substitute, substituteEach_eq_map, List.map_cons,
      substitute_bell hexact h hH'.plain hσ]
    rfl
  have hproduct : substitute σ (.product [.power (.sum [bell scale (.symbol s), .const 1])
      (.const (-1)), polynomialAt (.symbol s) Z]) =
      productOf [(switchAt scale H').recip, polynomialAt H' Z'] := by
    rw [substitute, substituteEach_eq_map, List.map_cons, List.map_singleton, substitute, hswitch,
      substitute_polynomialAt hexact hH' hσ hterm]
    rfl
  rw [pairAt_eq hexact h (.symbol s), substitute, substituteEach_eq_map, List.map_cons, hproduct]
  rfl

/-- A term in which the excess is replaced, if the powers of the gap are left alone. -/
theorem substitute_termAt_excess (hexact : StandsFor exact) {s : String} {ij : Nat × Nat}
    (hij : ij ∈ exponents) (hH' : IsExcess H') (hσ : (σ s).getD (.symbol s) = H')
    (hkappa : σ (kappaName ij) = none) (hZ : (Z ij.2).IsNormal)
    (hfree : ∀ t ∈ (Z ij.2).occurrences, σ t = none) :
    substitute σ (termAt (.symbol s) Z ij) = termAt H' Z ij := by
  obtain ⟨hi, hi4, -⟩ := exponents_bounds ij hij
  have hpower := substitute_powInt_symbol hexact σ s hi (by omega)
  rw [hσ] at hpower
  have hsymbol : substitute σ (.symbol (kappaName ij)) = .symbol (kappaName ij) := by
    rw [substitute, hkappa]
    rfl
  have hleft : ∀ f ∈ (Z ij.2).factors, substitute σ f = f ∧ ¬f.IsProduct := by
    intro f hf
    obtain ⟨hnormal, hproduct⟩ := isNormal_of_mem_factors hZ hf
    refine ⟨substitute_of_not_mem hexact.toUnitLaws hnormal fun t ht => hfree t ?_, hproduct⟩
    generalize Z ij.2 = g at hf
    cases g with
    | product fs =>
      rw [occurrences, occurrencesEach_eq_flatMap]
      exact List.mem_flatMap.mpr ⟨f, hf, ht⟩
    | const c | symbol c | sum c | power c d | exponential c =>
      obtain rfl := List.mem_singleton.mp hf
      exact ht
  have hmap : (Z ij.2).factors.map (substitute σ) = (Z ij.2).factors :=
    (List.map_congr_left fun f hf => (hleft f hf).1).trans (List.map_id _)
  have hfactors : ∀ f ∈ [Formula.symbol (kappaName ij), (Formula.symbol s).powInt ij.1,
      Z ij.2].flatMap factors, f.const? = none →
      (substitute σ f).const? = none ∧ ¬(substitute σ f).IsProduct := by
    rw [flatMap_factors_term hexact (.symbol s) hij, List.forall_mem_cons, List.forall_mem_cons,
      hsymbol, hpower]
    refine ⟨fun _ => ⟨rfl, id⟩, fun _ => hH'.plain.powInt_factor hexact hi (by omega), ?_⟩
    intro f hf hconst
    rw [(hleft f hf).1]
    exact ⟨hconst, (hleft f hf).2⟩
  rw [termAt, substitute_productOf hexact.toUnitLaws hfactors,
    flatMap_factors_term hexact (.symbol s) hij, List.map_cons, List.map_cons, hmap, hsymbol,
    hpower]
  refine productOf_congr ?_
  rw [flatMap_factors_term hexact hH'.plain hij]
  exact flatMap_factors_eq_self (List.forall_mem_cons.mpr ⟨id, List.forall_mem_cons.mpr
    ⟨(hH'.plain.powInt_factor hexact hi (by omega)).2, fun f hf => (hleft f hf).2⟩⟩)

end Pair

/-! ## The gap -/

section Gap

variable {sigma : α}

/-- The reduced distance, with the diameter carried out. -/
def gapAt (sigma : α) : Formula α :=
  productOf [sumOf [.symbol "r", productOf [.const (-1), .const sigma]],
    .const (Scalar.pow sigma (-1))]

/-- The reduced distance before the diameter is carried out. -/
theorem gap_eq (hexact : StandsFor exact) :
    (Formula.symbol "r" - .symbol "sigma") / .symbol "sigma" =
      (.product [.sum [.symbol "r", .product [.const (-1), .symbol "sigma"]],
        .power (.symbol "sigma") (.const (-1))] : Formula α) := by
  have hzero : ¬((-1 : α) == 0) = true := by
    rw [hexact.neg_one_beq_zero]
    exact Bool.false_ne_true
  have hone : ¬((-1 : α) == 1) = true := by
    rw [hexact.neg_one_beq_one]
    exact Bool.false_ne_true
  have hneg : neg (.symbol "sigma" : Formula α) = .product [.const (-1), .symbol "sigma"] := by
    rw [neg, productOf_eq_scaled hexact.toUnitLaws (Or.inl rfl) rfl id, scaled, if_neg hzero,
      if_neg hone]
  have hsub : sub (.symbol "r") (.symbol "sigma" : Formula α) =
      .sum [.symbol "r", .product [.const (-1), .symbol "sigma"]] := by
    rw [sub, hneg, sumOf_symbol hexact "r" (List.forall_mem_singleton.mpr (Or.inr ⟨_, rfl⟩))]
    rfl
  have hrecip : recip (.symbol "sigma" : Formula α) = .power (.symbol "sigma") (.const (-1)) :=
    powConst_eq_power hzero hone rfl fun _ => (Plain.symbol "sigma").unmerged
  refine Eq.trans (b := productOf [sub (.symbol "r") (.symbol "sigma"), recip (.symbol "sigma")])
    rfl ?_
  rw [hsub, hrecip]
  refine productOf_eq_product hexact.toUnitLaws ⟨le_rfl, List.forall_mem_cons.mpr ⟨id,
    List.forall_mem_singleton.mpr id⟩, List.forall_mem_singleton.mpr rfl, fun c hc => ?_⟩
  exact absurd (Option.some.inj hc) (by simp)

/-- Carrying out the diameter in the reduced distance. -/
theorem substitute_gap (hexact : StandsFor exact) {σ : String → Option (Formula α)}
    (hr : σ "r" = none) (hsigma : σ "sigma" = some (.const sigma)) :
    substitute σ ((Formula.symbol "r" - .symbol "sigma") / .symbol "sigma") = gapAt sigma := by
  have hpower : powConst (.const sigma) (-1) = .const (Scalar.pow sigma (-1)) := by
    rw [powConst, if_neg (by rw [hexact.neg_one_beq_zero]; exact Bool.false_ne_true),
      if_neg (by rw [hexact.neg_one_beq_one]; exact Bool.false_ne_true)]
  rw [gap_eq hexact]
  simp only [substitute, substituteEach, hr, hsigma, Option.getD_none, Option.getD_some, pow,
    hpower]
  rfl

theorem isNormal_gapAt (sigma : α) : (gapAt sigma).IsNormal := by
  have hpair : ∀ {f g : Formula α}, f.IsNormal → g.IsNormal → ∀ k ∈ [f, g], k.IsNormal :=
    fun hf hg => List.forall_mem_cons.mpr ⟨hf, List.forall_mem_singleton.mpr hg⟩
  exact isNormal_productOf (hpair (isNormal_sumOf (hpair (isNormal_symbol _)
    (isNormal_productOf (hpair (isNormal_const _) (isNormal_const _))))) (isNormal_const _))

/-- The product of constants is a constant. -/
theorem exists_productOf_consts (c d : α) :
    ∃ e, productOf [.const c, .const d] = .const e := by
  rw [productOf]
  split
  · exact ⟨0, rfl⟩
  · split
    · exact ⟨1, rfl⟩
    · exact ⟨_, rfl⟩

/-- The distance less a constant is a symbol or a sum, and has a value. -/
theorem exists_value_shift (exact : α → β) (d : α) (r : β) :
    Plain (sumOf [.symbol "r", .const d]) ∧ ∃ x : β, ∀ (D : PowerDomain β) env,
      env "r" = some r →
        ((sumOf [.symbol "r", .const d]).mapConstants exact).HasValue D env x := by
  have hsum : sumOf [.symbol "r", .const d] = .symbol "r" ∨
      sumOf [.symbol "r", .const d] = .sum [.symbol "r", .const (0 + d)] := by
    rw [sumOf]
    split
    · exact Or.inl rfl
    · exact Or.inr rfl
  rcases hsum with hsum | hsum
  · rw [hsum]
    exact ⟨.symbol _, r, fun D env hr => hasValue_symbol_iff.mpr hr⟩
  · rw [hsum]
    refine ⟨.sum _, r + exact (0 + d), fun D env hr => ?_⟩
    exact hasValue_sum_iff.mpr ⟨_, haveValues_pair (hasValue_symbol_iff.mpr hr) (hasValue_const _),
      by simp⟩

/-- Powers of the reduced distance have values. -/
theorem exists_value_gap (hexact : StandsFor exact) (sigma : α) (r : β) {n : ℕ} (hn : 1 ≤ n)
    (hsmall : n < 10 ^ 15) : ∃ z : β, ∀ (D : PowerDomain β) env, env "r" = some r →
      (((gapAt sigma).powInt n).mapConstants exact).HasValue D env z := by
  obtain ⟨d, hd⟩ := exists_productOf_consts (-1) sigma
  obtain ⟨hplain, x, hx⟩ := exists_value_shift exact d r
  rw [gapAt, hd, productOf_eq_scaled hexact.toUnitLaws (Or.inr rfl) hplain.const?_eq_none
    hplain.not_isProduct]
  cases hq : Scalar.pow sigma (-1) == 0 with
  | true =>
    -- the power of a constant is a constant
    rw [scaled, if_pos hq, powInt, powConst]
    split
    · exact ⟨_, fun D env _ => hasValue_const _⟩
    · split
      · exact ⟨_, fun D env _ => hasValue_const _⟩
      · exact ⟨_, fun D env _ => hasValue_const _⟩
  | false =>
    rcases hn.eq_or_lt with rfl | hn
    · rw [Nat.cast_one, powInt_one hexact]
      exact ⟨_, fun D env hr => hasValue_scaled hexact _ (hx D env hr)⟩
    · rw [powInt_scaled hexact hq hplain hn hsmall]
      exact ⟨_, fun D env hr => hasValue_scaled hexact _
        (hplain.hasValue_powInt hexact (by omega) hsmall (hx D env hr))⟩

end Gap

/-! ## The model -/

section Model

variable {a : Ansatz α}

/-- The formula of the ansatz is the carried-out one with powers of the symbol of the gap. -/
theorem pairCorrelation_eq (hexact : StandsFor exact) {scale : α} (h : Switched exact scale) :
    pairCorrelation scale = pairAt scale excess fun j => (gap : Formula α).powInt j := by
  have hterm : exponents.map term =
      exponents.map (termAt excess fun j => (gap : Formula α).powInt j) := by
    refine List.map_congr_left fun ij hij => ?_
    obtain ⟨hi, hi4, -⟩ := exponents_bounds ij hij
    have hpower := (Plain.symbol (α := α) "h_sigma").powInt_factor hexact hi (by omega)
    have hpair : productOf [Formula.symbol (kappaName ij), excess.powInt ij.1] =
        (.product [.symbol (kappaName ij), excess.powInt ij.1] : Formula α) := by
      refine productOf_eq_product hexact.toUnitLaws ⟨le_rfl, List.forall_mem_cons.mpr ⟨id,
        List.forall_mem_singleton.mpr hpower.2⟩, List.forall_mem_singleton.mpr hpower.1,
        fun c hc => ?_⟩
      exact absurd (Option.some.inj hc) (by simp)
    refine Eq.trans (b := productOf [productOf [.symbol (kappaName ij), excess.powInt ij.1],
      gap.powInt ij.2]) rfl ?_
    rw [hpair]
    refine productOf_congr ?_
    rw [flatMap_factors_term (H := excess) (Z := fun j => gap.powInt j) hexact (.symbol _) hij,
      List.flatMap_cons, List.flatMap_singleton]
    rfl
  have hdecay : decay = (.const 1 : Formula α) := by
    have hzero : scaled (-0 : α) (.symbol alphaName) = .const 0 := by
      rw [scaled, if_pos hexact.neg_zero_beq_zero]
    have hzero' : scaled (0 : α) gap = .const 0 := by rw [scaled, if_pos hexact.zero_beq_zero]
    refine Eq.trans (b := Formula.exp (productOf [productOf [.const (-0), .symbol alphaName], gap]))
      rfl ?_
    rw [productOf_eq_scaled hexact.toUnitLaws (Or.inl rfl) rfl id, hzero,
      productOf_eq_scaled hexact.toUnitLaws (Or.inl rfl) rfl id, hzero', Formula.exp,
      hexact.exp_zero]
  have hexcess : IsExcess (excess : Formula α) := .symbol _
  have hswap : ∀ fs : List (Formula α), sumOf [.const 1, .product fs] =
      sumOf [.product fs, .const 1] := fun _ => rfl
  have hP := plain_polynomialAt (Z := fun j => gap.powInt j) hexact hexcess
  refine Eq.trans (b := sumOf [.const 1, productOf [productOf [(switchAt scale excess).recip,
    sumOf (excess :: exponents.map term)], decay]]) rfl ?_
  rw [hterm, hdecay, ← polynomialAt, productOf_recip hexact h hexcess,
    productOf_one hexact.toUnitLaws rfl hP.const?_eq_none, pairAt_eq hexact h hexcess, hswap]
  exact sumOf_one hexact.toUnitLaws rfl id

/-- A term in which the gap is replaced. -/
theorem substitute_termAt_gap (hexact : StandsFor exact) {σ : String → Option (Formula α)}
    {Y : Formula α} {ij : Nat × Nat} (hij : ij ∈ exponents) (hexcess : σ "h_sigma" = none)
    (hkappa : σ (kappaName ij) = none) (hgap : σ "zeta" = some Y) :
    substitute σ (termAt excess (fun j => gap.powInt j) ij) =
      termAt excess (fun j => Y.powInt j) ij := by
  obtain ⟨hi, hi4, hj, hj4⟩ := exponents_bounds ij hij
  have hfactor := (Plain.symbol (α := α) "h_sigma").powInt_factor hexact hi (by omega)
  have hfactor' := (Plain.symbol (α := α) "zeta").powInt_factor hexact hj (by omega)
  have hpower := substitute_powInt_symbol hexact σ "h_sigma" hi (by omega)
  have hpower' := substitute_powInt_symbol hexact σ "zeta" hj (by omega)
  rw [hexcess, Option.getD_none] at hpower
  rw [hgap, Option.getD_some] at hpower'
  have hproduct : termAt excess (fun j => gap.powInt j) ij =
      (.product [.symbol (kappaName ij), excess.powInt ij.1, gap.powInt ij.2] : Formula α) := by
    refine productOf_eq_product hexact.toUnitLaws ⟨by simp, List.forall_mem_cons.mpr ⟨id,
      List.forall_mem_cons.mpr ⟨hfactor.2, List.forall_mem_singleton.mpr hfactor'.2⟩⟩,
      List.forall_mem_cons.mpr ⟨hfactor.1, List.forall_mem_singleton.mpr hfactor'.1⟩,
      fun c hc => ?_⟩
    exact absurd (Option.some.inj hc) (by simp)
  rw [hproduct, substitute, substituteEach_eq_map, List.map_cons, List.map_cons, List.map_singleton,
    excess, gap, hpower, hpower', substitute, hkappa]
  rfl

omit [Scalar α] in
/-- The coefficients and the excess are not defined. -/
theorem lookup_eq_none {known : List (String × Formula α)}
    (hknown : known.map Prod.fst = ["g_sigma", "zeta", "R", "sigma"]) :
    known.lookup "h_sigma" = none ∧ ∀ ij ∈ exponents, known.lookup (kappaName ij) = none := by
  have hnames : "h_sigma" ∉ ["g_sigma", "zeta", "R", "sigma"] ∧
      ∀ ij ∈ exponents, kappaName ij ∉ ["g_sigma", "zeta", "R", "sigma"] := by decide +kernel
  have hnone : ∀ s ∉ ["g_sigma", "zeta", "R", "sigma"], known.lookup s = none := by
    intro s hs
    rw [← hknown] at hs
    rw [List.lookup_eq_none_iff]
    intro p hp
    exact bne_iff_ne.mpr fun h => hs (List.mem_map.mpr ⟨p, hp, h.symm⟩)
  exact ⟨hnone _ hnames.1, fun ij hij => hnone _ (hnames.2 ij hij)⟩

/-- Carrying out the definitions puts the reduced distance in the place of its symbol. -/
theorem pairCorrelation?_unwrap (hexact : StandsFor exact) (h : Switched exact a.scale) :
    pairCorrelation? (Definition.unwrap a.definitions) =
      .ok (pairAt a.scale excess fun j => (gapAt a.sigma).powInt j) := by
  obtain ⟨known, hunwrap, hnames, hgap⟩ : ∃ known : List (String × Formula α),
      pairCorrelation? (Definition.unwrap a.definitions) =
        .ok ((pairCorrelation a.scale).substituteAll known) ∧
      known.map Prod.fst = ["g_sigma", "zeta", "R", "sigma"] ∧
      known.lookup "zeta" = some (gapAt a.sigma) := by
    refine ⟨_, rfl, rfl, ?_⟩
    refine congrArg some ?_
    exact substitute_gap hexact rfl rfl
  obtain ⟨hexcess, hkappa⟩ := lookup_eq_none hnames
  rw [hunwrap, pairCorrelation_eq hexact h, substituteAll]
  refine congrArg Except.ok (substitute_pairAt hexact h (.symbol "h_sigma") (by rw [hexcess]; rfl)
    fun ij hij => ?_)
  exact substitute_termAt_gap hexact hij hexcess (hkappa ij hij) hgap

/-! ### Its values -/

/-- The coefficient of a pair of exponents among a list of parameters. -/
def coefficientOf (params : List β) (ij : Nat × Nat) : β :=
  (params[(ij.1 - 1) * 4 + (ij.2 - 1)]?).getD 0

/-- The arguments of the model are found at their positions. -/
theorem argumentAt_modelArguments {params : List β} (hparams : parameterCount ≤ params.length)
    (contact r : β) :
    let env := argumentAt modelArguments (params.take parameterCount ++ [contact, r])
    env "g_sigma" = some contact ∧ env "r" = some r ∧
      ∀ ij ∈ exponents, env (kappaName ij) = some (coefficientOf params ij) := by
  intro env
  have hlength : (params.take parameterCount).length = parameterCount :=
    List.length_take_of_le hparams
  have hpositions : modelArguments.findIdx? (· == "g_sigma") = some parameterCount ∧
      modelArguments.findIdx? (· == "r") = some (parameterCount + 1) ∧
      ∀ ij ∈ exponents, modelArguments.findIdx? (· == kappaName ij) =
        some ((ij.1 - 1) * 4 + (ij.2 - 1)) ∧ (ij.1 - 1) * 4 + (ij.2 - 1) < parameterCount := by
    decide +kernel
  obtain ⟨hcontact, hr, hkappa⟩ := hpositions
  refine ⟨?_, ?_, fun ij hij => ?_⟩
  · simp [env, argumentAt, hcontact, hlength]
  · simp [env, argumentAt, hr, hlength]
  · obtain ⟨hposition, hlt⟩ := hkappa ij hij
    have hget : (ij.1 - 1) * 4 + (ij.2 - 1) < params.length := lt_of_lt_of_le hlt hparams
    simp only [env, argumentAt, hposition, Option.bind_some]
    rw [List.getElem?_append_left (by rwa [hlength]), List.getElem?_take_of_lt hlt, coefficientOf,
      List.getElem?_eq_getElem hget, Option.getD_some]

/-- The powers of the gap that occur have values. -/
theorem exists_gap_powers (hexact : StandsFor exact) (sigma : α) :
    ∃ z : β → Nat → β, ∀ (D : PowerDomain β) env r, env "r" = some r → ∀ ij ∈ exponents,
      (((gapAt sigma).powInt ij.2).mapConstants exact).HasValue D env (z r ij.2) := by
  have hexists : ∀ (r : β) (j : ℕ), ∃ z : β, 1 ≤ j → j ≤ 4 → ∀ (D : PowerDomain β) env,
      env "r" = some r → (((gapAt sigma).powInt j).mapConstants exact).HasValue D env z := by
    intro r j
    by_cases hj : 1 ≤ j ∧ j ≤ 4
    · obtain ⟨z, hz⟩ := exists_value_gap hexact sigma r hj.1 (by omega)
      exact ⟨z, fun _ _ => hz⟩
    · exact ⟨0, fun hpos hle => absurd ⟨hpos, hle⟩ hj⟩
  choose z hz using hexists
  refine ⟨z, fun D env r hr ij hij => ?_⟩
  obtain ⟨-, -, hj, hj4⟩ := exponents_bounds ij hij
  exact hz r ij.2 hj hj4 D env hr

/-- The carried-out pair correlation with `g_sigma - 1` for the excess. -/
theorem substituteOne_pairAt (hexact : StandsFor exact) (h : Switched exact a.scale) :
    (pairAt a.scale excess fun j => (gapAt a.sigma).powInt j).substituteOne "h_sigma"
        (subConst (.symbol "g_sigma") 1) =
      pairAt a.scale (.sum [.symbol "g_sigma", .const (-1)]) fun j => (gapAt a.sigma).powInt j := by
  have hshift : subConst (.symbol "g_sigma") (1 : α) = .sum [.symbol "g_sigma", .const (-1)] := by
    refine sumOf_eq_sum hexact.toUnitLaws ⟨le_rfl, List.forall_mem_cons.mpr ⟨id,
      List.forall_mem_singleton.mpr id⟩, List.forall_mem_singleton.mpr rfl, fun c hc => ?_⟩
    obtain rfl : -1 = c := Formula.const.inj (Option.some.inj hc)
    exact hexact.neg_one_beq_zero
  have hkappa : ∀ ij ∈ exponents, kappaName ij ≠ "h_sigma" := by decide +kernel
  obtain ⟨z, hz⟩ := exists_gap_powers hexact a.sigma
  rw [substituteOne, hshift]
  refine substitute_pairAt hexact h (.shifted "g_sigma") rfl fun ij hij => ?_
  refine substitute_termAt_excess hexact hij (.shifted "g_sigma") rfl (if_neg (hkappa ij hij))
    (isNormal_powConst _ (isNormal_gapAt a.sigma)) fun t ht => ?_
  -- the powers of the gap have values where only the distance is bound
  have hvalue := hz (PowerDomain.nonzero β) (fun s => if s = "r" then some 0 else none) 0
    (if_pos rfl) ij hij
  obtain ⟨w, hw⟩ := hvalue.exists_of_mem t (by rwa [mapConstants_occurrences])
  by_cases hr : t = "r"
  · rw [hr]
    rfl
  · rw [if_neg hr] at hw
    exact absurd hw (by simp)

/-- **The model.**  The carried-out pair correlation is normal, has no other symbols than the
coefficients, the excess and the distance, and has the value of the ansatz; the model is its
program, with the same value at the excess that belongs to a contact value. -/
theorem exists_model (hexact : StandsFor exact) (a : Ansatz α) (h : Switched exact a.scale) :
    ∃ (pair : Formula α) (program : Program α) (z : β → Nat → β),
      a.model = .ok (pair, program) ∧ pair.IsNormal ∧
      (∀ s ∈ pair.occurrences, s = "h_sigma" ∨ s = "r" ∨ ∃ ij ∈ exponents, s = kappaName ij) ∧
      (∀ (D : PowerDomain β) env k x r, (∀ ij ∈ exponents, env (kappaName ij) = some (k ij)) →
        env "h_sigma" = some x → env "r" = some r → (pair.mapConstants exact).HasValue D env
          (pairValue (exact (switchConstant a.scale)) k (z r) x)) ∧
      ∀ params contact r, parameterCount ≤ params.length →
        modelValue? (program.mapConstants exact) params contact r =
          some (pairValue (exact (switchConstant a.scale)) (coefficientOf params) (z r)
            (contact - 1)) := by
  obtain ⟨z, hz⟩ := exists_gap_powers hexact a.sigma
  have hZ : ∀ j : ℕ, ((gapAt a.sigma).powInt j).IsNormal := fun j =>
    isNormal_powConst _ (isNormal_gapAt a.sigma)
  have hpair : ∀ (D : PowerDomain β) env k x r,
      (∀ ij ∈ exponents, env (kappaName ij) = some (k ij)) → env "h_sigma" = some x →
      env "r" = some r → ((pairAt a.scale excess fun j => (gapAt a.sigma).powInt j).mapConstants
        exact).HasValue D env (pairValue (exact (switchConstant a.scale)) k (z r) x) :=
    fun D env k x r hk hx hr => hasValue_pairAt hexact h (.symbol _) hZ hk
      (hasValue_symbol_iff.mpr hx) (hz D env r hr)
  have hcompile : ∀ (params : List β) contact r, parameterCount ≤ params.length →
      ∃ p, compileModel (pairAt a.scale excess fun j => (gapAt a.sigma).powInt j) = .ok p ∧
        modelValue? (p.mapConstants exact) params contact r =
          some (pairValue (exact (switchConstant a.scale)) (coefficientOf params) (z r)
            (contact - 1)) := by
    intro params contact r hparams
    obtain ⟨hcontact, hr, hk⟩ := argumentAt_modelArguments hparams contact r
    have hshift : ((Formula.sum [.symbol "g_sigma", .const (-1)] : Formula α).mapConstants
        exact).HasValue (PowerDomain.nonzero β)
        (argumentAt modelArguments (params.take parameterCount ++ [contact, r])) (contact - 1) := by
      simp only [mapConstants, mapConstantsEach, hexact.exact_neg_one]
      refine hasValue_sum_iff.mpr ⟨_, haveValues_pair (hasValue_symbol_iff.mpr hcontact)
        (hasValue_const _), ?_⟩
      rw [List.sum_cons, List.sum_singleton, sub_eq_add_neg]
    obtain ⟨p, hp, hvalue⟩ := exists_compile hexact (hasValue_pairAt hexact h (.shifted "g_sigma")
      hZ hk hshift (hz _ _ r hr))
    refine ⟨p, ?_, ?_⟩
    · rw [compileModel, substituteOne_pairAt hexact h, hp]
      rfl
    · rw [modelValue?, if_neg (not_lt.mpr hparams)]
      exact hvalue
  obtain ⟨program, hprogram, -⟩ := hcompile (List.replicate parameterCount 0) 0 0
    (by rw [List.length_replicate])
  refine ⟨_, program, z, ?_, isNormal_pairAt a.scale (isNormal_symbol _) hZ, ?_, hpair, ?_⟩
  · rw [model, pairCorrelation?_unwrap hexact h]
    exact congrArg (fun p => Except.map (Prod.mk _) p) hprogram
  · intro s hs
    by_contra hne
    obtain ⟨w, hw⟩ := (hpair (PowerDomain.nonzero β) (fun t => if t = "h_sigma" ∨ t = "r" ∨
      ∃ ij ∈ exponents, t = kappaName ij then some 0 else none) (fun _ => 0) 0 0
      (fun ij hij => if_pos (Or.inr (Or.inr ⟨ij, hij, rfl⟩))) (if_pos (Or.inl rfl))
      (if_pos (Or.inr (Or.inl rfl)))).exists_of_mem s (by rwa [mapConstants_occurrences])
    rw [if_neg hne] at hw
    exact absurd hw (by simp)
  · intro params contact r hparams
    obtain ⟨p, hp, hvalue⟩ := hcompile params contact r hparams
    rw [hprogram] at hp
    rw [Except.ok.inj hp]
    exact hvalue

end Model

end Ansatz

end SphereLab
