import Mathlib
import SphereLab.Proofs.Formula.LaTeXText
import SphereLab.Proofs.LaTeX.Parser

/-!
# Formulas in LaTeX

The layout of a normal formula is legible: the factors of a normal product are no products, and
what stands below a fraction bar for them is none either, since a normal power at exponent minus one
has no product for its base; a term that is not subtracted neither is a sum nor begins with a minus.
So the text of the layout is a formula of LaTeX's grammar with the value of the layout, which is the
value of the formula that is laid out.

* `suits_powerForm`: the forms of powers in LaTeX keep their values.
* `legible_layoutWithin`: the layout of a formula is legible.
* `IsReading`: what it means for a text to be read as a tree.
* `exists_tree_toLaTeX`: the text of a formula is read as a tree that has the value of the formula.
-/

namespace SphereLab

namespace LaTeX

open CExpression (Tree)
open Formula

/-! ## Forms of powers -/

/-- The forms of powers in LaTeX keep their values. -/
theorem suits_powerForm : Suits powerForm := by
  intro n hn
  rw [powerForm]
  split
  · rename_i h
    exact Or.inr (Or.inl ⟨rfl, (lt_zero_iff_realOf hn).mp h⟩)
  · split
    · rename_i h
      exact Or.inr (Or.inr (Or.inl ⟨rfl, (beq_half_iff hn).mp h⟩))
    · exact Or.inr (Or.inr (Or.inr rfl))

theorem powerForm_ne_repeated (n : Float) (count : Nat) : powerForm n ≠ .repeated count := by
  rw [powerForm]
  split
  · exact PowerForm.noConfusion
  · split <;> exact PowerForm.noConfusion

/-- Only negative exponents make fractions. -/
theorem realOf_lt_zero_of_powerForm_eq {n : Float} (hn : n.isFinite = true)
    (h : powerForm n = .reciprocal) : realOf n < 0 := by
  rcases suits_powerForm n hn with ⟨k, hform, -⟩ | ⟨-, hneg⟩ | ⟨hform, -⟩ | hform
  · exact absurd hform (powerForm_ne_repeated n k)
  · exact hneg
  · exact absurd (h.symm.trans hform) PowerForm.noConfusion
  · exact absurd (h.symm.trans hform) PowerForm.noConfusion

/-- The layout of a power at a constant exponent, by its form. -/
theorem layoutWithin_power_const (fuel : Nat) (b : Formula Float) (n : Float) :
    layoutWithin powerForm (fuel + 1) (.power b (.const n)) =
        .reciprocal (layoutWithin powerForm fuel (powConst b (-n))) ∧ powerForm n = .reciprocal ∨
      layoutWithin powerForm (fuel + 1) (.power b (.const n)) =
        .root (layoutWithin powerForm fuel b) ∨
      layoutWithin powerForm (fuel + 1) (.power b (.const n)) =
        .power (layoutWithin powerForm fuel b) (layoutWithin powerForm fuel (.const n)) := by
  rw [layoutWithin]
  cases hform : powerForm n with
  | reciprocal => exact Or.inl ⟨rfl, rfl⟩
  | root => exact Or.inr (Or.inl rfl)
  | repeated count => exact absurd hform (powerForm_ne_repeated n count)
  | power => exact Or.inr (Or.inr rfl)

/-! ## Legible layouts -/

variable {fuel : Nat} {f : Formula Float}

/-- Only products are laid out as products. -/
theorem not_isQuotient_layoutWithin (h : ¬f.IsProduct) :
    ¬(layoutWithin powerForm fuel f).IsQuotient := by
  cases fuel with
  | zero => exact id
  | succ fuel =>
    cases f with
    | const | symbol | sum | exponential => exact id
    | product => exact absurd trivial h
    | power b e =>
      cases e with
      | const n =>
        rcases layoutWithin_power_const fuel b n with ⟨hlayout, -⟩ | hlayout | hlayout <;>
          · rw [hlayout]
            exact id
      | symbol | sum | product | power | exponential => exact id

/-- A term that is not subtracted needs no parentheses. -/
theorem two_le_binding_layoutWithin (hsum : ¬f.IsSum) (hnegative : isNegative f = false)
    (hfuel : weight f ≤ fuel) : 2 ≤ binding (layoutWithin powerForm fuel f) := by
  obtain ⟨fuel, rfl⟩ : ∃ k, fuel = k + 1 := by
    have hpos := weight_pos f
    exact ⟨fuel - 1, by omega⟩
  cases f with
  | const v =>
    have hnonneg : ¬v < (0.0 : Float) := of_decide_eq_false hnegative
    have hbinding : binding (layoutWithin powerForm (fuel + 1) (.const v)) =
        if v < (0.0 : Float) then 1 else 4 := rfl
    rw [hbinding, if_neg hnonneg]
    decide
  | symbol | exponential =>
    rw [layoutWithin, binding]
    decide
  | sum => exact absurd trivial hsum
  | product fs =>
    have hminus : leadingMinus? fs = none := by
      unfold leadingMinus?
      split
      · rename_i v rest
        have hnonneg : ¬v < 0 := of_decide_eq_false hnegative
        exact if_neg hnonneg
      · rfl
    rw [layoutWithin, binding, hminus]
    decide
  | power b e =>
    cases e with
    | const n =>
      rcases layoutWithin_power_const fuel b n with ⟨hlayout, -⟩ | hlayout | hlayout <;>
        · rw [hlayout, binding]
          decide
    | symbol | sum | product | power | exponential =>
      rw [layoutWithin, binding]
      · decide
      · simp

/-- A normal product has factors besides a minus one in front. -/
theorem unsignedFactors_ne_nil {fs : List (Formula Float)} (h : ProductShape fs) :
    unsignedFactors fs ≠ [] := by
  have hlength := h.two_le_length
  intro hnil
  have hdrop : (unsignedFactors fs).length ≥ fs.length - 1 := by
    rw [unsignedFactors]
    split
    · omega
    · split
      · rw [List.length_drop]
      · rw [List.length_cons, List.length_drop]
        omega
  rw [hnil, List.length_nil] at hdrop
  omega

/-- The factors behind the sign of a normal product are no products. -/
theorem not_isProduct_of_mem_unsignedFactors {fs : List (Formula Float)} (h : ProductShape fs) :
    ∀ f ∈ unsignedFactors fs, ¬f.IsProduct := by
  have hdrop : ∀ f ∈ fs.drop 1, ¬f.IsProduct := fun f hf =>
    h.not_isProduct f (List.mem_of_mem_drop hf)
  rw [unsignedFactors]
  split
  · exact h.not_isProduct
  · split
    · exact hdrop
    · exact List.forall_mem_cons.mpr ⟨id, hdrop⟩

/-- Every factor stands above the bar or leaves something below it. -/
theorem above_ne_nil_or_below_ne_nil {fs : List (Formula Float)} (h : fs ≠ []) :
    fs.filter (·.below?.isNone) ≠ [] ∨ fs.filterMap below? ≠ [] := by
  obtain ⟨f, hf⟩ := List.exists_mem_of_ne_nil _ h
  cases hfd : f.below? with
  | none => exact Or.inl (List.ne_nil_of_mem (List.mem_filter.mpr ⟨hf, by simp [hfd]⟩))
  | some d => exact Or.inr (List.ne_nil_of_mem (List.mem_filterMap.mpr ⟨f, hf, hfd⟩))

/-- The formulas that weigh less have legible layouts. -/
def LegibleBelow (fuel : Nat) (f : Formula Float) : Prop :=
  ∀ g : Formula Float, g.Writable IsName → weight g < weight f →
    (layoutWithin powerForm fuel g).Legible

theorem legible_sum {ts : List (Formula Float)} (h : (sum ts).Writable IsName)
    (hfuel : weight (sum ts) ≤ fuel + 1) (hbelow : LegibleBelow fuel (sum ts)) :
    (layoutWithin powerForm (fuel + 1) (.sum ts)).Legible := by
  obtain ⟨hshape, hts⟩ := writable_sum_iff.mp h
  have hlt : ∀ t ∈ ts, weight t < weight (sum ts) := by
    intro t ht
    have hle := weight_le_weightEach ht
    rw [weight]
    omega
  rw [layoutWithin]
  refine ⟨?_, Layout.allLegible_iff.mpr (List.forall_mem_map.mpr fun t ht => ?_)⟩
  · rw [List.zip_map', List.forall_mem_map]
    intro t ht hnegative
    have hsign : isNegative t = false := hnegative
    have hself : unsigned t = t := by
      rw [unsigned, hsign, if_neg Bool.false_ne_true]
    have hweight := hlt t ht
    rw [hself]
    exact two_le_binding_layoutWithin (hshape.not_isSum t ht) hsign (by omega)
  · exact hbelow _ (unsigned_spec (hts t ht)).1 (weight_unsigned_lt (hts t ht) ht)

theorem legible_product {fs : List (Formula Float)} (h : (product fs).Writable IsName)
    (hbelow : LegibleBelow fuel (product fs)) :
    (layoutWithin powerForm (fuel + 1) (.product fs)).Legible := by
  obtain ⟨hshape, -⟩ := writable_product_iff.mp h
  have hwritable := (unsignedFactors_spec h).1
  have hlt : ∀ f ∈ unsignedFactors fs, weight f < weight (product fs) := fun _ hf =>
    weight_lt_of_mem_unsignedFactors h hf
  have hlower : ∀ d ∈ (unsignedFactors fs).filterMap below?, d.Writable IsName ∧ ¬d.IsProduct ∧
      weight d < weight (product fs) := by
    intro d hd
    obtain ⟨f, hf, hfd⟩ := List.mem_filterMap.mp hd
    have hd' := below_of_below? (hwritable f hf) hfd
    exact ⟨hd'.writable, hd'.not_isProduct, hd'.weight_lt.trans (hlt f hf)⟩
  rw [layoutWithin]
  refine ⟨?_, ?_, ?_, ?_⟩
  · rw [Ne, Ne, List.map_eq_nil_iff, List.map_eq_nil_iff]
    exact above_ne_nil_or_below_ne_nil (unsignedFactors_ne_nil hshape)
  · rw [List.forall_mem_append, List.forall_mem_map, List.forall_mem_map]
    exact ⟨fun f hf => not_isQuotient_layoutWithin
        (not_isProduct_of_mem_unsignedFactors hshape f (List.mem_of_mem_filter hf)),
      fun d hd => not_isQuotient_layoutWithin (hlower d hd).2.1⟩
  · rw [Layout.allLegible_iff, List.forall_mem_map]
    intro f hf
    have hmem := List.mem_of_mem_filter hf
    exact hbelow f (hwritable f hmem) (hlt f hmem)
  · rw [Layout.allLegible_iff, List.forall_mem_map]
    exact fun d hd => hbelow d (hlower d hd).1 (hlower d hd).2.2

theorem legible_power_const {b : Formula Float} {n : Float}
    (h : (power b (.const n)).Writable IsName) (hbelow : LegibleBelow fuel (power b (.const n))) :
    (layoutWithin powerForm (fuel + 1) (.power b (.const n))).Legible := by
  obtain ⟨-, hb, he⟩ := writable_power_iff.mp h
  obtain ⟨hlt, hlt'⟩ := weight_lt_power b (.const n)
  rcases layoutWithin_power_const fuel b n with ⟨hlayout, hform⟩ | hlayout | hlayout
  · have hneg := realOf_lt_zero_of_powerForm_eq (writable_const_iff.mp he) hform
    have hpow := below_powConst h hneg
    rw [hlayout]
    exact hbelow _ hpow.writable hpow.weight_lt
  · rw [hlayout]
    exact hbelow b hb hlt
  · rw [hlayout]
    exact ⟨hbelow b hb hlt, hbelow _ he hlt'⟩

/-- The layout of a writable formula is legible. -/
theorem legible_layoutWithin (h : f.Writable IsName) (hfuel : weight f ≤ fuel) :
    (layoutWithin powerForm fuel f).Legible := by
  induction fuel generalizing f with
  | zero => exact trivial
  | succ fuel ih =>
    have hbelow : LegibleBelow fuel f := fun g hg hlt => ih hg (by omega)
    cases f with
    | const | symbol => exact trivial
    | sum ts => exact legible_sum h hfuel hbelow
    | product fs => exact legible_product h hbelow
    | power b e =>
      obtain ⟨-, hb, he⟩ := writable_power_iff.mp h
      obtain ⟨hlt, hlt'⟩ := weight_lt_power b e
      cases e with
      | const n => exact legible_power_const h hbelow
      | symbol | sum | product | power | exponential => exact ⟨hbelow b hb hlt, hbelow _ he hlt'⟩
    | exponential x =>
      have hlt : weight x < weight (.exponential x) := by
        rw [weight]
        omega
      exact hbelow x h.exponential hlt

/-! ## Texts of formulas -/

/-- The text is read as the tree: its braces match, so do the brackets among its tokens, and it is
derived with this tree and no other, which the parser finds. -/
structure IsReading (s : String) (x : Tree) : Prop where
  braces : Nested braces s.toList
  brackets : ∃ ts, tokens? s = some ts ∧ Nested brackets ts
  derivable : Derivable s x
  parse?_eq : parse? s = some x
  unique : ∀ y, Derivable s y → y = x

theorem Writes.isReading {s : String} {x : Tree} (h : Writes .sum s.toList x) : IsReading s x := by
  have hderivable := h.derivable
  obtain ⟨ts, htokens, hderives⟩ := h.derivable
  exact ⟨h.nested, ⟨ts, htokens, hderives.nested⟩, hderivable, hderivable.parse?_eq,
    fun y hy => hy.unique hderivable⟩

end LaTeX

namespace Formula

/-- **Formulas in LaTeX.**  Symbols with different names have different texts.  The text of a normal
formula with finite constants and names for symbols has matching brackets and is read as one tree,
which has the value of the formula over the real numbers wherever the formula has one, when the
texts of the symbols have the values of the symbols. -/
theorem exists_tree_toLaTeX {f : Formula Float} (hnormal : f.IsNormal)
    (hfinite : ∀ c ∈ f.constants, c.isFinite = true)
    (hnamed : ∀ s ∈ f.occurrences, LaTeX.IsName s) :
    (∀ s t, LaTeX.IsName s → LaTeX.IsName t → LaTeX.symbolText s = LaTeX.symbolText t → s = t) ∧
      ∃ x, LaTeX.IsReading f.toLaTeX x ∧
        ∀ env env', (∀ s ∈ f.occurrences, env' (LaTeX.symbolText s) = env s) →
          ∀ v, (f.mapConstants realOf).HasValue PowerDomain.real env v →
            x.value? env' = some v := by
  have hwritable : f.Writable LaTeX.IsName := ⟨hnormal, hfinite, hnamed⟩
  have hlayout := laysOut_layoutWithin_of_suits LaTeX.suits_powerForm hwritable le_rfl
  have hlegible := LaTeX.legible_layoutWithin hwritable le_rfl
  obtain ⟨x, hx, hvalue⟩ := (LaTeX.faithful_of_legible hlayout.printable hlegible).sum
  refine ⟨fun s t hs ht => LaTeX.symbolText_injective hs.2.1 ht.2.1, x, hx.isReading, ?_⟩
  intro env env' henv v hv
  exact hvalue env' v (hlayout.value?_eq _ v (realValue_congr henv hv))

/-- The text of minus two over a sum of two symbols, of which one has a subscript, and its value
where the symbols are three and one. -/
theorem exists_tree_toLaTeX_fraction :
    (product [const (-2.0), power (sum [symbol "r", symbol "sigma_1"]) (const (-1.0))]).toLaTeX =
        "- \\frac\x7b2\x7d\x7br + \\sigma_\x7b1\x7d\x7d" ∧
      ∃ x, LaTeX.IsReading "- \\frac\x7b2\x7d\x7br + \\sigma_\x7b1\x7d\x7d" x ∧
        x.value? (fun s => [("r", 3), ("\\sigma_\x7b1\x7d", 1)].lookup s) =
          some (-(1 / 2)) := by
  have htext : (product [const (-2.0), power (sum [symbol "r", symbol "sigma_1"])
      (const (-1.0))]).toLaTeX = "- \\frac\x7b2\x7d\x7br + \\sigma_\x7b1\x7d\x7d" := by
    decide +kernel
  have hsum : (sum [symbol "r", symbol "sigma_1"] : Formula Float).IsNormal := by
    refine isNormal_sum_iff.mpr ⟨⟨le_rfl, ?_, ?_, ?_⟩, ?_⟩
    · simp [IsSum]
    · simp [const?]
    · simp
    · exact List.forall_mem_cons.mpr ⟨isNormal_symbol "r",
        List.forall_mem_singleton.mpr (isNormal_symbol "sigma_1")⟩
  have hnormal : (product [const (-2.0), power (sum [symbol "r", symbol "sigma_1"])
      (const (-1.0))] : Formula Float).IsNormal := by
    refine isNormal_product_iff.mpr ⟨⟨le_rfl, ?_, ?_, ?_⟩, ?_⟩
    · simp [IsProduct]
    · simp [const?]
    · intro c hc
      obtain rfl : (-2.0 : Float) = c := by simpa using hc
      exact ⟨rfl, rfl⟩
    · refine List.forall_mem_cons.mpr ⟨isNormal_const _, List.forall_mem_singleton.mpr ?_⟩
      exact isNormal_power_const hsum rfl (by decide +kernel)
        (by decide +kernel) fun _ => ⟨id, fun b i h => absurd h (by simp)⟩
  have hfinite : ∀ c ∈ (product [const (-2.0), power (sum [symbol "r", symbol "sigma_1"])
      (const (-1.0))]).constants, c.isFinite = true := by
    simp only [constants, constantsEach, List.nil_append, List.append_nil, List.singleton_append,
      List.forall_mem_cons]
    exact ⟨by decide +kernel, by decide +kernel, by simp⟩
  have hnames : LaTeX.IsName "r" ∧ LaTeX.IsName "sigma_1" := by
    have hletters : "sigma_1".toList = ['s', 'i', 'g', 'm', 'a', '_', '1'] := by decide +kernel
    exact ⟨LaTeX.isName_of_isAlpha rfl (by decide) rfl (by decide),
      LaTeX.isName_of_isAlpha hletters (by decide) rfl (by decide)⟩
  have hnamed : ∀ s ∈ (product [const (-2.0), power (sum [symbol "r", symbol "sigma_1"])
      (const (-1.0))] : Formula Float).occurrences, LaTeX.IsName s := by
    simp only [occurrences, occurrencesEach, List.nil_append, List.append_nil,
      List.singleton_append, List.forall_mem_cons]
    exact ⟨hnames.1, hnames.2, by simp⟩
  obtain ⟨-, x, hreading, hvalue⟩ := exists_tree_toLaTeX hnormal hfinite hnamed
  rw [htext] at hreading
  have htwo : Reading.ofFloat (-2.0) = .finite true ⟨2 ^ 52, -51⟩ := by decide +kernel
  have hfactor : realOf (-2.0) = -2 := by
    rw [realOf_of_ofFloat htwo, signedValue, if_pos rfl, Dyadic.value]
    norm_num
  have hexponent : realOf (-1.0) = -1 :=
    (realOf_neg realOf_one.2).1.trans (congrArg Neg.neg realOf_one.1)
  -- The symbols by their names, and the sum that they have there.
  have hfour : (sum [symbol "r", symbol "sigma_1"]).RealValue
      (fun s => [("r", 3), ("sigma_1", 1)].lookup s) 4 := by
    refine realValue_sum_iff.mpr ⟨[3, 1], .cons (realValue_symbol_iff.mpr rfl)
      (.cons (realValue_symbol_iff.mpr rfl) .nil), ?_⟩
    norm_num
  have hquarter : (power (sum [symbol "r", symbol "sigma_1"]) (const (-1.0))).RealValue
      (fun s => [("r", 3), ("sigma_1", 1)].lookup s) (1 / 4) := by
    refine realValue_power_iff.mpr ⟨4, -1, hfour,
      realValue_const_iff.mpr hexponent, Or.inr (Or.inl (by norm_num)), ?_⟩
    rw [Real.rpow_neg_one]
    norm_num
  refine ⟨htext, x, hreading, hvalue (fun s => [("r", 3), ("sigma_1", 1)].lookup s) _ ?_ _
    (realValue_product_iff.mpr
      ⟨[-2, 1 / 4], .cons (realValue_const_iff.mpr hfactor) (.cons hquarter .nil), ?_⟩)⟩
  · have hr : LaTeX.symbolText "r" = "r" := by decide +kernel
    have hsigma : LaTeX.symbolText "sigma_1" = "\\sigma_\x7b1\x7d" := by decide +kernel
    simp only [occurrences, occurrencesEach, List.nil_append, List.append_nil,
      List.singleton_append, List.forall_mem_cons, hr, hsigma]
    exact ⟨rfl, rfl, by simp⟩
  · norm_num

end Formula

end SphereLab
