import Mathlib
import SphereLab.Proofs.Formula.LaTeX
import SphereLab.Proofs.Formula.LaTeXNumerals

/-!
# Numerals in the LaTeX of formulas

A product is written by putting its factors beside each other, and a factor gets parentheses only
where it holds together more loosely than a product.  So a power of a constant, which is the only
factor besides the leading coefficient that begins with a numeral, stands without parentheses behind
whatever the factor before it ends in.  If that is the coefficient, or a symbol whose text ends in a
digit, then two numerals meet.  They meet nowhere else.

* `Crowded`: some product has such neighbours, above or below its bar.
* `crowded_unsigned`, `crowded_powConst_neg`: what the layout changes is crowded as it was.
* `scans_layoutWithin`: how the text of a formula begins and ends, and where numerals meet in it.
* `numeralsMeet_toLaTeX_iff`: numerals meet in the text of a formula exactly if it is crowded.
-/

namespace SphereLab

namespace Formula

open LaTeX (numberText besideText text HasPlainStart SomeNeighbours NumeralsMeet
  not_someNeighbours someNeighbours_cons_cons)

/-! ## Crowded formulas -/

/-- Beside other factors the formula ends in a numeral. -/
def EndsInNumeral : Formula Float → Prop
  | .const v => ¬v < (0.0 : Float)
  | .symbol s => LaTeX.EndsInNumeral (LaTeX.symbolText s).toList
  | _ => False

/-- Behind other factors the formula begins with a numeral. -/
def BeginsWithNumeral : Formula Float → Prop
  | .power (.const v) _ => ¬v < (0.0 : Float)
  | _ => False

/-- The numerals of two factors meet if they stand beside each other. -/
def Touches (f g : Formula Float) : Prop := f.EndsInNumeral ∧ g.BeginsWithNumeral

mutual

/-- The text of some symbol has numerals that meet, or the numerals of some neighbours meet, which
are factors of one product and stand above its bar or below it. -/
def Crowded : Formula Float → Prop
  | .const _ => False
  | .symbol s => NumeralsMeet (LaTeX.symbolText s).toList
  | .sum ts => CrowdedEach ts
  | .product fs => CrowdedEach fs ∨
      SomeNeighbours Touches ((unsignedFactors fs).filter (·.below?.isNone)) ∨
      SomeNeighbours Touches ((unsignedFactors fs).filterMap below?)
  | .power b e => Crowded b ∨ Crowded e
  | .exponential x => Crowded x

/-- Some of several formulas is crowded. -/
def CrowdedEach : List (Formula Float) → Prop
  | [] => False
  | f :: fs => Crowded f ∨ CrowdedEach fs

end

variable {IsName : String → Prop} {f b e d : Formula Float} {fs gs : List (Formula Float)}
  {n : Float}

theorem crowdedEach_iff : CrowdedEach fs ↔ ∃ f ∈ fs, f.Crowded := by
  induction fs with
  | nil => exact iff_of_false id (by simp)
  | cons f fs ih => exact (or_congr_right ih).trans (List.exists_mem_cons_iff _ f fs).symm

theorem crowded_sum_iff : (sum fs).Crowded ↔ ∃ f ∈ fs, f.Crowded := crowdedEach_iff

theorem crowded_power_iff : (power b e).Crowded ↔ b.Crowded ∨ e.Crowded := Iff.rfl

theorem crowded_power_const : (power b (.const n)).Crowded ↔ b.Crowded := or_iff_left id

theorem beginsWithNumeral_power_iff :
    (power b e).BeginsWithNumeral ↔ ∃ v, b = .const v ∧ ¬v < (0.0 : Float) := by
  cases b with
  | const v =>
    constructor
    · exact fun h => ⟨v, rfl, h⟩
    · rintro ⟨w, heq, hw⟩
      rwa [BeginsWithNumeral, Formula.const.inj heq]
  | symbol | sum | product | power | exponential => exact iff_of_false id (by simp)

/-! ## Powers below a bar -/

/-- What a power leaves below a fraction bar is crowded if the power is. -/
theorem crowded_powConst_neg (h : (power b (.const n)).Writable IsName) (hneg : realOf n < 0) :
    (powConst b (-n)).Crowded ↔ (power b (.const n)).Crowded := by
  rw [crowded_power_const]
  rcases powConst_neg_eq_or h hneg with ⟨-, hself⟩ | hpower
  · rw [hself]
  · rw [hpower, crowded_power_const]

/-- What a factor leaves below a fraction bar is no constant, and it is crowded if the factor is. -/
theorem crowded_of_below? (hf : f.Writable IsName) (h : f.below? = some d) :
    d.const? = none ∧ (d.Crowded ↔ f.Crowded) := by
  unfold below? at h
  split at h
  · rename_i b n
    split at h
    · rename_i hlt
      obtain rfl := Option.some.inj h
      obtain ⟨hshape, -, hn⟩ := writable_power_iff.mp hf
      have hneg := (lt_zero_iff_realOf (writable_const_iff.mp hn)).mp hlt
      refine ⟨?_, crowded_powConst_neg hf hneg⟩
      rcases powConst_neg_eq_or hf hneg with ⟨-, hself⟩ | hpower
      · rw [hself]
        exact hshape.not_both_const.resolve_right (by simp)
      · rw [hpower]
        rfl
    · exact absurd h (by simp)
  · exact absurd h (by simp)

/-- A crowded factor is crowded above the bar or in what it leaves below. -/
theorem exists_crowded_above_or_below (hgs : ∀ g ∈ gs, g.Writable IsName) :
    ((∃ g ∈ gs.filter (·.below?.isNone), g.Crowded) ∨ ∃ d ∈ gs.filterMap below?, d.Crowded) ↔
      ∃ g ∈ gs, g.Crowded := by
  simp only [List.mem_filter, List.mem_filterMap, Option.isNone_iff_eq_none]
  constructor
  · rintro (⟨g, ⟨hg, -⟩, hcrowded⟩ | ⟨d, ⟨g, hg, hd⟩, hcrowded⟩)
    · exact ⟨g, hg, hcrowded⟩
    · exact ⟨g, hg, (crowded_of_below? (hgs g hg) hd).2.mp hcrowded⟩
  · rintro ⟨g, hg, hcrowded⟩
    cases hbelow : g.below? with
    | none => exact Or.inl ⟨g, ⟨hg, hbelow⟩, hcrowded⟩
    | some d =>
      exact Or.inr ⟨d, ⟨g, hg, hbelow⟩, (crowded_of_below? (hgs g hg) hbelow).2.mpr hcrowded⟩

/-! ## Minus signs -/

/-- Factors are left as they are unless a negative constant leads them, which is dropped or changes
its sign. -/
theorem unsignedFactors_eq_or (fs : List (Formula Float)) :
    unsignedFactors fs = fs ∨ ∃ c rest, fs = const c :: rest ∧ c < (0.0 : Float) ∧
      unsignedFactors fs =
        if c == -(1.0 : Float) then rest else const (-c) :: rest := by
  rw [unsignedFactors]
  cases hminus : leadingMinus? fs with
  | none => exact Or.inl rfl
  | some c =>
    obtain ⟨rest, rfl, hlt⟩ := exists_of_leadingMinus?_eq hminus
    exact Or.inr ⟨c, rest, rfl, hlt, rfl⟩

theorem unsignedFactors_eq_self (h : ∀ v rest, fs = const v :: rest → ¬v < (0.0 : Float)) :
    unsignedFactors fs = fs :=
  (unsignedFactors_eq_or fs).resolve_right fun ⟨v, rest, heq, hv, _⟩ => h v rest heq hv

theorem unsignedFactors_const_cons {c : Float} (h : c < (0.0 : Float)) :
    unsignedFactors (const c :: gs) =
      if c == -(1.0 : Float) then gs else const (-c) :: gs := by
  have hminus : leadingMinus? (const c :: gs) = some c := if_pos h
  rw [unsignedFactors, hminus]
  rfl

/-- The sign of a product does not matter to its crowded factors. -/
theorem exists_crowded_unsignedFactors (fs : List (Formula Float)) :
    (∃ f ∈ unsignedFactors fs, f.Crowded) ↔ ∃ f ∈ fs, f.Crowded := by
  rcases unsignedFactors_eq_or fs with heq | ⟨c, rest, rfl, -, heq⟩
  · rw [heq]
  · have hconst : ∀ v, ¬(const v).Crowded := fun _ => id
    rw [heq, List.exists_mem_cons_iff, or_iff_right (hconst c)]
    split
    · exact Iff.rfl
    · rw [List.exists_mem_cons_iff, or_iff_right (hconst (-c))]

/-- Only the first factor behind the sign of a normal product may be a constant. -/
theorem const?_eq_none_of_mem_tail (h : ProductShape fs) :
    ∀ f ∈ (unsignedFactors fs).tail, f.const? = none := by
  rcases unsignedFactors_eq_or fs with heq | ⟨c, rest, rfl, -, heq⟩
  · rw [heq]
    exact h.const_first
  · have hrest : ∀ f ∈ rest, f.const? = none := h.const_first
    rw [heq]
    split
    · exact fun f hf => hrest f (List.mem_of_mem_tail hf)
    · exact hrest

/-- Only the first factor above the bar of a normal product may be a constant. -/
theorem const?_eq_none_of_mem_tail_filter (h : ProductShape fs) :
    ∀ f ∈ ((unsignedFactors fs).filter (·.below?.isNone)).tail, f.const? = none := by
  have htail := const?_eq_none_of_mem_tail h
  cases hfactors : unsignedFactors fs with
  | nil => exact fun f hf => absurd hf List.not_mem_nil
  | cons g gs =>
    rw [hfactors] at htail
    intro f hf
    rw [List.filter_cons] at hf
    split at hf
    · exact htail f (List.mem_of_mem_filter hf)
    · exact htail f (List.mem_of_mem_filter (List.mem_of_mem_tail hf))

/-- Factors behind the sign of a product, as far as the product is crowded by them. -/
def CrowdedFactors (gs : List (Formula Float)) : Prop :=
  (∃ g ∈ gs, g.Crowded) ∨ SomeNeighbours Touches (gs.filter (·.below?.isNone)) ∨
    SomeNeighbours Touches (gs.filterMap below?)

theorem crowded_product_iff : (product fs).Crowded ↔ CrowdedFactors (unsignedFactors fs) := by
  rw [CrowdedFactors, exists_crowded_unsignedFactors, ← crowdedEach_iff]
  rfl

/-- Factors without a sign are crowded with a product around them and, if there is only one,
without it. -/
theorem crowded_ofFactors_iff (hne : gs ≠ []) (hplain : unsignedFactors gs = gs) :
    (ofFactors gs).Crowded ↔ CrowdedFactors gs := by
  match gs with
  | [] => exact absurd rfl hne
  | [g] =>
    have habove : ([g].filter (·.below?.isNone)).length ≤ 1 := List.length_filter_le _ _
    have hbelow : ([g].filterMap below?).length ≤ 1 := List.length_filterMap_le _ _
    simp [ofFactors, CrowdedFactors, not_someNeighbours habove, not_someNeighbours hbelow]
  | g :: h :: gs => rw [ofFactors_of_two_le (by simp), crowded_product_iff, hplain]

/-- How large the leading coefficient is does not matter. -/
theorem crowdedFactors_const_cons {c c' : Float} (hc : ¬c < (0.0 : Float))
    (hc' : ¬c' < (0.0 : Float)) :
    CrowdedFactors (const c :: gs) ↔ CrowdedFactors (const c' :: gs) := by
  have hmembers : ∀ v, (∃ g ∈ const v :: gs, g.Crowded) ↔ ∃ g ∈ gs, g.Crowded := fun v =>
    (List.exists_mem_cons_iff _ (const v) gs).trans (or_iff_right id)
  have habove : ∀ v : Float, (const v :: gs).filter (·.below?.isNone) =
      const v :: gs.filter (·.below?.isNone) := fun v => List.filter_cons_of_pos rfl
  have hbelow : ∀ v : Float, (const v :: gs).filterMap below? = gs.filterMap below? :=
    fun v => List.filterMap_cons_none rfl
  have hfirst : SomeNeighbours Touches (const c :: gs.filter (·.below?.isNone)) ↔
      SomeNeighbours Touches (const c' :: gs.filter (·.below?.isNone)) := by
    cases gs.filter (·.below?.isNone) with
    | nil => simp [not_someNeighbours]
    | cons g rest =>
      have htouches : Touches (const c) g ↔ Touches (const c') g :=
        and_congr_left fun _ => iff_of_true hc hc'
      rw [someNeighbours_cons_cons, someNeighbours_cons_cons, htouches]
  rw [CrowdedFactors, CrowdedFactors, hmembers, hmembers, habove, habove, hbelow, hbelow, hfirst]

/-- The negative of a product with a negative constant in front is crowded if the product is. -/
theorem crowded_neg_product {c : Float} (h : (product (const c :: gs)).Writable IsName)
    (hneg : realOf c < 0) :
    (-(product (const c :: gs))).Crowded ↔ (product (const c :: gs)).Crowded := by
  obtain ⟨hshape, hfs⟩ := writable_product_iff.mp h
  have hc := writable_const_iff.mp (hfs _ List.mem_cons_self)
  obtain ⟨hreal, hfinite⟩ := realOf_one_mul_neg_one_mul hc
  obtain ⟨hreal', hfinite'⟩ := realOf_neg hc
  have hne : gs ≠ [] := by
    rintro rfl
    exact absurd hshape.two_le_length (by simp)
  have hlt : c < (0.0 : Float) := (lt_zero_iff_realOf hc).mpr hneg
  have hfolded : ¬1.0 * -1.0 * c < (0.0 : Float) := by
    rw [lt_zero_iff_realOf hfinite, hreal]
    linarith
  have hopposite : ¬-c < (0.0 : Float) := by
    rw [lt_zero_iff_realOf hfinite', hreal']
    linarith
  have hone : (1.0 * -1.0 * c == (1.0 : Float)) = (c == -(1.0 : Float)) := by
    rw [Bool.eq_iff_iff, beq_one_iff hfinite, hreal, beq_neg_one_iff hc]
    constructor <;> intro heq <;> linarith
  rw [neg_product_eq hshape hc hneg, crowded_product_iff, unsignedFactors_const_cons hlt, hone]
  split
  · refine crowded_ofFactors_iff hne (unsignedFactors_eq_self fun v rest heq => ?_)
    have hconst := hshape.const_first (const v) (by rw [heq]; exact List.mem_cons_self)
    exact absurd hconst (by simp)
  · rw [crowded_ofFactors_iff (List.cons_ne_nil _ _), crowdedFactors_const_cons hfolded hopposite]
    refine unsignedFactors_eq_self fun v rest heq => ?_
    rwa [← Formula.const.inj (List.cons.inj heq).1]

/-- What stands behind the sign of a term is crowded if the term is. -/
theorem crowded_unsigned (h : f.Writable IsName) : (unsigned f).Crowded ↔ f.Crowded := by
  rw [unsigned]
  cases hnegative : isNegative f with
  | false => exact Iff.rfl
  | true =>
    rw [if_pos rfl]
    unfold isNegative at hnegative
    split at hnegative
    · exact Iff.rfl
    · rename_i c rest
      have hc := writable_const_iff.mp ((writable_product_iff.mp h).2 _ List.mem_cons_self)
      have hneg := (lt_zero_iff_realOf hc).mp (of_decide_eq_true hnegative)
      rw [negated]
      · exact crowded_neg_product h hneg
      · exact fun _ hconst => absurd hconst (by simp)
    · exact absurd hnegative Bool.false_ne_true

/-! ## Texts of formulas -/

/-- The layout of a formula, as the numerals of its text show it: how it begins and ends beside
other factors, and where numerals meet in it. -/
structure Scans (f : Formula Float) (l : Layout Float) : Prop where
  numeralsMeet_iff : NumeralsMeet (text numberText l).toList ↔ f.Crowded
  isTight : LaTeX.IsTight (text numberText l).toList
  ends_iff : ¬f.IsProduct → (LaTeX.EndsInNumeral (besideText l).toList ↔ f.EndsInNumeral)
  begins_iff : ¬f.IsProduct → f.const? = none →
    (LaTeX.BeginsWithNumeral (besideText l).toList ↔ f.BeginsWithNumeral)

/-- The numerals of the formulas that weigh less are as they are said to be. -/
def ScansBelow (fuel : Nat) (f : Formula Float) : Prop :=
  ∀ g : Formula Float, g.Writable HasPlainStart → weight g < weight f →
    Scans g (layoutWithin LaTeX.powerForm fuel g)

variable {fuel : Nat} {l m : Layout Float}

theorem scans_const {v : Float} (hv : v.isFinite = true) : Scans (const v) (.number v) := by
  refine ⟨iff_of_false
    (LaTeX.not_numeralsMeet_of_notMem (LaTeX.blank_notMem_numberText hv)) id,
    LaTeX.isTight_numberText hv, fun _ => ?_, fun _ hconst => absurd hconst (by simp)⟩
  have hbinding : LaTeX.binding (.number v : Layout Float) = if v < (0.0 : Float) then 1 else 4 :=
    rfl
  rw [besideText, hbinding]
  by_cases hneg : v < (0.0 : Float)
  · rw [if_pos hneg, if_pos (by decide)]
    exact iff_of_false LaTeX.not_endsInNumeral_parens (not_not_intro hneg)
  · rw [if_neg hneg, if_neg (by decide)]
    exact iff_of_true (LaTeX.endsInNumeral_numberText hv) hneg

theorem scans_symbol {s : String} (hs : HasPlainStart s) : Scans (symbol s) (.name s) := by
  have hplain := LaTeX.startsPlainly_symbolText hs
  exact ⟨Iff.rfl, hplain.isTight, fun _ => Iff.rfl,
    fun _ _ => iff_of_false hplain.not_beginsWithNumeral id⟩

theorem scans_sum {ts : List (Formula Float)} (h : (sum ts).Writable HasPlainStart)
    (hbelow : ScansBelow fuel (sum ts)) :
    Scans (sum ts) (layoutWithin LaTeX.powerForm (fuel + 1) (sum ts)) := by
  obtain ⟨hshape, hts⟩ := writable_sum_iff.mp h
  have hterm : ∀ t ∈ ts, Scans (unsigned t) (layoutWithin LaTeX.powerForm fuel (unsigned t)) := by
    intro t ht
    exact hbelow _ (unsigned_spec (hts t ht)).1 (weight_unsigned_lt (hts t ht) ht)
  have hne : ts ≠ [] := by
    rintro rfl
    exact absurd hshape.two_le_length (by simp)
  -- Beside others a sum stands in parentheses.
  refine ⟨?_, ?_, fun _ => iff_of_false LaTeX.not_endsInNumeral_parens id,
    fun _ _ => iff_of_false (LaTeX.startsPlainly_parens _).not_beginsWithNumeral id⟩
  · rw [layoutWithin, LaTeX.numeralsMeet_text_sum (by simp), crowded_sum_iff]
    simp only [List.mem_map, exists_exists_and_eq_and]
    refine exists_congr fun t => and_congr_right fun ht => ?_
    rw [(hterm t ht).numeralsMeet_iff, crowded_unsigned (hts t ht)]
  · rw [layoutWithin]
    refine LaTeX.isTight_text_sum (mt List.map_eq_nil_iff.mp hne) (by simp) ?_
    exact List.forall_mem_map.mpr fun t ht => (hterm t ht).isTight

/-- Numerals meet among the layouts of several factors as the factors are crowded. -/
theorem meetAmong_map_iff {layoutOf : Formula Float → Layout Float}
    (h : ∀ g ∈ gs, Scans g (layoutOf g) ∧ ¬g.IsProduct) (hconst : ∀ g ∈ gs.tail, g.const? = none) :
    LaTeX.MeetAmong (gs.map layoutOf) ↔
      (∃ g ∈ gs, g.Crowded) ∨ SomeNeighbours Touches gs := by
  have hneighbours : SomeNeighbours (fun f g => LaTeX.Touches (layoutOf f) (layoutOf g)) gs ↔
      SomeNeighbours Touches gs := by
    refine LaTeX.someNeighbours_congr fun f hf g hg => ?_
    obtain ⟨hscans, hproduct⟩ := h f hf
    obtain ⟨hscans', hproduct'⟩ := h g (List.mem_of_mem_tail hg)
    exact and_congr (hscans.ends_iff hproduct) (hscans'.begins_iff hproduct' (hconst g hg))
  rw [LaTeX.MeetAmong, LaTeX.someNeighbours_map, hneighbours]
  simp only [List.mem_map, exists_exists_and_eq_and]
  exact or_congr_left (exists_congr fun g => and_congr_right fun hg =>
    (h g hg).1.numeralsMeet_iff)

theorem scans_product (h : (product fs).Writable HasPlainStart)
    (hbelow : ScansBelow fuel (product fs)) :
    Scans (product fs) (layoutWithin LaTeX.powerForm (fuel + 1) (product fs)) := by
  obtain ⟨hshape, -⟩ := writable_product_iff.mp h
  have hwritable := (unsignedFactors_spec h).1
  have hlt : ∀ f ∈ unsignedFactors fs, weight f < weight (product fs) := fun _ hf =>
    weight_lt_of_mem_unsignedFactors h hf
  have habove : ∀ f ∈ (unsignedFactors fs).filter (·.below?.isNone),
      Scans f (layoutWithin LaTeX.powerForm fuel f) ∧ ¬f.IsProduct := by
    intro f hf
    have hmem := List.mem_of_mem_filter hf
    exact ⟨hbelow f (hwritable f hmem) (hlt f hmem),
      LaTeX.not_isProduct_of_mem_unsignedFactors hshape f hmem⟩
  have hunder : ∀ d ∈ (unsignedFactors fs).filterMap below?,
      (Scans d (layoutWithin LaTeX.powerForm fuel d) ∧ ¬d.IsProduct) ∧ d.const? = none := by
    intro d hd
    obtain ⟨f, hf, hfd⟩ := List.mem_filterMap.mp hd
    have hd' := below_of_below? (hwritable f hf) hfd
    exact ⟨⟨hbelow d hd'.writable (hd'.weight_lt.trans (hlt f hf)), hd'.not_isProduct⟩,
      (crowded_of_below? (hwritable f hf) hfd).1⟩
  refine ⟨?_, ?_, absurd trivial, absurd trivial⟩
  · rw [layoutWithin, LaTeX.numeralsMeet_text_quotient, meetAmong_map_iff habove
        (const?_eq_none_of_mem_tail_filter hshape), meetAmong_map_iff (fun d hd => (hunder d hd).1)
        fun d hd => (hunder d (List.mem_of_mem_tail hd)).2, crowded_product_iff, CrowdedFactors,
      or_or_or_comm, exists_crowded_above_or_below hwritable]
    · exact List.forall_mem_map.mpr fun f hf => (habove f hf).1.isTight
    · exact List.forall_mem_map.mpr fun d hd => (hunder d hd).1.1.isTight
  · have hne := LaTeX.above_ne_nil_or_below_ne_nil (LaTeX.unsignedFactors_ne_nil hshape)
    rw [layoutWithin]
    refine LaTeX.isTight_text_quotient _ ?_
      (List.forall_mem_map.mpr fun f hf => (habove f hf).1.isTight)
    rwa [Ne, Ne, List.map_eq_nil_iff, List.map_eq_nil_iff]

/-- A power that is written with its base and its exponent. -/
theorem scans_power (hb : Scans b l) (he : Scans e m) (hprintable : l.Printable HasPlainStart)
    (hbase : ∀ v, l = .number v ↔ b = .const v) : Scans (power b e) (.power l m) := by
  have hbeside : besideText (.power l m) = text numberText (.power l m) := rfl
  refine ⟨?_, ?_, fun _ => iff_of_false ?_ id, fun _ _ => ?_⟩
  · rw [LaTeX.numeralsMeet_text_power, hb.numeralsMeet_iff, he.numeralsMeet_iff, crowded_power_iff]
  · rw [LaTeX.toList_text_power, List.append_assoc]
    exact (LaTeX.isTight_baseText hb.isTight).append _
  · rw [hbeside, LaTeX.toList_text_power]
    exact LaTeX.not_endsInNumeral_append_braced
  · rw [hbeside, LaTeX.beginsWithNumeral_text_power hprintable hb.isTight,
      beginsWithNumeral_power_iff]
    exact exists_congr fun v => and_congr_left fun _ => hbase v

/-- A text that neither begins nor ends with a numeral, like what it stands for. -/
theorem Scans.of_marks (hmeet : NumeralsMeet (text numberText l).toList ↔ f.Crowded)
    (hstart : LaTeX.StartsPlainly (text numberText l).toList)
    (hend : ¬LaTeX.EndsInNumeral (text numberText l).toList) (hf : ¬f.EndsInNumeral)
    (hf' : ¬f.BeginsWithNumeral) : Scans f l :=
  ⟨hmeet, hstart.isTight,
    fun _ => iff_of_false (LaTeX.not_endsInNumeral_besideText hend) hf,
    fun _ _ => iff_of_false (LaTeX.startsPlainly_besideText hstart).not_beginsWithNumeral hf'⟩

theorem not_beginsWithNumeral_power (h : b.const? = none) :
    ¬(power b e).BeginsWithNumeral := by
  rw [beginsWithNumeral_power_iff]
  rintro ⟨v, rfl, -⟩
  exact absurd h (by simp)

theorem scans_reciprocal (hd : Scans d l) (hiff : d.Crowded ↔ (power b (.const n)).Crowded)
    (hconst : b.const? = none) : Scans (power b (.const n)) (.reciprocal l) :=
  .of_marks (by rw [LaTeX.numeralsMeet_text_reciprocal, hd.numeralsMeet_iff, hiff])
    (LaTeX.startsPlainly_fraction _ _) LaTeX.not_endsInNumeral_append_braced_text id
    (not_beginsWithNumeral_power hconst)

theorem scans_root (hb : Scans b l) (hconst : b.const? = none) :
    Scans (power b (.const n)) (.root l) :=
  .of_marks (by rw [LaTeX.numeralsMeet_text_root, hb.numeralsMeet_iff, crowded_power_const])
    (LaTeX.startsPlainly_append ⟨'\\', _, by decide, by decide, rfl⟩)
    LaTeX.not_endsInNumeral_append_braced_text id (not_beginsWithNumeral_power hconst)

theorem scans_exponential (hb : Scans b l) : Scans (exponential b) (.exponential l) :=
  .of_marks (by rw [LaTeX.numeralsMeet_text_exponential, hb.numeralsMeet_iff]; rfl)
    (LaTeX.startsPlainly_append ⟨'e', _, by decide, by decide, rfl⟩)
    LaTeX.not_endsInNumeral_append_braced_text id id

/-- Only a constant is laid out as a number. -/
theorem layoutWithin_eq_number_iff {v : Float} :
    layoutWithin LaTeX.powerForm (fuel + 1) b = .number v ↔ b = .const v := by
  cases b with
  | const c =>
    rw [layoutWithin, Layout.number.injEq, Formula.const.injEq]
  | symbol | sum | product | exponential => simp [layoutWithin]
  | power b e =>
    refine iff_of_false ?_ (by simp)
    cases e with
    | const n =>
      rcases LaTeX.layoutWithin_power_const fuel b n with ⟨hlayout, -⟩ | hlayout | hlayout <;>
        · rw [hlayout]
          simp
    | symbol | sum | product | power | exponential => simp [layoutWithin]

/-- **Numerals of texts.**  The numerals in the text of a formula are as they are said to be. -/
theorem scans_layoutWithin (h : f.Writable HasPlainStart) (hfuel : weight f ≤ fuel) :
    Scans f (layoutWithin LaTeX.powerForm fuel f) := by
  induction fuel generalizing f with
  | zero =>
    have hpos := weight_pos f
    omega
  | succ fuel ih =>
    have hbelow : ScansBelow fuel f := fun g hg hlt => ih hg (by omega)
    cases f with
    | const v => exact scans_const (writable_const_iff.mp h)
    | symbol s => exact scans_symbol (h.named s (List.mem_singleton_self s))
    | sum ts => exact scans_sum h hbelow
    | product fs => exact scans_product h hbelow
    | exponential x =>
      rw [layoutWithin]
      exact scans_exponential (hbelow x h.exponential (by rw [weight]; omega))
    | power b e =>
      obtain ⟨hshape, hb, he⟩ := writable_power_iff.mp h
      obtain ⟨hlt, hlt'⟩ := weight_lt_power b e
      have hpos := weight_pos b
      have hpower : Scans (power b e) (.power (layoutWithin LaTeX.powerForm fuel b)
          (layoutWithin LaTeX.powerForm fuel e)) := by
        have hprintable :=
          (laysOut_layoutWithin_of_suits LaTeX.suits_powerForm hb (by omega : _ ≤ fuel)).printable
        obtain ⟨k, rfl⟩ : ∃ k, fuel = k + 1 := ⟨fuel - 1, by omega⟩
        exact scans_power (hbelow b hb hlt) (hbelow e he hlt') hprintable
          fun v => layoutWithin_eq_number_iff
      cases e with
      | const n =>
        have hconst : b.const? = none := hshape.not_both_const.resolve_right (by simp)
        rcases LaTeX.layoutWithin_power_const fuel b n with ⟨hlayout, hform⟩ | hlayout | hlayout
        · have hneg := LaTeX.realOf_lt_zero_of_powerForm_eq (writable_const_iff.mp he) hform
          have hd := below_powConst h hneg
          rw [hlayout]
          exact scans_reciprocal (hbelow _ hd.writable hd.weight_lt)
            (crowded_powConst_neg h hneg) hconst
        · rw [hlayout]
          exact scans_root (hbelow b hb hlt) hconst
        · rw [hlayout]
          exact hpower
      | symbol | sum | product | power | exponential => exact hpower

/-! ## Texts in which numerals meet -/

/-- **Numerals that meet.**  In the text of a normal formula with finite constants, whose symbols
have names that begin with letters, or with anything else than digits and blanks, two numerals have
nothing but blanks between them exactly if the formula is crowded: in some product a coefficient, or
a symbol whose text ends in a numeral, has a power of a constant for its next neighbour on its side
of the bar, or the text of a symbol has such numerals itself. -/
theorem numeralsMeet_toLaTeX_iff {f : Formula Float} (hnormal : f.IsNormal)
    (hfinite : ∀ c ∈ f.constants, c.isFinite = true)
    (hnamed : ∀ s ∈ f.occurrences, HasPlainStart s) :
    NumeralsMeet f.toLaTeX.toList ↔ f.Crowded :=
  (scans_layoutWithin ⟨hnormal, hfinite, hnamed⟩ le_rfl).numeralsMeet_iff

/-- Twice a power of three is written as a power of twenty-three. -/
theorem numeralsMeet_toLaTeX_iff_two_mul_three_pow :
    (product [const 2.0, power (const 3.0) (symbol "x")]).toLaTeX = "2 3^\x7bx\x7d" ∧
      NumeralsMeet "2 3^\x7bx\x7d".toList := by
  have htext : (product [const 2.0, power (const 3.0) (symbol "x")]).toLaTeX =
      "2 3^\x7bx\x7d" := by decide +kernel
  have hpower : (power (const 3.0) (symbol "x") : Formula Float).IsNormal := by
    refine isNormal_power_iff.mpr ⟨⟨Or.inr rfl, ?_, ?_, ?_, ?_⟩, trivial, trivial⟩
    · simp
    · intro c hc
      obtain rfl := Formula.const.inj hc
      decide +kernel
    · simp
    · simp
  have hnormal : (product [const 2.0, power (const 3.0) (symbol "x")] :
      Formula Float).IsNormal := by
    refine isNormal_product_iff.mpr ⟨⟨le_rfl, ?_, ?_, ?_⟩, ?_⟩
    · simp [IsProduct]
    · simp [const?]
    · intro c hc
      obtain rfl : (2.0 : Float) = c := by simpa using hc
      exact ⟨by decide +kernel, by decide +kernel⟩
    · exact List.forall_mem_cons.mpr ⟨isNormal_const _, List.forall_mem_singleton.mpr hpower⟩
  have hfinite : ∀ c ∈ (product [const 2.0, power (const 3.0) (symbol "x")]).constants,
      c.isFinite = true := by
    simp only [constants, constantsEach, List.append_nil, List.singleton_append,
      List.forall_mem_cons]
    exact ⟨by decide +kernel, by decide +kernel, by simp⟩
  have hnamed : ∀ s ∈ (product [const 2.0, power (const 3.0) (symbol "x")] :
      Formula Float).occurrences, HasPlainStart s := by
    simp only [occurrences, occurrencesEach, List.nil_append, List.append_nil,
      List.forall_mem_cons]
    exact ⟨⟨'x', [], by decide, by decide, rfl⟩, by simp⟩
  refine ⟨htext, ?_⟩
  rw [← htext, numeralsMeet_toLaTeX_iff hnormal hfinite hnamed, crowded_product_iff]
  have htwo : ¬(2.0 : Float) < 0.0 := by decide +kernel
  have hthree : ¬(3.0 : Float) < 0.0 := by decide +kernel
  have hminus : leadingMinus? [const 2.0, power (const 3.0) (symbol "x")] = none := by
    rw [leadingMinus?]
    exact if_neg htwo
  rw [unsignedFactors, hminus]
  exact Or.inr (Or.inl ⟨const 2.0, power (const 3.0) (symbol "x"), List.infix_rfl, htwo, hthree⟩)

end Formula

end SphereLab
