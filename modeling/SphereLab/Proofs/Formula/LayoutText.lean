import Mathlib
import SphereLab.Formula.CSource
import SphereLab.Proofs.CExpression.Writing
import SphereLab.Proofs.Formula.MemberTexts

/-!
# Layouts as expressions of C

The text of a layout in C is an expression with the value of the layout, whatever the layout is
nested in; only numbers that are not finite and names that are no variables have no text.

* `Expresses`: a text that is an expression of a level with a value.
* `faithful_of_printable`: the text of a layout is an expression with its value.
-/

namespace SphereLab

namespace CSource

open CExpression Layout

/-! ## Texts with values -/

/-- The text is an expression of a level with the value, wherever there is one. -/
def Expresses (level : Level) (s : String) (value? : (String → Option ℝ) → Option ℝ) : Prop :=
  ∃ x, Writes level s.toList x ∧ ∀ env v, value? env = some v → x.value? env = some v

/-- The level that a layout's binding stands for. -/
def levelOf (binding : Nat) : Level :=
  if binding < 2 then .additive else if binding < 3 then .multiplicative else .primary

variable {level : Level} {s : String} {value? : (String → Option ℝ) → Option ℝ}

theorem toList_parens (s : String) : (parens s).toList = '(' :: (s.toList ++ [')']) := by
  rw [parens, String.toList_append, String.toList_append]
  rfl

namespace Expresses

theorem additive (h : Expresses level s value?) : Expresses .additive s value? := by
  obtain ⟨x, hx, hvalue⟩ := h
  exact ⟨x, hx.additive, hvalue⟩

theorem parens (h : Expresses level s value?) : Expresses .primary (parens s) value? := by
  obtain ⟨x, hx, hvalue⟩ := h.additive
  refine ⟨x, ?_, hvalue⟩
  rw [toList_parens]
  exact hx.parens

/-- Between parentheses where its binding is too loose for a factor. -/
theorem factor {binding : Nat} (h : Expresses (levelOf binding) s value?) :
    Expresses .multiplicative (if binding < 2 then CSource.parens s else s) value? := by
  split
  · obtain ⟨x, hx, hvalue⟩ := h.parens
    exact ⟨x, hx.multiplicative, hvalue⟩
  · rename_i hbinding
    rw [levelOf, if_neg hbinding] at h
    split at h
    · exact h
    · obtain ⟨x, hx, hvalue⟩ := h
      exact ⟨x, hx.multiplicative, hvalue⟩

/-- Between parentheses where its binding is too loose for a divisor. -/
theorem divisor {binding : Nat} (h : Expresses (levelOf binding) s value?) :
    Expresses .primary (if binding < 3 then CSource.parens s else s) value? := by
  split
  · exact h.parens
  · rename_i hbinding
    rw [levelOf, if_neg (by omega), if_neg hbinding] at h
    exact h

end Expresses

/-! ## Numbers -/

theorem isWordChar_of_isPositional {cs : List Char} (h : IsPositional cs) :
    ∀ c ∈ cs, isWordChar c = true := by
  intro c hc
  rcases h.isDigit_or_point c hc with hdigit | rfl
  · simp [isWordChar, Char.isAlphanum, hdigit]
  · decide

/-- A decimal is written as a numeral, and has the value of the double nearest to it. -/
theorem writes_number {cs : List Char} {digits : Nat} {shift : Int}
    (h : DecimalText cs digits shift)
    (hfinite : (Numeral.nearestDecimal false digits shift).isFinite = true) :
    Writes .primary cs (.number cs) ∧ ∀ env, (Tree.number cs).value? env =
      some (realOf (Numeral.nearestDecimal false digits shift)) := by
  obtain ⟨c, rest, hcs, hc⟩ := h.isPositional.head
  have hword := isWordChar_of_isPositional h.isPositional
  have htoken : wordToken? cs = some (.number cs) := by
    rw [wordToken?, if_pos (isNumeral_of_decimalText h)]
  have hne : cs ≠ [] := by
    rw [hcs]
    exact List.cons_ne_nil c rest
  refine ⟨⟨⟨_, lexes_word hne hword htoken, .number cs⟩, fun _ => ⟨c, rest, hcs, Or.inl ?_⟩⟩,
    ?_⟩
  · refine hword c ?_
    rw [hcs]
    exact List.mem_cons_self
  · intro env
    rw [Tree.value?, numeralValue?_of_decimalText h hfinite]

theorem binding_number {v : Float} (hv : v.isFinite = true) :
    levelOf (binding (.number v : Layout Float)) =
      if realOf v < 0 then .additive else .primary := by
  have hiff := lt_zero_iff_realOf hv
  have hbinding : binding (.number v : Layout Float) = if v < (0.0 : Float) then 1 else 4 := rfl
  rw [hbinding]
  by_cases h : realOf v < 0
  · rw [if_pos (hiff.mpr h), if_pos h]
    rfl
  · rw [if_neg (mt hiff.mp h), if_neg h]
    rfl

/-- The text of a finite number is an expression with its real number as value. -/
theorem expresses_number {v : Float} (hv : v.isFinite = true) :
    Expresses (levelOf (binding (.number v : Layout Float)))
      (Formula.constantText Style.plain.text v) fun _ => some (realOf v) := by
  obtain ⟨negative, cs, digits, shift, htext, hdecimal, hsign, habs, hfinite⟩ :=
    exists_decimalText_constantText hv
  obtain ⟨hwrites, hvalue⟩ := writes_number hdecimal hfinite
  rw [binding_number hv, Expresses, htext]
  cases negative with
  | true =>
    have hneg := hsign.mp rfl
    obtain ⟨z, hz, hminus⟩ := hwrites.multiplicative.minus
    rw [if_pos hneg]
    refine ⟨z, hz, ?_⟩
    intro env w hw
    rw [hminus env _ (hvalue env), habs, abs_of_neg hneg, neg_neg]
    exact hw
  | false =>
    have hnonneg : ¬realOf v < 0 := fun h => absurd (hsign.mpr h) (by decide)
    rw [if_neg hnonneg]
    refine ⟨_, hwrites, ?_⟩
    intro env w hw
    rw [hvalue env, habs, abs_of_nonneg (not_lt.mp hnonneg)]
    exact hw

/-- A variable is an expression with its value in the environment. -/
theorem expresses_name {s : String} (h : IsVariable s) : Expresses .primary s fun env => env s := by
  obtain ⟨hidentifier, hfunction⟩ := h
  obtain ⟨c, cs, hs⟩ : ∃ c cs, s.toList = c :: cs := by
    cases hs : s.toList with
    | nil =>
      rw [isIdentifier, hs] at hidentifier
      exact absurd hidentifier Bool.false_ne_true
    | cons c cs => exact ⟨c, cs, rfl⟩
  have hparts := hidentifier
  rw [isIdentifier, hs] at hparts
  simp only [Bool.and_eq_true, Bool.or_eq_true, beq_iff_eq, List.all_eq_true] at hparts
  obtain ⟨⟨hc, hcs⟩, -⟩ := hparts
  have hdigit : c.isDigit = false := by
    rcases hc with hc | rfl
    · exact isDigit_eq_false_of_isAlpha hc
    · decide
  have hnumeral : isNumeral (c :: cs) = false := by
    simp [isNumeral, hdigit]
  have hword : ∀ d ∈ c :: cs, isWordChar d = true := by
    refine List.forall_mem_cons.mpr ⟨?_, ?_⟩
    · rcases hc with hc | rfl
      · simp [isWordChar, Char.isAlphanum, hc]
      · decide
    · intro d hd
      rcases hcs d hd with hd | rfl
      · simp [isWordChar, hd]
      · decide
  have hback : String.ofList (c :: cs) = s := by rw [← hs, String.ofList_toList]
  have htoken : wordToken? (c :: cs) = some (.name s) := by
    rw [wordToken?, hnumeral, hback, if_neg Bool.false_ne_true, if_pos hidentifier]
  rw [Expresses, hs]
  exact ⟨.name s, ⟨⟨_, lexes_word (List.cons_ne_nil _ _) hword htoken, .name s hfunction⟩,
    fun _ => ⟨c, cs, rfl, Or.inl (hword c List.mem_cons_self)⟩⟩, fun env v hv => hv⟩

/-! ## Products and quotients -/

section Members

variable {ι : Type} {text : ι → String} {value? : ι → (String → Option ℝ) → Option ℝ}
  {members : List ι}

/-- Texts with stars between them are the product. -/
theorem writes_product (hne : members ≠ [])
    (h : ∀ l ∈ members, Expresses .multiplicative (text l) (value? l)) :
    ∃ x, Writes .multiplicative ("*".intercalate (members.map text)).toList x ∧
      ∀ env vs, HaveValues value? env members vs → x.value? env = some vs.prod :=
  exists_intercalate (V := Writes .multiplicative) (W := Writes .multiplicative) id
    (fun hx hy => hx.mul hy) hne h

end Members

/-- A numeral for the number one. -/
theorem writes_one {cs : List Char} {digits : Nat} {shift : Int} (h : DecimalText cs digits shift)
    (hone : (digits : ℝ) * 10 ^ shift = 1) :
    Writes .primary cs (.number cs) ∧ ∀ env, (Tree.number cs).value? env = some 1 := by
  obtain ⟨hfinite, hreal⟩ := nearestDecimal_eq_one hone
  rw [← hreal]
  exact writes_number h hfinite

section Quotient

variable {α β : Type} {aboveText : α → String} {aboveValue? : α → (String → Option ℝ) → Option ℝ}
  {belowText : β → String} {belowValue? : β → (String → Option ℝ) → Option ℝ}
  {above : List α} {below : List β}

/-- What stands above a fraction bar, or a one where nothing does. -/
theorem writes_above (h : ∀ l ∈ above, Expresses .multiplicative (aboveText l) (aboveValue? l)) :
    ∃ x, Writes .multiplicative (if (above.map aboveText).isEmpty then "1"
        else "*".intercalate (above.map aboveText)).toList x ∧
      ∀ env vs, HaveValues aboveValue? env above vs → x.value? env = some vs.prod := by
  cases above with
  | nil =>
    have hdecimal : DecimalText ['1'] 1 0 := decimalText_decimalDigits 1
    obtain ⟨hone, hvalue⟩ := writes_one hdecimal (by norm_num)
    rw [List.map_nil, List.isEmpty_nil, if_pos rfl]
    refine ⟨.number ['1'], hone.multiplicative, ?_⟩
    intro env vs hvs
    rw [List.forall₂_nil_left_iff.mp hvs, List.prod_nil]
    exact hvalue env
  | cons l ls =>
    have hempty : ((l :: ls).map aboveText).isEmpty = false := rfl
    rw [hempty, if_neg Bool.false_ne_true]
    exact writes_product (List.cons_ne_nil l ls) h

/-- A product over a product, without a sign. -/
theorem writes_fraction
    (habove : ∀ l ∈ above, Expresses .multiplicative (aboveText l) (aboveValue? l))
    (hbelow : ∀ l ∈ below, Expresses .primary (belowText l) (belowValue? l)) :
    ∃ x, Writes .multiplicative
        (joinQuotient false (above.map aboveText) (below.map belowText)).toList x ∧
      ∀ env vs ws, HaveValues aboveValue? env above vs → HaveValues belowValue? env below ws →
        ws.prod ≠ 0 → x.value? env = some (vs.prod / ws.prod) := by
  obtain ⟨x, hx, hvalue⟩ := writes_above habove
  obtain ⟨top, htop⟩ : ∃ top, (if (above.map aboveText).isEmpty then "1"
    else "*".intercalate (above.map aboveText)) = top := ⟨_, rfl⟩
  rw [htop] at hx
  match below with
  | [] =>
    have htext : joinQuotient false (above.map aboveText) (List.map belowText []) = top := htop
    rw [htext]
    refine ⟨x, hx, ?_⟩
    intro env vs ws hvs hws _
    rw [List.forall₂_nil_left_iff.mp hws, List.prod_nil, div_one]
    exact hvalue env vs hvs
  | [d] =>
    obtain ⟨y, hy, hdivisor⟩ := hbelow d (List.mem_singleton_self d)
    refine ⟨.binary .div x y, ?_, ?_⟩
    · have htext : joinQuotient false (above.map aboveText) (List.map belowText [d]) =
          top ++ "/" ++ belowText d := by
        rw [← htop]
        rfl
      rw [htext, String.toList_append, String.toList_append, List.append_assoc]
      exact hx.div hy.unary
    · intro env vs ws hvs hws hne
      obtain ⟨w, us, hw, hus, rfl⟩ := List.forall₂_cons_left_iff.mp hws
      rw [List.forall₂_nil_left_iff.mp hus, List.prod_singleton] at hne ⊢
      exact value?_binary_iff.mpr ⟨_, w, hvalue env vs hvs, hdivisor env w hw,
        result?_div_iff.mpr ⟨hne, rfl⟩⟩
  | d :: e :: ds =>
    have hfactors : ∀ l ∈ d :: e :: ds,
        Expresses .multiplicative (belowText l) (belowValue? l) := by
      intro l hl
      obtain ⟨y, hy, hdivisor⟩ := hbelow l hl
      exact ⟨y, hy.multiplicative, hdivisor⟩
    obtain ⟨y, hy, hproduct⟩ := writes_product (List.cons_ne_nil d (e :: ds)) hfactors
    refine ⟨.binary .div x y, ?_, ?_⟩
    · have htext : joinQuotient false (above.map aboveText) (List.map belowText (d :: e :: ds)) =
          top ++ "/" ++ parens ("*".intercalate (List.map belowText (d :: e :: ds))) := by
        rw [← htop]
        rfl
      rw [htext, String.toList_append, String.toList_append, toList_parens, List.append_assoc]
      exact hx.div hy.additive.parens.unary
    · intro env vs ws hvs hws hne
      exact value?_binary_iff.mpr ⟨_, _, hvalue env vs hvs, hproduct env ws hws,
        result?_div_iff.mpr ⟨hne, rfl⟩⟩

/-- A product over a product, behind its sign. -/
theorem expresses_quotient (negative : Bool)
    (habove : ∀ l ∈ above, Expresses .multiplicative (aboveText l) (aboveValue? l))
    (hbelow : ∀ l ∈ below, Expresses .primary (belowText l) (belowValue? l)) :
    ∃ x, Writes (if negative then .additive else .multiplicative)
        (joinQuotient negative (above.map aboveText) (below.map belowText)).toList x ∧
      ∀ env vs ws, HaveValues aboveValue? env above vs → HaveValues belowValue? env below ws →
        ws.prod ≠ 0 → x.value? env = some (Layout.signed negative (vs.prod / ws.prod)) := by
  obtain ⟨x, hx, hvalue⟩ := writes_fraction habove hbelow
  cases negative with
  | false => exact ⟨x, hx, hvalue⟩
  | true =>
    obtain ⟨z, hz, hminus⟩ := hx.minus
    refine ⟨z, ?_, fun env vs ws hvs hws hne => hminus env _ (hvalue env vs ws hvs hws hne)⟩
    have htext : joinQuotient true (above.map aboveText) (below.map belowText) =
        "-" ++ joinQuotient false (above.map aboveText) (below.map belowText) := rfl
    rw [htext, String.toList_append]
    exact hz

end Quotient

/-! ## Sums -/

/-- A term of a sum: its sign, its text and its text behind a minus, and its value. -/
structure Term where
  negative : Bool
  bare : String
  guarded : String
  value? : (String → Option ℝ) → Option ℝ

/-- The texts of a term are expressions with its value. -/
structure Term.Good (t : Term) : Prop where
  bare : Expresses .additive t.bare t.value?
  guarded : Expresses .multiplicative t.guarded t.value?

/-- A term behind others. -/
def Term.following (t : Term) : String := if t.negative then " - " ++ t.guarded else " + " ++ t.bare

/-- Terms behind a sum are added to it. -/
theorem writes_following {ts : List Term} (h : ∀ t ∈ ts, t.Good) {cs : List Char} {x : Tree}
    (hx : Writes .additive cs x) :
    ∃ z, Writes .additive (cs ++ (String.join (ts.map Term.following)).toList) z ∧
      ∀ env a vs, x.value? env = some a → HaveValues Term.value? env ts vs →
        z.value? env = some (a + signedTotal Term.negative ts vs) := by
  refine exists_append_join (W := Writes .additive) (fun t ht cs x hx => ?_) hx
  rw [Term.following]
  cases t.negative with
  | true =>
    obtain ⟨y, hy, hvalue⟩ := (h t ht).guarded
    refine ⟨.binary .sub x y, ?_, ?_⟩
    · rw [if_pos rfl, String.toList_append]
      exact hx.sub hy
    · intro env a v ha hv
      refine value?_binary_iff.mpr ⟨a, v, ha, hvalue env v hv, ?_⟩
      rw [Operator.result?, Layout.signed, if_pos rfl, sub_eq_add_neg]
  | false =>
    obtain ⟨y, hy, hvalue⟩ := (h t ht).bare
    obtain ⟨z, hz, hadd⟩ := hx.add hy
    refine ⟨z, ?_, ?_⟩
    · rw [if_neg Bool.false_ne_true, String.toList_append]
      exact hz
    · intro env a v ha hv
      rw [hadd env a v ha (hvalue env v hv), Layout.signed, if_neg Bool.false_ne_true]

/-- The terms of a sum behind their signs. -/
theorem expresses_joinTerms {ts : List Term} (hne : ts ≠ []) (h : ∀ t ∈ ts, t.Good) :
    ∃ z, Writes .additive
        (joinTerms (ts.map fun t => (t.negative, t.bare, t.guarded))).toList z ∧
      ∀ env vs, HaveValues Term.value? env ts vs → z.value? env =
        some (signedTotal Term.negative ts vs) := by
  obtain ⟨t, ts, rfl⟩ := List.exists_cons_of_ne_nil hne
  obtain ⟨ht, hts⟩ := List.forall_mem_cons.mp h
  have hfirst : ∃ y, Writes .additive
      (if t.negative then "-" ++ t.guarded else t.bare).toList y ∧
      ∀ env v, t.value? env = some v → y.value? env = some (Layout.signed t.negative v) := by
    cases t.negative with
    | true =>
      obtain ⟨y, hy, hvalue⟩ := ht.guarded
      obtain ⟨z, hz, hminus⟩ := hy.minus
      refine ⟨z, ?_, fun env v hv => hminus env v (hvalue env v hv)⟩
      rw [if_pos rfl, String.toList_append]
      exact hz
    | false => exact ht.bare
  obtain ⟨y, hy, hvalue⟩ := hfirst
  obtain ⟨z, hz, htotal⟩ := writes_following hts hy
  refine ⟨z, ?_, ?_⟩
  · have htext : joinTerms ((t :: ts).map fun t => (t.negative, t.bare, t.guarded)) =
        (if t.negative then "-" ++ t.guarded else t.bare) ++
          String.join (ts.map Term.following) := by
      rw [List.map_cons, joinTerms, List.map_map]
      rfl
    rw [htext, String.toList_append]
    exact hz
  · intro env vs hvs
    obtain ⟨v, ws, hv, hws, rfl⟩ := List.forall₂_cons_left_iff.mp hvs
    rw [htotal env _ ws (hvalue env v hv) hws]
    rfl

/-! ## Layouts -/

/-- The text of a number in a formula. -/
abbrev numberText : Float → String := Formula.constantText Style.plain.text

/-- The text of a layout as a factor. -/
def factorText (l : Layout Float) : String :=
  if binding l < 2 then parens (text numberText l) else text numberText l

/-- The text of a layout as a divisor. -/
def divisorText (l : Layout Float) : String :=
  if binding l < 3 then parens (text numberText l) else text numberText l

theorem texts_eq_map (ls : List (Layout Float)) :
    texts numberText ls = ls.map fun l => (text numberText l, factorText l, divisorText l) := by
  induction ls with
  | nil => rfl
  | cons l ls ih => exact congrArg (List.cons _) ih

/-- The term that a layout is behind a sign. -/
noncomputable def termOf (negative : Bool) (l : Layout Float) : Term :=
  ⟨negative, text numberText l, factorText l, fun env => l.value? env⟩

theorem zip_texts_eq_map (signs : List Bool) (ls : List (Layout Float)) :
    signs.zip ((texts numberText ls).map fun t => (t.1, t.2.1)) =
      (List.zipWith termOf signs ls).map fun t => (t.negative, t.bare, t.guarded) := by
  rw [texts_eq_map, List.map_map]
  induction signs generalizing ls with
  | nil => rfl
  | cons negative signs ih =>
    cases ls with
    | nil => rfl
    | cons l ls =>
      rw [List.map_cons, List.zip_cons_cons, List.zipWith_cons_cons, List.map_cons, ih ls]
      rfl

/-! The texts of layouts, each from the texts of its members. -/

theorem text_sum (signs : List Bool) (ts : List (Layout Float)) :
    text numberText (.sum signs ts) =
      joinTerms ((List.zipWith termOf signs ts).map fun t => (t.negative, t.bare, t.guarded)) :=
  congrArg joinTerms (zip_texts_eq_map signs ts)

theorem text_quotient (negative : Bool) (above below : List (Layout Float)) :
    text numberText (.quotient negative above below) =
      joinQuotient negative (above.map factorText) (below.map divisorText) := by
  have htext : text numberText (.quotient negative above below) = joinQuotient negative
      ((texts numberText above).map (·.2.1)) ((texts numberText below).map (·.2.2)) := rfl
  rw [htext, texts_eq_map, texts_eq_map, List.map_map, List.map_map]
  rfl

theorem text_reciprocal (l : Layout Float) :
    text numberText (.reciprocal l) = "1.0/" ++ divisorText l := rfl

theorem text_power (b e : Layout Float) : text numberText (.power b e) =
    "pow(" ++ text numberText b ++ ", " ++ text numberText e ++ ")" := rfl

theorem text_repeated (b : Layout Float) (count : Nat) : text numberText (.repeated b count) =
    parens ("*".intercalate (List.replicate count (parens (text numberText b)))) := rfl

theorem text_root (l : Layout Float) :
    text numberText (.root l) = "sqrt(" ++ text numberText l ++ ")" := rfl

theorem text_exponential (l : Layout Float) :
    text numberText (.exponential l) = "exp(" ++ text numberText l ++ ")" := rfl

/-- The terms that layouts are behind their signs have their values. -/
theorem haveValues_termOf {env : String → Option ℝ} {signs : List Bool} {ls : List (Layout Float)}
    {vs : List ℝ} (hlength : signs.length = ls.length)
    (hvs : List.Forall₂ (fun l v => l.value? env = some v) ls vs) :
    HaveValues Term.value? env (List.zipWith termOf signs ls) vs ∧
      signedTotal Term.negative (List.zipWith termOf signs ls) vs =
        (List.zipWith Layout.signed signs vs).sum := by
  induction hvs generalizing signs with
  | nil =>
    obtain rfl := List.length_eq_zero_iff.mp hlength
    exact ⟨.nil, rfl⟩
  | @cons l v ls vs hv hvs ih =>
    obtain ⟨negative, signs, rfl⟩ := List.exists_cons_of_length_eq_add_one hlength
    obtain ⟨hvalues, htotal⟩ := ih (Nat.succ.inj hlength)
    refine ⟨.cons hv hvalues, ?_⟩
    rw [List.zipWith_cons_cons, List.zipWith_cons_cons, List.sum_cons, ← htotal]
    rfl

/-- Layouts that have values as factors or as divisors. -/
theorem haveValues_iff {env : String → Option ℝ} {ls : List (Layout Float)} {vs : List ℝ} :
    HaveValues (fun l env => Layout.value? env l) env ls vs ↔ Layout.values? env ls = some vs :=
  Layout.values?_eq_some_iff.symm

/-- The text of the layout is an expression of the level that its binding stands for, with the
value of the layout. -/
def Faithful (l : Layout Float) : Prop :=
  Expresses (levelOf (binding l)) (text numberText l) fun env => l.value? env

section Constructors

variable {l b e : Layout Float}

theorem faithful_number {v : Float} (hv : v.isFinite = true) : Faithful (.number v) :=
  expresses_number hv

theorem faithful_name {s : String} (hs : IsVariable s) : Faithful (.name s) := expresses_name hs

theorem faithful_sum {signs : List Bool} {ts : List (Layout Float)} (hne : ts ≠ [])
    (hlength : signs.length = ts.length) (hts : ∀ t ∈ ts, Faithful t) :
    Faithful (.sum signs ts) := by
  have hterms : List.zipWith termOf signs ts ≠ [] := by
    rw [Ne, List.zipWith_eq_nil_iff, not_or]
    refine ⟨fun hnil => hne (List.length_eq_zero_iff.mp ?_), hne⟩
    rw [← hlength, hnil, List.length_nil]
  have hgood : ∀ t ∈ List.zipWith termOf signs ts, t.Good := by
    intro t ht
    obtain ⟨i, hi, rfl⟩ := List.getElem_of_mem ht
    rw [List.getElem_zipWith]
    have hi' : i < ts.length := by
      rw [List.length_zipWith] at hi
      omega
    have htext := hts ts[i] (List.getElem_mem hi')
    exact ⟨htext.additive, htext.factor⟩
  obtain ⟨z, hz, hvalue⟩ := expresses_joinTerms hterms hgood
  refine ⟨z, ?_, ?_⟩
  · rw [text_sum]
    exact hz
  · intro env v hv
    obtain ⟨vs, hvs, rfl⟩ := Option.map_eq_some_iff.mp hv
    obtain ⟨hvalues, htotal⟩ := haveValues_termOf hlength (Layout.values?_eq_some_iff.mp hvs)
    rw [hvalue env vs hvalues, htotal]

theorem faithful_quotient (negative : Bool) {above below : List (Layout Float)}
    (habove : ∀ l ∈ above, Faithful l) (hbelow : ∀ l ∈ below, Faithful l) :
    Faithful (.quotient negative above below) := by
  obtain ⟨x, hx, hvalue⟩ := expresses_quotient negative
    (fun l hl => (habove l hl).factor) (fun l hl => (hbelow l hl).divisor)
  refine ⟨x, ?_, ?_⟩
  · rw [text_quotient]
    cases negative <;> exact hx
  · intro env v hv
    obtain ⟨vs, hvs, hv⟩ := Option.bind_eq_some_iff.mp hv
    obtain ⟨ws, hws, hv⟩ := Option.bind_eq_some_iff.mp hv
    split at hv
    · exact absurd hv (by simp)
    · rename_i hne
      rw [hvalue env vs ws (haveValues_iff.mpr hvs) (haveValues_iff.mpr hws) hne]
      exact hv

theorem faithful_reciprocal (hl : Faithful l) : Faithful (.reciprocal l) := by
  obtain ⟨y, hy, hvalue⟩ := hl.divisor
  have hdecimal : DecimalText ['1', '.', '0'] 10 (-1) :=
    @DecimalText.pointed ['1'] ['0'] (List.cons_ne_nil _ _) (by simp [AllDigits])
      (by simp [AllDigits])
  obtain ⟨hone, hone'⟩ := writes_one hdecimal (by norm_num)
  refine ⟨.binary .div (.number ['1', '.', '0']) y, ?_, ?_⟩
  · rw [text_reciprocal, String.toList_append]
    exact hone.multiplicative.div hy.unary
  · intro env v hv
    obtain ⟨w, hw, hv⟩ := Option.bind_eq_some_iff.mp hv
    split at hv
    · exact absurd hv (by simp)
    · rename_i hne
      rw [← Option.some.inj hv, ← one_div]
      exact value?_binary_iff.mpr ⟨1, w, hone' env, hvalue env w hw,
        result?_div_iff.mpr ⟨hne, rfl⟩⟩

theorem faithful_power (hb : Faithful b) (he : Faithful e) : Faithful (.power b e) := by
  obtain ⟨x, hx, hvalue⟩ := hb.additive
  obtain ⟨y, hy, hvalue'⟩ := he.additive
  refine ⟨.pow x y, ?_, ?_⟩
  · have hpow := hx.pow hy
    rw [text_power]
    simp only [String.toList_append, List.append_assoc]
    exact hpow
  · intro env v hv
    obtain ⟨a, ha, hv⟩ := Option.bind_eq_some_iff.mp hv
    obtain ⟨c, hc, hv⟩ := Option.bind_eq_some_iff.mp hv
    rw [Tree.value?, hvalue env a ha, hvalue' env c hc]
    exact hv

theorem faithful_repeated {n : Nat} (hn : 0 < n) (hb : Faithful b) : Faithful (.repeated b n) := by
  have hfactors : ∀ l ∈ List.replicate n b, Expresses .multiplicative
      ((fun l => parens (text numberText l)) l) (fun env => Layout.value? env l) := by
    intro l hl
    obtain ⟨-, rfl⟩ := List.mem_replicate.mp hl
    obtain ⟨x, hx, hvalue⟩ := hb.parens
    exact ⟨x, hx.multiplicative, hvalue⟩
  have hne : List.replicate n b ≠ [] := by
    rw [Ne, List.replicate_eq_nil_iff]
    omega
  obtain ⟨x, hx, hvalue⟩ := writes_product hne hfactors
  refine ⟨x, ?_, ?_⟩
  · rw [text_repeated, toList_parens]
    rw [List.map_replicate] at hx
    exact hx.additive.parens
  · intro env v hv
    obtain ⟨a, ha, rfl⟩ := Option.map_eq_some_iff.mp hv
    rw [hvalue env _ (haveValues_replicate ha n), List.prod_replicate]

theorem faithful_root (hl : Faithful l) : Faithful (.root l) := by
  obtain ⟨x, hx, hvalue⟩ := hl.additive
  refine ⟨.call .sqrt x, ?_, ?_⟩
  · have hcall := hx.call .sqrt
    rw [text_root]
    simp only [String.toList_append, List.append_assoc]
    exact hcall
  · intro env v hv
    obtain ⟨a, ha, hv⟩ := Option.bind_eq_some_iff.mp hv
    rw [Tree.value?, hvalue env a ha]
    exact hv

theorem faithful_exponential (hl : Faithful l) : Faithful (.exponential l) := by
  obtain ⟨x, hx, hvalue⟩ := hl.additive
  refine ⟨.call .exp x, ?_, ?_⟩
  · have hcall := hx.call .exp
    rw [text_exponential]
    simp only [String.toList_append, List.append_assoc]
    exact hcall
  · intro env v hv
    obtain ⟨a, ha, rfl⟩ := Option.map_eq_some_iff.mp hv
    rw [Tree.value?, hvalue env a ha]
    rfl

end Constructors

/-- **Texts of layouts.**  The text of a printable layout is an expression with its value. -/
theorem faithful_of_printable {l : Layout Float} (h : l.Printable IsVariable) : Faithful l := by
  induction l with
  | number v => exact faithful_number h
  | name s => exact faithful_name h
  | sum signs ts ih =>
    obtain ⟨hne, hlength, hts⟩ := h
    exact faithful_sum hne hlength fun t ht => ih t ht (Layout.allPrintable_iff.mp hts t ht)
  | quotient negative above below ihabove ihbelow =>
    obtain ⟨habove, hbelow⟩ := h
    exact faithful_quotient negative
      (fun l hl => ihabove l hl (Layout.allPrintable_iff.mp habove l hl))
      fun l hl => ihbelow l hl (Layout.allPrintable_iff.mp hbelow l hl)
  | reciprocal l ih => exact faithful_reciprocal (ih h)
  | power b e ihb ihe =>
    obtain ⟨hb, he⟩ := h
    exact faithful_power (ihb hb) (ihe he)
  | repeated b n ih =>
    obtain ⟨hn, hb⟩ := h
    exact faithful_repeated hn (ih hb)
  | root l ih => exact faithful_root (ih h)
  | exponential l ih => exact faithful_exponential (ih h)

end CSource

end SphereLab
