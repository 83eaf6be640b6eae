import Mathlib
import SphereLab.Proofs.Directory.Paths
import SphereLab.Proofs.Formula.MemberTexts
import SphereLab.Proofs.LaTeX.Symbols

/-!
# Layouts in LaTeX

The text of a layout in LaTeX has the value of the layout, at the level of the grammar that its
binding stands for.  Where a text is put beside others it has parentheses if it needs them, and the
parentheses that are taken away again below a fraction bar are always a pair: a text that does not
need parentheses never ends in one, except for a product, and no product stands there by itself.

* `Layout.Legible`: what the grammar needs of a layout besides its being printable.
* `faithful_of_legible`: the text of a layout is a formula with its value.
-/

namespace SphereLab

namespace Layout

/-! ## Layouts that can be read -/

/-- Is the layout a product over a product? -/
def IsQuotient : Layout Float → Prop
  | .quotient _ _ _ => True
  | _ => False

mutual

/-- Only what is subtracted may be as loose as a sum, a product has factors, none of which is a
product itself, and powers are not written as products. -/
def Legible : Layout Float → Prop
  | .number _ => True
  | .name _ => True
  | .sum signs ts =>
    (∀ p ∈ signs.zip ts, p.1 = false → 2 ≤ LaTeX.binding p.2) ∧ AllLegible ts
  | .quotient _ above below => (above ≠ [] ∨ below ≠ []) ∧
      (∀ l ∈ above ++ below, ¬l.IsQuotient) ∧ AllLegible above ∧ AllLegible below
  | .reciprocal l | .root l | .exponential l => Legible l
  | .power b e => Legible b ∧ Legible e
  | .repeated _ _ => False

/-- All of several layouts are legible. -/
def AllLegible : List (Layout Float) → Prop
  | [] => True
  | l :: ls => Legible l ∧ AllLegible ls

end

theorem allLegible_iff {ls : List (Layout Float)} : AllLegible ls ↔ ∀ l ∈ ls, l.Legible := by
  induction ls with
  | nil => exact iff_of_true trivial fun l hl => absurd hl List.not_mem_nil
  | cons l ls ih => exact (and_congr_right fun _ => ih).trans List.forall_mem_cons.symm

end Layout

namespace LaTeX

open CExpression (Tree value?_binary_iff)
open Layout (HaveValues signedTotal exists_intercalate exists_append_join)

/-! ## Texts with values -/

/-- The text is a formula of a level with the value, wherever there is one. -/
def Expresses (level : Level) (s : String) (value? : (String → Option ℝ) → Option ℝ) : Prop :=
  ∃ x, Writes level s.toList x ∧ ∀ env v, value? env = some v → x.value? env = some v

/-- The level that a layout's binding stands for. -/
def levelOf (binding : Nat) : Level :=
  if binding < 2 then .sum else if binding < 3 then .product else if binding < 4 then .factor
  else .atom

variable {level : Level} {s : String} {value? : (String → Option ℝ) → Option ℝ}
  {l b e : Layout Float}

theorem toList_parens (s : String) : (parens s).toList = leftText ++ (s.toList ++ rightText) := by
  rw [parens, String.toList_append, String.toList_append, List.append_assoc]
  rfl

namespace Expresses

theorem sum (h : Expresses level s value?) : Expresses .sum s value? := by
  obtain ⟨x, hx, hvalue⟩ := h
  exact ⟨x, hx.toSum, hvalue⟩

theorem parens (h : Expresses level s value?) : Expresses .atom (parens s) value? := by
  obtain ⟨x, hx, hvalue⟩ := h.sum
  refine ⟨x, ?_, hvalue⟩
  rw [toList_parens]
  exact hx.parens

/-- An atom, between parentheses where the binding is looser. -/
theorem atom {binding : Nat} (h : Expresses (levelOf binding) s value?) :
    Expresses .atom (if binding < 4 then LaTeX.parens s else s) value? := by
  split
  · exact h.parens
  · rename_i hbinding
    rwa [levelOf, if_neg (by omega), if_neg (by omega), if_neg hbinding] at h

theorem of_atom (h : Expresses .atom s value?) : Expresses .factor s value? := by
  obtain ⟨x, hx, hvalue⟩ := h
  exact ⟨x, hx.factor, hvalue⟩

theorem of_factor (h : Expresses .factor s value?) : Expresses .product s value? := by
  obtain ⟨x, hx, hvalue⟩ := h
  exact ⟨x, hx.product, hvalue⟩

/-- A factor, between parentheses where the binding is that of a sum. -/
theorem factor {binding : Nat} (h : Expresses (levelOf binding) s value?) (hne : binding ≠ 2) :
    Expresses .factor (if binding < 2 then LaTeX.parens s else s) value? := by
  split
  · exact h.parens.of_atom
  · rename_i hbinding
    rw [levelOf, if_neg hbinding, if_neg (by omega)] at h
    split at h
    · exact h
    · exact h.of_atom

/-- A product, between parentheses where the binding is that of a sum. -/
theorem product {binding : Nat} (h : Expresses (levelOf binding) s value?) :
    Expresses .product (if binding < 2 then LaTeX.parens s else s) value? := by
  by_cases htwo : binding = 2
  · rw [htwo, if_neg (by decide)]
    rwa [htwo, levelOf] at h
  · exact (h.factor htwo).of_factor

end Expresses

/-! ## Numbers -/

/-- The text of a number in a formula. -/
abbrev numberText : Float → String := Formula.constantText Style.plain.text

/-- A digit or a point continues a word. -/
theorem isWordChar_of_isDigit_or_point {c : Char} (h : c.isDigit = true ∨ c = '.') :
    isWordChar c = true ∧ c ≠ '_' := by
  rcases h with hdigit | rfl
  · have hne : ∀ d : Char, d.isDigit = false → c ≠ d := by
      rintro d hd rfl
      exact absurd hdigit (by simp [hd])
    refine ⟨?_, hne '_' (by decide)⟩
    simp only [isWordChar, Bool.not_eq_true', List.contains_eq_mem, decide_eq_false_iff_not,
      List.mem_cons, List.not_mem_nil, or_false, not_or]
    exact ⟨hne _ (by decide), hne _ (by decide), hne _ (by decide), hne _ (by decide),
      hne _ (by decide), hne _ (by decide), hne _ (by decide), hne _ (by decide),
      hne _ (by decide)⟩
  · exact ⟨by decide, by decide⟩

/-- A decimal is the token of a numeral. -/
theorem writes_numeral {cs : List Char} {digits : Nat} {shift : Int}
    (h : DecimalText cs digits shift) : Writes .atom cs (.number cs) := by
  have hchars := h.isPositional.isDigit_or_point
  have hword : ∀ c ∈ cs, isWordChar c = true :=
    fun c hc => (isWordChar_of_isDigit_or_point (hchars c hc)).1
  have htoken : wordToken? cs = some (.number cs) := by
    rw [wordToken?, if_pos (CExpression.isNumeral_of_decimalText h)]
  have hne : cs ≠ [] := by
    obtain ⟨c, rest, hcs, -⟩ := h.isPositional.head
    rw [hcs]
    exact List.cons_ne_nil c rest
  have hlast : cs.getLast? ≠ some '_' := fun hlast =>
    (isWordChar_of_isDigit_or_point (hchars '_' (List.mem_of_getLast? hlast))).2 rfl
  exact ⟨⟨_, (spells_word hword).lexes hne hlast htoken, .number cs⟩, nested_word hword⟩

theorem binding_number {v : Float} (hv : v.isFinite = true) :
    binding (.number v : Layout Float) = if realOf v < 0 then 1 else 4 := by
  have hiff := lt_zero_iff_realOf hv
  have hbinding : binding (.number v : Layout Float) = if v < (0.0 : Float) then 1 else 4 := rfl
  rw [hbinding]
  by_cases h : realOf v < 0
  · rw [if_pos (hiff.mpr h), if_pos h]
  · rw [if_neg (mt hiff.mp h), if_neg h]

/-- The text of a finite number has its real number as value. -/
theorem expresses_number {v : Float} (hv : v.isFinite = true) :
    Expresses (levelOf (binding (.number v : Layout Float))) (numberText v)
      fun _ => some (realOf v) := by
  obtain ⟨negative, cs, digits, shift, htext, hdecimal, hsign, habs, hfinite⟩ :=
    exists_decimalText_constantText hv
  have hwrites := writes_numeral hdecimal
  have hvalue : ∀ env, (Tree.number cs).value? env = some |realOf v| := by
    intro env
    rw [Tree.value?, CExpression.numeralValue?_of_decimalText hdecimal hfinite, habs]
  rw [binding_number hv, Expresses, htext]
  cases negative with
  | true =>
    have hneg := hsign.mp rfl
    rw [if_pos hneg]
    refine ⟨_, hwrites.factor.product.minus.1, ?_⟩
    intro env w hw
    rw [Tree.value?, hvalue env, abs_of_neg hneg, Option.map_some, neg_neg]
    exact hw
  | false =>
    have hnonneg : ¬realOf v < 0 := fun h => absurd (hsign.mpr h) (by decide)
    rw [if_neg hnonneg]
    refine ⟨_, hwrites, ?_⟩
    intro env w hw
    rw [hvalue env, abs_of_nonneg (not_lt.mp hnonneg)]
    exact hw

/-! ## Parentheses that are taken away -/

/-- Parentheses are taken away as they were set. -/
theorem withoutParens_parens (s : String) : withoutParens (parens s) = s := by
  have hlist := toList_parens s
  have hlength : (parens s).length = s.length + 13 := by
    rw [← String.length_toList, hlist, List.length_append, List.length_append,
      String.length_toList, leftText, rightText]
    simp only [List.length_cons, List.length_nil]
    omega
  have hstarts : (parens s).startsWith "\\left(" = true :=
    String.startsWith_string_iff.mpr ⟨s.toList ++ rightText, hlist.symm⟩
  have hends : (parens s).endsWith "\\right)" = true := by
    refine endsWith_iff.mpr ⟨leftText ++ s.toList, ?_⟩
    rw [hlist, List.append_assoc]
    rfl
  have hlong : 13 ≤ (parens s).length := by omega
  have hdrop : (leftText ++ (s.toList ++ rightText)).drop 6 = s.toList ++ rightText := rfl
  rw [withoutParens, hstarts, hends, Bool.and_self, Bool.true_and, if_pos (decide_eq_true hlong),
    hlength, hlist, hdrop, Nat.add_sub_cancel, ← String.length_toList, List.take_left,
    String.ofList_toList]

/-- A text that does not end in a parenthesis is left alone. -/
theorem withoutParens_eq_self (h : s.toList.getLast? ≠ some ')') : withoutParens s = s := by
  have hends : s.endsWith "\\right)" = false := by
    rw [← Bool.not_eq_true, endsWith_iff]
    rintro ⟨front, hfront⟩
    refine h ?_
    rw [← hfront]
    exact List.getLast?_append_of_ne_nil front (List.cons_ne_nil _ _)
  rw [withoutParens, hends, Bool.and_false, Bool.false_and, if_neg Bool.false_ne_true]

/-! ## Members -/

/-- The text of a layout beside others. -/
def besideText (l : Layout Float) : String :=
  if binding l < 2 then parens (text numberText l) else text numberText l

theorem texts_eq_map (ls : List (Layout Float)) :
    texts numberText ls = ls.map fun l => (text numberText l, besideText l) := by
  induction ls with
  | nil => rfl
  | cons l ls ih => exact congrArg (List.cons _) ih

/-- The values of the symbols of a layout, from the values of their texts. -/
def named (env : String → Option ℝ) (s : String) : Option ℝ := env (symbolText s)

/-- The text of the layout is a formula of the level that its binding stands for, with the value of
the layout. -/
def Faithful (l : Layout Float) : Prop :=
  Expresses (levelOf (binding l)) (text numberText l) fun env => l.value? (named env)

theorem binding_ne_two (h : ¬l.IsQuotient) : binding l ≠ 2 := by
  cases l with
  | number v =>
    rw [binding]
    split <;> decide
  | name | sum | reciprocal | power | repeated | root | exponential => simp [binding]
  | quotient => exact absurd trivial h

theorem Faithful.beside (h : Faithful l) (hquotient : ¬l.IsQuotient) :
    Expresses .factor (besideText l) fun env => l.value? (named env) :=
  h.factor (binding_ne_two hquotient)

/-- Factors beside each other are their product. -/
theorem expresses_beside {ls : List (Layout Float)} (hne : ls ≠ [])
    (h : ∀ l ∈ ls, Faithful l ∧ ¬l.IsQuotient) :
    Expresses .product (" ".intercalate (ls.map besideText)) fun env =>
      (Layout.values? (named env) ls).map List.prod := by
  have hmul : ∀ {cs ds x y}, Writes .factor cs x → Writes .product ds y →
      ∃ z, Writes .product (cs ++ (" ".toList ++ ds)) z ∧ ∀ env a b, x.value? env = some a →
        y.value? env = some b → z.value? env = some (a * b) := fun hx hy =>
    ⟨_, hx.juxtaposed hy, fun env a b ha hb => value?_binary_iff.mpr ⟨a, b, ha, hb, rfl⟩⟩
  obtain ⟨x, hx, hvalue⟩ := exists_intercalate (V := Writes .factor) (W := Writes .product)
    (fun hx => hx.product) hmul hne fun l hl => (h l hl).1.beside (h l hl).2
  refine ⟨x, hx, ?_⟩
  intro env v hv
  obtain ⟨vs, hvs, rfl⟩ := Option.map_eq_some_iff.mp hv
  exact hvalue env vs (Layout.values?_eq_some_iff.mp hvs)

/-! ## Fractions -/

/-- What stands above a fraction bar: a one where nothing does, and a single factor without the
parentheses that it has beside others. -/
def topText (ls : List (Layout Float)) : String :=
  match texts numberText ls with
  | [] => "1"
  | [f] => f.1
  | fs => " ".intercalate (fs.map (·.2))

/-- What stands below a fraction bar. -/
def bottomText (ls : List (Layout Float)) : String :=
  match texts numberText ls with
  | [f] => withoutParens f.2
  | fs => " ".intercalate (fs.map (·.2))

theorem map_snd_texts (ls : List (Layout Float)) :
    (texts numberText ls).map (·.2) = ls.map besideText := by
  rw [texts_eq_map, List.map_map]
  rfl

/-- No text that needs no parentheses ends in one, except for a product. -/
theorem getLast?_text_ne (hprintable : l.Printable IsName) (hlegible : l.Legible)
    (hquotient : ¬l.IsQuotient) (hbinding : 2 ≤ binding l) :
    (text numberText l).toList.getLast? ≠ some ')' := by
  have hbraced : ∀ (front s : String), (front ++ braced s).toList.getLast? ≠ some ')' := by
    intro front s
    rw [String.toList_append, toList_braced, bracedText, ← List.cons_append, ← List.append_assoc,
      List.getLast?_concat]
    decide
  cases l with
  | number v =>
    obtain ⟨negative, cs, digits, shift, htext, hdecimal, -⟩ :=
      exists_decimalText_constantText hprintable
    obtain ⟨c, rest, hcs, -⟩ := hdecimal.isPositional.head
    intro hlast
    change (numberText v).toList.getLast? = some ')' at hlast
    rw [htext, List.getLast?_append_of_ne_nil _ (by rw [hcs]; exact List.cons_ne_nil c rest)]
      at hlast
    have hmem := hdecimal.isPositional.isDigit_or_point _ (List.mem_of_getLast? hlast)
    exact absurd hmem (by decide)
  | name s =>
    intro hlast
    rcases getLast?_symbolText hprintable _ hlast with heq | ⟨hword, -⟩
    · exact absurd heq (by decide)
    · exact absurd hword (by decide)
  | sum => exact absurd hbinding (by simp [binding])
  | quotient => exact absurd trivial hquotient
  | reciprocal l => exact hbraced ("\\frac" ++ braced "1") _
  | power b e =>
    have htext : text numberText (.power b e) = (if binding b < 4 then parens (text numberText b)
        else text numberText b) ++ "^" ++ braced (text numberText e) := rfl
    rw [htext]
    exact hbraced _ _
  | repeated => exact absurd hlegible id
  | root b => exact hbraced "\\sqrt" _
  | exponential x => exact hbraced "e^" _

/-- A single text below a fraction bar loses the parentheses that it has beside others, and nothing
else. -/
theorem withoutParens_besideText (hprintable : l.Printable IsName) (hlegible : l.Legible)
    (hquotient : ¬l.IsQuotient) : withoutParens (besideText l) = text numberText l := by
  rw [besideText]
  split
  · exact withoutParens_parens _
  · exact withoutParens_eq_self (getLast?_text_ne hprintable hlegible hquotient (by omega))

/-- The value of a single factor. -/
theorem prod_values?_singleton (env : String → Option ℝ) (l : Layout Float) :
    (Layout.values? env [l]).map List.prod = l.value? env := by
  have hvalues : Layout.values? env [l] = (l.value? env).map ([·]) := by
    rw [Layout.values?, Layout.values?]
    exact Option.map_eq_bind.symm
  rw [hvalues, Option.map_map]
  exact (congrArg (Option.map · _) (funext fun v => List.prod_singleton)).trans Option.map_id'

/-- The numeral one. -/
theorem expresses_one : Expresses .atom "1" fun _ => some 1 := by
  have hdecimal : DecimalText ['1'] 1 0 := decimalText_decimalDigits 1
  have hone : ((1 : ℕ) : ℝ) * 10 ^ (0 : ℤ) = 1 := by norm_num
  obtain ⟨hfinite, hreal⟩ := CExpression.nearestDecimal_eq_one hone
  refine ⟨.number ['1'], writes_numeral hdecimal, ?_⟩
  intro env v hv
  rw [Tree.value?, CExpression.numeralValue?_of_decimalText hdecimal hfinite, hreal]
  exact hv

/-- What stands above a fraction bar is the product of the factors there. -/
theorem expresses_topText {ls : List (Layout Float)} (h : ∀ l ∈ ls, Faithful l ∧ ¬l.IsQuotient) :
    Expresses .sum (topText ls) fun env =>
      (Layout.values? (named env) ls).map List.prod := by
  match ls with
  | [] => exact expresses_one.sum
  | [l] =>
    simp only [prod_values?_singleton]
    exact (h l (List.mem_singleton_self l)).1.sum
  | l :: m :: ls =>
    have htext : topText (l :: m :: ls) = " ".intercalate ((l :: m :: ls).map besideText) := by
      rw [← map_snd_texts]
      rfl
    rw [htext]
    exact (expresses_beside (List.cons_ne_nil l _) h).sum

/-- What stands below a fraction bar is the product of the factors there. -/
theorem expresses_bottomText {ls : List (Layout Float)} (hne : ls ≠ [])
    (hprintable : ∀ l ∈ ls, l.Printable IsName) (hlegible : ∀ l ∈ ls, l.Legible)
    (h : ∀ l ∈ ls, Faithful l ∧ ¬l.IsQuotient) :
    Expresses .sum (bottomText ls) fun env =>
      (Layout.values? (named env) ls).map List.prod := by
  match ls with
  | [] => exact absurd rfl hne
  | [l] =>
    have hmem := List.mem_singleton_self l
    have htext : bottomText [l] = text numberText l :=
      withoutParens_besideText (hprintable l hmem) (hlegible l hmem) (h l hmem).2
    simp only [prod_values?_singleton, htext]
    exact (h l hmem).1.sum
  | l :: m :: ls =>
    have htext : bottomText (l :: m :: ls) = " ".intercalate ((l :: m :: ls).map besideText) := by
      rw [← map_snd_texts]
      rfl
    rw [htext]
    exact (expresses_beside hne h).sum

/-- A fraction is the quotient of what stands above its bar and what stands below it. -/
theorem exists_writes_fraction {above below : String}
    {above? below? : (String → Option ℝ) → Option ℝ} (habove : Expresses .sum above above?)
    (hbelow : Expresses .sum below below?) :
    ∃ x, Writes .atom (fraction above below).toList x ∧ ∀ env v w, above? env = some v →
      below? env = some w → w ≠ 0 → x.value? env = some (v / w) := by
  obtain ⟨x, hx, hvalue⟩ := habove
  obtain ⟨y, hy, hvalue'⟩ := hbelow
  refine ⟨.binary .div x y, ?_, ?_⟩
  · rw [fraction, String.toList_append, String.toList_append, toList_braced, toList_braced,
      List.append_assoc]
    exact hx.fraction hy
  · intro env v w hv hw hne
    exact value?_binary_iff.mpr
      ⟨v, w, hvalue env v hv, hvalue' env w hw, CExpression.result?_div_iff.mpr ⟨hne, rfl⟩⟩

/-- The text of a product over a product behind its sign. -/
def bodyText (above : List (Layout Float)) : List (Layout Float) → String
  | [] => " ".intercalate (above.map besideText)
  | l :: ls => fraction (topText above) (bottomText (l :: ls))

theorem text_quotient (negative : Bool) (above below : List (Layout Float)) :
    text numberText (.quotient negative above below) =
      if negative then "- " ++ bodyText above below else bodyText above below := by
  have hbody : joinQuotient false (texts numberText above) (texts numberText below) =
      bodyText above below := by
    cases below with
    | nil =>
      rw [bodyText, ← map_snd_texts]
      rfl
    | cons l ls => rfl
  rw [← hbody]
  rfl

/-- A product over a product has the value of their quotient. -/
theorem exists_writes_bodyText {above below : List (Layout Float)} (hne : above ≠ [] ∨ below ≠ [])
    (habove : ∀ l ∈ above, Faithful l ∧ ¬l.IsQuotient)
    (hprintable : ∀ l ∈ below, l.Printable IsName) (hlegible : ∀ l ∈ below, l.Legible)
    (hbelow : ∀ l ∈ below, Faithful l ∧ ¬l.IsQuotient) :
    ∃ x, Writes .product (bodyText above below).toList x ∧
      ∀ env vs ws, Layout.values? (named env) above = some vs →
        Layout.values? (named env) below = some ws → ws.prod ≠ 0 →
          x.value? env = some (vs.prod / ws.prod) := by
  cases below with
  | nil =>
    obtain ⟨x, hx, hvalue⟩ := expresses_beside (hne.resolve_right (not_not_intro rfl)) habove
    refine ⟨x, hx, ?_⟩
    intro env vs ws hvs hws _
    obtain rfl := Option.some.inj hws
    rw [List.prod_nil, div_one]
    exact hvalue env _ (congrArg (Option.map List.prod) hvs)
  | cons l ls =>
    obtain ⟨x, hx, hvalue⟩ := exists_writes_fraction (expresses_topText habove)
      (expresses_bottomText (List.cons_ne_nil l ls) hprintable hlegible hbelow)
    refine ⟨x, hx.factor.product, ?_⟩
    intro env vs ws hvs hws hzero
    exact hvalue env _ _ (congrArg (Option.map List.prod) hvs)
      (congrArg (Option.map List.prod) hws) hzero

/-! ## Sums -/

/-- The text of a term behind others, with its sign. -/
def followingText (p : Bool × Layout Float) : String :=
  if p.1 then " - " ++ besideText p.2 else " + " ++ text numberText p.2

/-- What is known of a term behind its sign: only what is subtracted may be as loose as a sum. -/
def IsTerm (p : Bool × Layout Float) : Prop :=
  Faithful p.2 ∧ (p.1 = false → 2 ≤ binding p.2)

/-- Terms that are not subtracted need no parentheses. -/
theorem besideText_of_isTerm {p : Bool × Layout Float} (hp : IsTerm p) (hplus : p.1 = false) :
    besideText p.2 = text numberText p.2 := by
  have htwo := hp.2 hplus
  rw [besideText, if_neg (by omega)]

theorem toList_followingText {p : Bool × Layout Float} (hp : IsTerm p) :
    (followingText p).toList =
      ' ' :: (if p.1 then '-' else '+') :: ' ' :: (besideText p.2).toList := by
  rw [followingText]
  cases hsign : p.1 with
  | true =>
    rw [if_pos rfl, if_pos rfl, String.toList_append]
    rfl
  | false =>
    rw [if_neg Bool.false_ne_true, if_neg Bool.false_ne_true, String.toList_append,
      besideText_of_isTerm hp hsign]
    rfl

/-- The first term, and the others behind it. -/
theorem joinTerms_cons (p : Bool × Layout Float) (ps : List (Bool × Layout Float)) :
    joinTerms ((p :: ps).map fun p => (p.1, text numberText p.2, besideText p.2)) =
      (if p.1 then "- " ++ besideText p.2 else text numberText p.2) ++
        String.join (ps.map followingText) := by
  rw [List.map_cons, joinTerms, List.map_map]
  rfl

/-- The value of the layout behind a sign. -/
noncomputable def termValue? (p : Bool × Layout Float) (env : String → Option ℝ) : Option ℝ :=
  p.2.value? (named env)

/-- Terms behind a sum are added to it. -/
theorem exists_writes_following {ps : List (Bool × Layout Float)} (h : ∀ p ∈ ps, IsTerm p)
    {cs : List Char} {x : Tree} (hx : Writes .sum cs x) :
    ∃ z, Writes .sum (cs ++ (String.join (ps.map followingText)).toList) z ∧
      ∀ env a vs, x.value? env = some a → HaveValues termValue? env ps vs →
        z.value? env = some (a + signedTotal Prod.fst ps vs) := by
  refine exists_append_join (W := Writes .sum) (fun p hp cs x hx => ?_) hx
  obtain ⟨y, hy, hvalue⟩ := (h p hp).1.product
  refine ⟨.binary (signOperator p.1) x y, ?_, ?_⟩
  · rw [toList_followingText (h p hp)]
    exact hx.signed p.1 hy
  · intro env a v ha hv
    refine value?_binary_iff.mpr ⟨a, v, ha, hvalue env v hv, ?_⟩
    cases p.1 with
    | true => exact congrArg some (sub_eq_add_neg a v)
    | false => rfl

/-- The text of a sum, from its terms behind their signs. -/
theorem exists_writes_joinTerms {ps : List (Bool × Layout Float)} (hne : ps ≠ [])
    (h : ∀ p ∈ ps, IsTerm p) :
    ∃ z, Writes .sum
        (joinTerms (ps.map fun p => (p.1, text numberText p.2, besideText p.2))).toList z ∧
      ∀ env vs, HaveValues termValue? env ps vs →
        z.value? env = some (signedTotal Prod.fst ps vs) := by
  obtain ⟨p, ps, rfl⟩ := List.exists_cons_of_ne_nil hne
  obtain ⟨hp, hps⟩ := List.forall_mem_cons.mp h
  obtain ⟨x, hx, hvalue⟩ := hp.1.product
  have hfirst : ∃ y, Writes .sum
      (if p.1 then "- " ++ besideText p.2 else text numberText p.2).toList y ∧
      ∀ env v, p.2.value? (named env) = some v →
        y.value? env = some (Layout.signed p.1 v) := by
    cases hsign : p.1 with
    | true =>
      refine ⟨.neg x, ?_, ?_⟩
      · rw [if_pos rfl, String.toList_append]
        exact hx.minus.2
      · intro env v hv
        rw [Tree.value?, hvalue env v hv]
        rfl
    | false =>
      refine ⟨x, ?_, fun env v hv => hvalue env v hv⟩
      rw [if_neg Bool.false_ne_true, ← besideText_of_isTerm hp hsign]
      exact hx.sum
  obtain ⟨y, hy, hfirstValue⟩ := hfirst
  obtain ⟨z, hz, htotal⟩ := exists_writes_following hps hy
  refine ⟨z, ?_, ?_⟩
  · rw [joinTerms_cons, String.toList_append]
    exact hz
  · intro env vs hvs
    obtain ⟨v, ws, hv, hws, rfl⟩ := List.forall₂_cons_left_iff.mp hvs
    rw [htotal env _ ws (hfirstValue env v hv) hws]
    rfl

/-! ## Layouts -/

/-- The terms of a sum are pairs of a sign and a layout. -/
theorem exists_signed_terms {signs : List Bool} {ts : List (Layout Float)}
    (hlength : signs.length = ts.length) :
    ∃ ps : List (Bool × Layout Float), ps.map Prod.fst = signs ∧ ps.map Prod.snd = ts :=
  ⟨signs.zip ts, List.map_fst_zip hlength.le, List.map_snd_zip hlength.ge⟩

theorem text_sum (ps : List (Bool × Layout Float)) :
    text numberText (.sum (ps.map Prod.fst) (ps.map Prod.snd)) =
      joinTerms (ps.map fun p => (p.1, text numberText p.2, besideText p.2)) := by
  have htext : text numberText (.sum (ps.map Prod.fst) (ps.map Prod.snd)) =
      joinTerms ((ps.map Prod.fst).zip (texts numberText (ps.map Prod.snd))) := rfl
  rw [htext, texts_eq_map, List.map_map, List.zip_map']
  rfl

theorem text_power (b e : Layout Float) :
    text numberText (.power b e) = (if binding b < 4 then parens (text numberText b)
      else text numberText b) ++ "^" ++ braced (text numberText e) := rfl

theorem text_root (l : Layout Float) :
    text numberText (.root l) = "\\sqrt" ++ braced (text numberText l) := rfl

theorem text_exponential (l : Layout Float) :
    text numberText (.exponential l) = "e^" ++ braced (text numberText l) := rfl

theorem faithful_sum {signs : List Bool} {ts : List (Layout Float)} (hne : ts ≠ [])
    (hlength : signs.length = ts.length) (h : ∀ p ∈ signs.zip ts, IsTerm p) :
    Faithful (.sum signs ts) := by
  obtain ⟨ps, rfl, rfl⟩ := exists_signed_terms hlength
  have hzip : (ps.map Prod.fst).zip (ps.map Prod.snd) = ps := by
    rw [List.zip_map', List.map_id']
  rw [hzip] at h
  obtain ⟨z, hz, hvalue⟩ := exists_writes_joinTerms (mt (congrArg (List.map Prod.snd)) hne) h
  refine ⟨z, ?_, ?_⟩
  · rw [text_sum]
    exact hz
  · intro env v hv
    obtain ⟨vs, hvs, rfl⟩ := Option.map_eq_some_iff.mp hv
    rw [Layout.values?_eq_some_iff, List.forall₂_map_left_iff] at hvs
    rw [hvalue env vs hvs, signedTotal, List.zipWith_map_left]

theorem faithful_quotient (negative : Bool) {above below : List (Layout Float)}
    (hne : above ≠ [] ∨ below ≠ []) (habove : ∀ l ∈ above, Faithful l ∧ ¬l.IsQuotient)
    (hprintable : ∀ l ∈ below, l.Printable IsName) (hlegible : ∀ l ∈ below, l.Legible)
    (hbelow : ∀ l ∈ below, Faithful l ∧ ¬l.IsQuotient) :
    Faithful (.quotient negative above below) := by
  obtain ⟨x, hx, hvalue⟩ := exists_writes_bodyText hne habove hprintable hlegible hbelow
  have hquotient : ∀ env v,
      (Layout.quotient negative above below).value? (named env) = some v →
        ∃ w, x.value? env = some w ∧ Layout.signed negative w = v := by
    intro env v hv
    obtain ⟨vs, hvs, hv⟩ := Option.bind_eq_some_iff.mp hv
    obtain ⟨ws, hws, hv⟩ := Option.bind_eq_some_iff.mp hv
    split at hv
    · exact absurd hv (by simp)
    · rename_i hzero
      exact ⟨_, hvalue env vs ws hvs hws hzero, Option.some.inj hv⟩
  rw [Faithful, text_quotient]
  cases negative with
  | true =>
    refine ⟨.neg x, ?_, ?_⟩
    · rw [if_pos rfl, String.toList_append]
      exact hx.minus.2
    · intro env v hv
      obtain ⟨w, hw, rfl⟩ := hquotient env v hv
      rw [Tree.value?, hw]
      rfl
  | false =>
    refine ⟨x, hx, ?_⟩
    intro env v hv
    obtain ⟨w, hw, rfl⟩ := hquotient env v hv
    exact hw

theorem faithful_reciprocal (hl : Faithful l) : Faithful (.reciprocal l) := by
  obtain ⟨x, hx, hvalue⟩ := exists_writes_fraction expresses_one.sum hl.sum
  refine ⟨x, hx, ?_⟩
  intro env v hv
  obtain ⟨w, hw, hv⟩ := Option.bind_eq_some_iff.mp hv
  split at hv
  · exact absurd hv (by simp)
  · rename_i hne
    rw [← Option.some.inj hv, ← one_div]
    exact hvalue env 1 w rfl hw hne

theorem faithful_power (hb : Faithful b) (he : Faithful e) : Faithful (.power b e) := by
  obtain ⟨x, hx, hvalue⟩ := hb.atom
  obtain ⟨y, hy, hvalue'⟩ := he.sum
  refine ⟨.pow x y, ?_, ?_⟩
  · rw [text_power, String.toList_append, String.toList_append, toList_braced, List.append_assoc]
    exact hx.power hy
  · intro env v hv
    obtain ⟨a, ha, hv⟩ := Option.bind_eq_some_iff.mp hv
    obtain ⟨c, hc, hv⟩ := Option.bind_eq_some_iff.mp hv
    rw [Tree.value?, hvalue env a ha, hvalue' env c hc]
    exact hv

theorem faithful_root (hl : Faithful l) : Faithful (.root l) := by
  obtain ⟨x, hx, hvalue⟩ := hl.sum
  refine ⟨.call .sqrt x, ?_, ?_⟩
  · rw [text_root, String.toList_append, toList_braced]
    exact hx.root
  · intro env v hv
    obtain ⟨a, ha, hv⟩ := Option.bind_eq_some_iff.mp hv
    rw [Tree.value?, hvalue env a ha]
    exact hv

theorem faithful_exponential (hl : Faithful l) : Faithful (.exponential l) := by
  obtain ⟨x, hx, hvalue⟩ := hl.sum
  refine ⟨.call .exp x, ?_, ?_⟩
  · rw [text_exponential, String.toList_append, toList_braced]
    exact hx.exponential
  · intro env v hv
    obtain ⟨a, ha, rfl⟩ := Option.map_eq_some_iff.mp hv
    rw [Tree.value?, hvalue env a ha]
    rfl

/-- **Layouts in LaTeX.**  The text of a legible layout is a formula of the level that its binding
stands for, with the value of the layout. -/
theorem faithful_of_legible (hprintable : l.Printable IsName) (hlegible : l.Legible) :
    Faithful l := by
  induction l with
  | number v => exact expresses_number hprintable
  | name s => exact ⟨_, writes_symbol hprintable, fun env v hv => hv⟩
  | sum signs ts ih =>
    obtain ⟨hne, hlength, hall⟩ := hprintable
    obtain ⟨hterms, hall'⟩ := hlegible
    rw [Layout.allPrintable_iff] at hall
    rw [Layout.allLegible_iff] at hall'
    refine faithful_sum hne hlength fun p hp => ⟨?_, hterms p hp⟩
    have hmem := (List.of_mem_zip hp).2
    exact ih p.2 hmem (hall p.2 hmem) (hall' p.2 hmem)
  | quotient negative above below ihabove ihbelow =>
    obtain ⟨hall, hall'⟩ := hprintable
    obtain ⟨hne, hplain, hlegible, hlegible'⟩ := hlegible
    rw [Layout.allPrintable_iff] at hall hall'
    rw [Layout.allLegible_iff] at hlegible hlegible'
    rw [List.forall_mem_append] at hplain
    exact faithful_quotient negative hne
      (fun l hl => ⟨ihabove l hl (hall l hl) (hlegible l hl), hplain.1 l hl⟩) hall' hlegible'
      fun l hl => ⟨ihbelow l hl (hall' l hl) (hlegible' l hl), hplain.2 l hl⟩
  | reciprocal l ih => exact faithful_reciprocal (ih hprintable hlegible)
  | power b e ihb ihe =>
    exact faithful_power (ihb hprintable.1 hlegible.1) (ihe hprintable.2 hlegible.2)
  | repeated b n => exact absurd hlegible id
  | root l ih => exact faithful_root (ih hprintable hlegible)
  | exponential l ih => exact faithful_exponential (ih hprintable hlegible)

end LaTeX

end SphereLab
