import Mathlib
import SphereLab.Proofs.CExpression.Grammar

/-!
# Writing expressions of C

Texts that are put together from texts of expressions are texts of expressions: no two tokens run
together, and the whole is derived at the level at which it is used.

* `Lexes`: the tokens of a text, whatever follows it.
* `Writes`: a text with its tokens and a derivation at a level.
* `Writes.add`, `Writes.mul`: joining sums and products, on whose right there may be sums and
  products again.
* `Writes.minus`: a minus in front of a product belongs to its first factor.
-/

namespace SphereLab

namespace CExpression

/-! ## Tokens of texts -/

/-- The characters do not continue a word. -/
def EndsWord (cs : List Char) : Prop := ∀ c ∈ cs.head?, isWordChar c = false

/-- The tokens of a text, whatever follows it. -/
def Lexes (cs : List Char) (ts : List Token) : Prop :=
  ∀ rest, EndsWord rest → tokensFrom [] (cs ++ rest) = (tokensFrom [] rest).map (ts ++ ·)

/-- The text begins with a word or a parenthesis, so no operator in front runs together with it. -/
def StartsOperand (cs : List Char) : Prop :=
  ∃ c rest, cs = c :: rest ∧ (isWordChar c = true ∨ c = '(')

theorem endsWord_cons {c : Char} (hc : isWordChar c = false) (cs : List Char) :
    EndsWord (c :: cs) := by
  intro d hd
  obtain rfl := Option.some.inj hd
  exact hc

theorem StartsOperand.append {xs : List Char} (h : StartsOperand xs) (ys : List Char) :
    StartsOperand (xs ++ ys) := by
  obtain ⟨c, rest, rfl, hc⟩ := h
  exact ⟨c, rest ++ ys, rfl, hc⟩

theorem tokensFrom_word (word w : List Char) (hw : ∀ c ∈ w, isWordChar c = true)
    (rest : List Char) : tokensFrom word (w ++ rest) = tokensFrom (word ++ w) rest := by
  induction w generalizing word with
  | nil => rw [List.nil_append, List.append_nil]
  | cons c w ih =>
    obtain ⟨hc, hw⟩ := List.forall_mem_cons.mp hw
    rw [List.cons_append, tokensFrom, if_pos hc, ih (word ++ [c]) hw, List.append_assoc,
      List.singleton_append]

theorem tokensFrom_endsWord (word : List Char) {rest : List Char} (h : EndsWord rest) :
    tokensFrom word rest = closeWord word (tokensFrom [] rest) := by
  have hempty : ∀ ts, closeWord [] ts = ts := fun _ => rfl
  cases rest with
  | nil => rw [tokensFrom, tokensFrom, hempty]
  | cons c cs =>
    have hc : ¬isWordChar c = true := by
      rw [h c rfl]
      exact Bool.false_ne_true
    rw [tokensFrom, tokensFrom, if_neg hc, if_neg hc, hempty]

/-- A word is one token. -/
theorem lexes_word {w : List Char} (hne : w ≠ []) (hw : ∀ c ∈ w, isWordChar c = true) {t : Token}
    (ht : wordToken? w = some t) : Lexes w [t] := by
  intro rest hrest
  have hempty : w.isEmpty = false := by simpa using hne
  rw [tokensFrom_word [] w hw, List.nil_append, tokensFrom_endsWord w hrest, closeWord, hempty, ht]
  rfl

/-- A single character is one token, if it does not run together with what follows. -/
theorem tokensFrom_punctuation {c : Char} {t : Token} (hc : punctuation? c = some t)
    (hword : isWordChar c = false) (hblank : (c == ' ') = false) {rest : List Char}
    (hrest : ∀ d ∈ rest.head?, fuses c d = false) :
    tokensFrom [] (c :: rest) = (tokensFrom [] rest).map (t :: ·) := by
  have hfuse : ¬rest.head?.any (fuses c) = true := by
    cases rest with
    | nil => exact Bool.false_ne_true
    | cons d rest =>
      rw [List.head?_cons, Option.any_some, hrest d rfl]
      exact Bool.false_ne_true
  rw [tokensFrom, hword, hblank, hc]
  simp [hfuse, closeWord]

theorem tokensFrom_blank (rest : List Char) :
    tokensFrom [] (' ' :: rest) = tokensFrom [] rest := rfl

/-- No operator runs together with what begins an operand. -/
theorem fuses_eq_false (c : Char) {cs : List Char} (h : StartsOperand cs) :
    ∀ d ∈ cs.head?, fuses c d = false := by
  obtain ⟨d, rest, rfl, hd⟩ := h
  intro e he
  obtain rfl := Option.some.inj he
  have hne : ∀ e, isWordChar e = false → e ≠ '(' → d ≠ e := by
    rintro e hword hparen rfl
    rcases hd with hd | hd
    · rw [hword] at hd
      exact Bool.false_ne_true hd
    · exact hparen hd
  have hplus := hne '+' (by decide) (by decide)
  have hminus := hne '-' (by decide) (by decide)
  have hstar := hne '*' (by decide) (by decide)
  have hslash := hne '/' (by decide) (by decide)
  have hequal := hne '=' (by decide) (by decide)
  have hgreater := hne '>' (by decide) (by decide)
  unfold fuses
  split <;> simp [*]

/-! ### Putting texts together -/

section Lexes

variable {xs ys : List Char} {ts us : List Token}

theorem lexes_parens (h : Lexes xs ts) :
    Lexes ('(' :: (xs ++ [')'])) (.left :: (ts ++ [.right])) := by
  intro rest hrest
  rw [List.cons_append, List.append_assoc, List.singleton_append,
    tokensFrom_punctuation rfl (by decide) (by decide) fun d _ => by unfold fuses; rfl,
    h _ (endsWord_cons (by decide) rest),
    tokensFrom_punctuation rfl (by decide) (by decide) fun d _ => by unfold fuses; rfl,
    Option.map_map, Option.map_map]
  congr 1
  funext us
  simp

/-- A call of a function. -/
theorem lexes_call {name : String} (hempty : name.toList.isEmpty = false)
    (hname : name.toList.all isWordChar = true)
    (htoken : wordToken? name.toList = some (.name name)) {tail : List Char}
    (h : Lexes ('(' :: tail) ts) : Lexes (name.toList ++ '(' :: tail) (.name name :: ts) := by
  intro rest hrest
  have hne : name.toList ≠ [] := by
    rw [← List.isEmpty_eq_false_iff]
    exact hempty
  rw [List.append_assoc, List.cons_append,
    lexes_word hne (List.all_eq_true.mp hname) htoken _ (endsWord_cons (by decide) _),
    ← List.cons_append, h rest hrest, Option.map_map]
  rfl

/-- An operator between two operands. -/
theorem lexes_operator {c : Char} {t : Token} (hc : punctuation? c = some t)
    (hword : isWordChar c = false) (hblank : (c == ' ') = false) (hx : Lexes xs ts)
    (hy : Lexes ys us) (hstarts : StartsOperand ys) : Lexes (xs ++ c :: ys) (ts ++ t :: us) := by
  intro rest hrest
  rw [List.append_assoc, List.cons_append, hx _ (endsWord_cons hword _),
    tokensFrom_punctuation hc hword hblank (fuses_eq_false c (hstarts.append rest)), hy rest hrest,
    Option.map_map, Option.map_map]
  congr 1
  funext vs
  simp

/-- An operator with blanks around it. -/
theorem lexes_spaced {c : Char} {t : Token} (hc : punctuation? c = some t)
    (hword : isWordChar c = false) (hblank : (c == ' ') = false) (hfuse : fuses c ' ' = false)
    (hx : Lexes xs ts) (hy : Lexes ys us) :
    Lexes (xs ++ ' ' :: c :: ' ' :: ys) (ts ++ t :: us) := by
  intro rest hrest
  have hhead : ∀ d ∈ (' ' :: (ys ++ rest)).head?, fuses c d = false := by
    rintro _ ⟨⟩
    exact hfuse
  rw [List.append_assoc, List.cons_append, List.cons_append, List.cons_append,
    hx _ (endsWord_cons (by decide) _), tokensFrom_blank,
    tokensFrom_punctuation hc hword hblank hhead, tokensFrom_blank, hy rest hrest,
    Option.map_map, Option.map_map]
  congr 1
  funext vs
  simp

theorem lexes_minus (h : Lexes xs ts) (hstarts : StartsOperand xs) :
    Lexes ('-' :: xs) (.minus :: ts) := by
  intro rest hrest
  rw [List.cons_append, tokensFrom_punctuation rfl (by decide) (by decide)
    (fuses_eq_false '-' (hstarts.append rest)), h rest hrest, Option.map_map]
  rfl

/-- Two arguments between parentheses. -/
theorem lexes_arguments (hx : Lexes xs ts) (hy : Lexes ys us) :
    Lexes ('(' :: (xs ++ ',' :: ' ' :: (ys ++ [')'])))
      (.left :: (ts ++ .comma :: (us ++ [.right]))) := by
  intro rest hrest
  have hlist : '(' :: (xs ++ ',' :: ' ' :: (ys ++ [')'])) ++ rest =
      '(' :: (xs ++ ',' :: ' ' :: (ys ++ ')' :: rest)) := by simp
  rw [hlist, tokensFrom_punctuation rfl (by decide) (by decide) fun d _ => by unfold fuses; rfl,
    hx _ (endsWord_cons (by decide) _),
    tokensFrom_punctuation rfl (by decide) (by decide) fun d _ => by unfold fuses; rfl,
    tokensFrom_blank, hy _ (endsWord_cons (by decide) rest),
    tokensFrom_punctuation rfl (by decide) (by decide) fun d _ => by unfold fuses; rfl,
    Option.map_map, Option.map_map, Option.map_map, Option.map_map]
  congr 1
  funext vs
  simp

end Lexes

/-! ## Derivations of joined tokens -/

section Derives

variable {ts us : List Token} {x y : Tree}

/-- The value of an operator whose left operand is added to, or multiplied. -/
theorem result?_assoc {first op : Operator} (hfirst : first = .add ∨ first = .mul)
    (hlevel : op.level = first.level) {a b c v w : ℝ} (hinner : op.result? b c = some v)
    (houter : first.result? a v = some w) :
    ∃ u, first.result? a b = some u ∧ op.result? u c = some w := by
  rcases hfirst with rfl | rfl
  · cases op with
    | add =>
      simp only [Operator.result?, Option.some.injEq] at hinner houter ⊢
      exact ⟨a + b, rfl, by rw [← houter, ← hinner, add_assoc]⟩
    | sub =>
      simp only [Operator.result?, Option.some.injEq] at hinner houter ⊢
      exact ⟨a + b, rfl, by rw [← houter, ← hinner, add_sub_assoc]⟩
    | mul | div => exact absurd hlevel (by decide)
  · cases op with
    | add | sub => exact absurd hlevel (by decide)
    | mul =>
      simp only [Operator.result?, Option.some.injEq] at hinner houter ⊢
      exact ⟨a * b, rfl, by rw [← houter, ← hinner, mul_assoc]⟩
    | div =>
      obtain ⟨hne, hquotient⟩ := result?_div_iff.mp hinner
      simp only [Operator.result?, Option.some.injEq] at houter
      refine ⟨a * b, rfl, result?_div_iff.mpr ⟨hne, ?_⟩⟩
      rw [← houter, ← hquotient, mul_div_assoc]

/-- A sum behind a plus, or a product behind a star, is joined to what stands before it: the trees
differ by how they associate, and the values do not. -/
theorem Derives.exists_binary {first : Operator} (hfirst : first = .add ∨ first = .mul)
    (hx : Derives first.level ts x) {level : Level} (hlevel : level = first.level)
    (hy : Derives level us y) :
    ∃ z, Derives first.level (ts ++ first.token :: us) z ∧ ∀ env a b v, x.value? env = some a →
      y.value? env = some b → first.result? a b = some v → z.value? env = some v := by
  induction hy with
  | @binary us₁ us₂ y₁ y₂ op hy₁ hy₂ ih₁ _ =>
    obtain ⟨z, hz, hvalue⟩ := ih₁ hlevel
    have hderives : Derives first.level ((ts ++ first.token :: us₁) ++ op.token :: us₂)
        (.binary op z y₂) := by
      rw [← hlevel] at hz ⊢
      exact .binary op hz hy₂
    rw [List.append_assoc, List.cons_append] at hderives
    refine ⟨_, hderives, ?_⟩
    intro env a b v ha hb hv
    obtain ⟨b₁, b₂, hb₁, hb₂, hop⟩ := value?_binary_iff.mp hb
    obtain ⟨u, hu, hv'⟩ := result?_assoc hfirst hlevel hop hv
    exact value?_binary_iff.mpr ⟨u, b₂, hvalue env a b₁ u ha hb₁ hu, hb₂, hv'⟩
  | @operand level us y hy _ =>
    subst hlevel
    exact ⟨_, .binary first hx hy, fun env a b v ha hb hv =>
      value?_binary_iff.mpr ⟨a, b, ha, hb, hv⟩⟩
  | number | name | parens | call | pow | neg =>
    rcases hfirst with rfl | rfl <;> exact absurd hlevel (by decide)

/-- A minus in front of a product belongs to its first factor, and changes its sign. -/
theorem Derives.exists_neg {level : Level} (hlevel : level = .multiplicative)
    (h : Derives level ts x) :
    ∃ z, Derives .multiplicative (.minus :: ts) z ∧
      ∀ env a, x.value? env = some a → z.value? env = some (-a) := by
  induction h with
  | @binary ts us x y op hx hy ih _ =>
    obtain ⟨z, hz, hvalue⟩ := ih hlevel
    have hderives : Derives op.level ((.minus :: ts) ++ op.token :: us) (.binary op z y) := by
      rw [← hlevel] at hz
      exact .binary op hz hy
    rw [hlevel, List.cons_append] at hderives
    refine ⟨_, hderives, ?_⟩
    intro env v hv
    obtain ⟨a, b, ha, hb, hop⟩ := value?_binary_iff.mp hv
    refine value?_binary_iff.mpr ⟨-a, b, hvalue env a ha, hb, ?_⟩
    cases op with
    | add | sub => exact absurd hlevel (by decide)
    | mul =>
      simp only [Operator.result?, Option.some.injEq] at hop ⊢
      rw [← hop, neg_mul]
    | div =>
      obtain ⟨hne, hquotient⟩ := result?_div_iff.mp hop
      exact result?_div_iff.mpr ⟨hne, by rw [← hquotient, neg_div]⟩
  | @operand level ts x h _ =>
    subst hlevel
    refine ⟨_, .operand (.neg h), ?_⟩
    intro env a ha
    rw [Tree.value?, ha]
    rfl
  | number | name | parens | call | pow | neg => exact absurd hlevel (by decide)

end Derives

/-! ## Texts of expressions -/

/-- The text is derived at the level with a tree, and begins with an operand unless it may begin
with a minus. -/
structure Writes (level : Level) (cs : List Char) (x : Tree) : Prop where
  derives : ∃ ts, Lexes cs ts ∧ Derives level ts x
  starts : level ≠ .additive → StartsOperand cs

namespace Writes

variable {level : Level} {xs ys : List Char} {x y : Tree}

theorem derivable {s : String} (h : Writes .additive s.toList x) : Derivable s x := by
  obtain ⟨ts, hlexes, hderives⟩ := h.derives
  refine ⟨ts, ?_, hderives⟩
  have h := hlexes [] fun c hc => absurd hc (by simp)
  rw [List.append_nil] at h
  rw [tokens?, h]
  simp [tokensFrom, closeWord]

/-- What is written at a level may stand at a looser one. -/
theorem of_operand (h : Writes level.operand xs x) : Writes level xs x := by
  obtain ⟨ts, hlexes, hderives⟩ := h.derives
  refine ⟨⟨ts, hlexes, .operand hderives⟩, fun _ => h.starts ?_⟩
  cases level <;> decide

theorem unary (h : Writes .primary xs x) : Writes .unary xs x := of_operand h

theorem multiplicative (h : Writes .primary xs x) : Writes .multiplicative xs x :=
  of_operand h.unary

theorem additive (h : Writes level xs x) : Writes .additive xs x := by
  cases level with
  | additive => exact h
  | multiplicative => exact of_operand h
  | unary => exact of_operand (of_operand h)
  | primary => exact of_operand h.multiplicative

theorem parens (h : Writes .additive xs x) : Writes .primary ('(' :: (xs ++ [')'])) x := by
  obtain ⟨ts, hlexes, hderives⟩ := h.derives
  exact ⟨⟨_, lexes_parens hlexes, .parens hderives⟩, fun _ => ⟨_, _, rfl, Or.inr rfl⟩⟩

/-- A minus in front of a product. -/
theorem minus (h : Writes .multiplicative xs x) :
    ∃ z, Writes .additive ('-' :: xs) z ∧
      ∀ env a, x.value? env = some a → z.value? env = some (-a) := by
  obtain ⟨ts, hlexes, hderives⟩ := h.derives
  obtain ⟨z, hz, hvalue⟩ := hderives.exists_neg rfl
  exact ⟨z, ⟨⟨_, lexes_minus hlexes (h.starts (by decide)), .operand hz⟩,
    fun hne => absurd rfl hne⟩, hvalue⟩

/-- A product of products. -/
theorem mul (hx : Writes .multiplicative xs x) (hy : Writes .multiplicative ys y) :
    ∃ z, Writes .multiplicative (xs ++ '*' :: ys) z ∧
      ∀ env a b, x.value? env = some a → y.value? env = some b → z.value? env = some (a * b) := by
  obtain ⟨ts, hlexes, hderives⟩ := hx.derives
  obtain ⟨us, hlexes', hderives'⟩ := hy.derives
  obtain ⟨z, hz, hvalue⟩ := Derives.exists_binary (Or.inr rfl) hderives rfl hderives'
  exact ⟨z, ⟨⟨_, lexes_operator rfl (by decide) (by decide) hlexes hlexes'
    (hy.starts (by decide)), hz⟩, fun _ => (hx.starts (by decide)).append _⟩,
    fun env a b ha hb => hvalue env a b _ ha hb rfl⟩

/-- A product over a single operand. -/
theorem div (hx : Writes .multiplicative xs x) (hy : Writes .unary ys y) :
    Writes .multiplicative (xs ++ '/' :: ys) (.binary .div x y) := by
  obtain ⟨ts, hlexes, hderives⟩ := hx.derives
  obtain ⟨us, hlexes', hderives'⟩ := hy.derives
  exact ⟨⟨_, lexes_operator rfl (by decide) (by decide) hlexes hlexes' (hy.starts (by decide)),
    .binary .div hderives hderives'⟩, fun _ => (hx.starts (by decide)).append _⟩

/-- A sum of sums. -/
theorem add (hx : Writes .additive xs x) (hy : Writes .additive ys y) :
    ∃ z, Writes .additive (xs ++ ' ' :: '+' :: ' ' :: ys) z ∧
      ∀ env a b, x.value? env = some a → y.value? env = some b → z.value? env = some (a + b) := by
  obtain ⟨ts, hlexes, hderives⟩ := hx.derives
  obtain ⟨us, hlexes', hderives'⟩ := hy.derives
  obtain ⟨z, hz, hvalue⟩ := Derives.exists_binary (Or.inl rfl) hderives rfl hderives'
  exact ⟨z, ⟨⟨_, lexes_spaced rfl (by decide) (by decide) (by decide) hlexes hlexes', hz⟩,
    fun hne => absurd rfl hne⟩, fun env a b ha hb => hvalue env a b _ ha hb rfl⟩

/-- A sum less a product. -/
theorem sub (hx : Writes .additive xs x) (hy : Writes .multiplicative ys y) :
    Writes .additive (xs ++ ' ' :: '-' :: ' ' :: ys) (.binary .sub x y) := by
  obtain ⟨ts, hlexes, hderives⟩ := hx.derives
  obtain ⟨us, hlexes', hderives'⟩ := hy.derives
  exact ⟨⟨_, lexes_spaced rfl (by decide) (by decide) (by decide) hlexes hlexes',
    .binary .sub hderives hderives'⟩, fun hne => absurd rfl hne⟩

/-- A call of a function of one argument. -/
theorem call (f : UnaryFunction) (h : Writes .additive xs x) :
    Writes .primary (f.name.toList ++ '(' :: (xs ++ [')'])) (.call f x) := by
  obtain ⟨ts, hlexes, hderives⟩ := h.derives
  refine ⟨⟨_, lexes_call ?_ ?_ ?_ (lexes_parens hlexes), .call f hderives⟩, ?_⟩
  · cases f <;> rfl
  · cases f <;> rfl
  · cases f <;> rfl
  · intro _
    cases f <;> exact ⟨_, _, rfl, Or.inl (by decide)⟩

/-- A call of the power function. -/
theorem pow (hx : Writes .additive xs x) (hy : Writes .additive ys y) :
    Writes .primary ("pow".toList ++ '(' :: (xs ++ ',' :: ' ' :: (ys ++ [')']))) (.pow x y) := by
  obtain ⟨ts, hlexes, hderives⟩ := hx.derives
  obtain ⟨us, hlexes', hderives'⟩ := hy.derives
  exact ⟨⟨_, lexes_call rfl rfl rfl (lexes_arguments hlexes hlexes'),
    .pow hderives hderives'⟩, fun _ => ⟨_, _, rfl, Or.inl (by decide)⟩⟩

end Writes

end CExpression

end SphereLab
