import Mathlib
import SphereLab.Proofs.CExpression.Grammar

/-!
# Parsing expressions of C

The grammar of expressions is read by recursive descent.  At each of the two levels of operators an
operand is read first, and then operators with their right operands for as long as there are any.
The parser finds the tree of every derivation, so a text has at most one.

* `parse?`: the tree of a text.
* `Derives.reads`: what is derived at a level is read there, whatever follows it.
* `Derivable.parse?_eq`: the parser finds every derivation.
* `Derivable.unique`: a text has at most one tree.
-/

namespace SphereLab

namespace CExpression

/-! ## The parser -/

/-- The operator that a token stands for at a level. -/
def operatorAt? : Level → Token → Option Operator
  | .additive, .plus => some .add
  | .additive, .minus => some .sub
  | .multiplicative, .star => some .mul
  | .multiplicative, .slash => some .div
  | _, _ => none

/-- The function of one argument that is called by a name. -/
def functionNamed? (s : String) : Option UnaryFunction :=
  if s = "exp" then some .exp else if s = "sqrt" then some .sqrt else none

mutual

/-- Read an expression of a level from the front of the tokens. -/
def parseAt? : Nat → Level → List Token → Option (Tree × List Token)
  | 0, _, _ => none
  | fuel + 1, .additive, ts => operandAt? fuel .additive ts
  | fuel + 1, .multiplicative, ts => operandAt? fuel .multiplicative ts
  | fuel + 1, .unary, .minus :: ts =>
    match parseAt? fuel .unary ts with
    | some (x, rest) => some (.neg x, rest)
    | none => none
  | fuel + 1, .unary, ts => parseAt? fuel .primary ts
  | _ + 1, .primary, .number text :: ts => some (.number text, ts)
  | fuel + 1, .primary, .left :: ts => closed? fuel ts
  | fuel + 1, .primary, .name s :: .left :: ts =>
    if s = "pow" then
      match parseAt? fuel .additive ts with
      | some (x, .comma :: rest) =>
        match closed? fuel rest with
        | some (y, rest) => some (.pow x y, rest)
        | none => none
      | _ => none
    else
      match functionNamed? s, closed? fuel ts with
      | some f, some (x, rest) => some (.call f x, rest)
      | _, _ => none
  | _ + 1, .primary, .name s :: ts => if s ∈ functionNames then none else some (.name s, ts)
  | _ + 1, .primary, _ => none

/-- Read an expression and the parenthesis that closes it. -/
def closed? : Nat → List Token → Option (Tree × List Token)
  | 0, _ => none
  | fuel + 1, ts =>
    match parseAt? fuel .additive ts with
    | some (x, .right :: rest) => some (x, rest)
    | _ => none

/-- Read an operand, and the operators that follow it. -/
def operandAt? : Nat → Level → List Token → Option (Tree × List Token)
  | 0, _, _ => none
  | fuel + 1, level, ts =>
    match parseAt? fuel level.operand ts with
    | some (x, rest) => continueAt? fuel level x rest
    | none => none

/-- Read operators of a level with their right operands, behind a left operand. -/
def continueAt? : Nat → Level → Tree → List Token → Option (Tree × List Token)
  | 0, _, _, _ => none
  | _ + 1, _, x, [] => some (x, [])
  | fuel + 1, level, x, t :: ts =>
    match operatorAt? level t with
    | some op =>
      match parseAt? fuel level.operand ts with
      | some (y, rest) => continueAt? fuel level (.binary op x y) rest
      | none => none
    | none => some (x, t :: ts)

end

/-- The tree of a text. -/
def parse? (s : String) : Option Tree :=
  match tokens? s with
  | some ts =>
    match parseAt? (8 * ts.length) .additive ts with
    | some (x, []) => some x
    | _ => none
  | none => none

/-! ## The parser finds every derivation -/

/-- What may follow an expression of a level: no argument list, and no operator that binds more
tightly. -/
def Ends (level : Level) (rest : List Token) : Prop :=
  ∀ t ∈ rest.head?, t ≠ .left ∧ operatorAt? level.operand t = none

/-- The steps that a level may save, out of eight for each token. -/
def Level.slack : Level → Nat
  | .additive => 2
  | .multiplicative => 4
  | .unary => 6
  | .primary => 7

/-- The tokens are read at a level, whatever follows them: they become the left operand of the
operators behind them. -/
def Reads (level : Level) (ts : List Token) (x : Tree) : Prop :=
  ∀ fuel rest, 8 * ts.length ≤ fuel + level.slack → Ends level rest →
    ∃ left, 0 < left ∧ fuel ≤ left + 2 * ts.length ∧
      parseAt? fuel level (ts ++ rest) = continueAt? left level x rest

variable {level : Level} {ts us rest : List Token} {x y : Tree} {fuel : Nat}

theorem Ends.operand (h : Ends level rest) : Ends level.operand rest := by
  intro t ht
  refine ⟨(h t ht).1, ?_⟩
  cases level <;> rfl

theorem ends_cons {t : Token} (hleft : t ≠ .left) (hop : operatorAt? level.operand t = none) :
    Ends level (t :: rest) := by
  intro u hu
  obtain rfl := Option.some.inj hu
  exact ⟨hleft, hop⟩

/-- Where no operator follows, the left operand is all. -/
theorem continueAt?_eq_some (hfuel : 0 < fuel)
    (h : ∀ t ∈ rest.head?, operatorAt? level t = none) :
    continueAt? fuel level x rest = some (x, rest) := by
  obtain ⟨n, rfl⟩ : ∃ n, fuel = n + 1 := ⟨fuel - 1, by omega⟩
  cases rest with
  | nil => rw [continueAt?]
  | cons t ts =>
    have ht := h t rfl
    rw [continueAt?, ht]

theorem Derives.length_pos (h : Derives level ts x) : 0 < ts.length := by
  induction h with
  | operand h ih => exact ih
  | number | name | parens | call | pow | neg | binary =>
    simp only [List.length_cons, List.length_append]
    omega

/-- No expression without operators begins with a minus. -/
theorem Derives.head_ne_minus (h : Derives level ts x) (hlevel : level = .primary) :
    ∃ t us, ts = t :: us ∧ t ≠ .minus := by
  induction h with
  | number | name | parens | call | pow => exact ⟨_, _, rfl, by simp⟩
  | neg h => exact absurd hlevel (by simp)
  | binary op hx hy =>
    have hne : op.level ≠ .primary := by cases op <;> decide
    exact absurd hlevel hne
  | operand h ih =>
    subst hlevel
    exact ih rfl

/-! ### Reading one construct -/

/-- What is read as an operand is all, where the level allows what follows. -/
theorem Reads.parseAt?_operand (h : Reads level.operand ts x)
    (hfuel : 8 * ts.length ≤ fuel + level.operand.slack) (hrest : Ends level rest) :
    parseAt? fuel level.operand (ts ++ rest) = some (x, rest) := by
  obtain ⟨left, hleft, -, hread⟩ := h fuel rest hfuel hrest.operand
  rw [hread]
  exact continueAt?_eq_some hleft fun t ht => (hrest t ht).2

/-- What is read before a token that is no operator is all. -/
theorem Reads.parseAt?_additive {t : Token} (h : Reads .additive ts x)
    (hfuel : 8 * ts.length ≤ fuel + 2) (hleft : t ≠ .left)
    (hop : ∀ level, operatorAt? level t = none) :
    parseAt? fuel .additive (ts ++ t :: rest) = some (x, t :: rest) := by
  obtain ⟨left, hpos, -, hread⟩ := h fuel (t :: rest) hfuel (ends_cons hleft (hop _))
  rw [hread]
  refine continueAt?_eq_some hpos fun u hu => ?_
  obtain rfl := Option.some.inj hu
  exact hop _

theorem Reads.closed?_eq (h : Reads .additive ts x) (hfuel : 8 * ts.length < fuel) :
    closed? fuel (ts ++ .right :: rest) = some (x, rest) := by
  obtain ⟨n, rfl⟩ : ∃ n, fuel = n + 1 := ⟨fuel - 1, by omega⟩
  have hop : ∀ level, operatorAt? level .right = none := fun level => by cases level <;> rfl
  rw [closed?, h.parseAt?_additive (by omega) (by simp) hop]

/-- At the levels without operators, what is read is all. -/
theorem reads_of_parseAt?_eq (hlevel : ∀ t, operatorAt? level t = none) (hpos : 0 < ts.length)
    (h : ∀ n rest, 8 * ts.length ≤ n + 1 + level.slack → Ends level rest →
      parseAt? (n + 1) level (ts ++ rest) = some (x, rest)) : Reads level ts x := by
  intro fuel rest hfuel hrest
  have hslack : level.slack ≤ 7 := by cases level <;> decide
  obtain ⟨n, rfl⟩ : ∃ n, fuel = n + 1 := ⟨fuel - 1, by omega⟩
  refine ⟨n + 1, by omega, by omega, ?_⟩
  rw [h n rest hfuel hrest, continueAt?_eq_some (by omega) fun t _ => hlevel t]

theorem reads_name {s : String} (hs : s ∉ functionNames) : Reads .primary [.name s] (.name s) := by
  refine reads_of_parseAt?_eq (fun _ => rfl) Nat.one_pos fun n rest _ hrest => ?_
  cases rest with
  | nil => simp [parseAt?, hs]
  | cons t rest =>
    have ht := (hrest t rfl).1
    cases t with
    | left => exact absurd rfl ht
    | number | name | plus | minus | star | slash | right | comma => simp [parseAt?, hs]

theorem Reads.parens (h : Reads .additive ts x) : Reads .primary (.left :: (ts ++ [.right])) x := by
  refine reads_of_parseAt?_eq (fun _ => rfl) Nat.succ_pos' fun n rest hfuel _ => ?_
  simp only [List.length_cons, List.length_append, List.length_nil, Level.slack] at hfuel
  rw [List.cons_append, List.append_assoc, List.singleton_append, parseAt?, h.closed?_eq (by omega)]

theorem Reads.call (f : UnaryFunction) (h : Reads .additive ts x) :
    Reads .primary (.name f.name :: .left :: (ts ++ [.right])) (.call f x) := by
  refine reads_of_parseAt?_eq (fun _ => rfl) Nat.succ_pos' fun n rest hfuel _ => ?_
  simp only [List.length_cons, List.length_append, List.length_nil, Level.slack] at hfuel
  have hpow : f.name ≠ "pow" := by cases f <;> decide
  have hname : functionNamed? f.name = some f := by cases f <;> rfl
  rw [List.cons_append, List.cons_append, List.append_assoc, List.singleton_append, parseAt?,
    if_neg hpow, hname, h.closed?_eq (by omega)]

theorem Reads.pow (hx : Reads .additive ts x) (hy : Reads .additive us y) :
    Reads .primary (.name "pow" :: .left :: (ts ++ .comma :: (us ++ [.right]))) (.pow x y) := by
  refine reads_of_parseAt?_eq (fun _ => rfl) Nat.succ_pos' fun n rest hfuel _ => ?_
  simp only [List.length_cons, List.length_append, List.length_nil, Level.slack] at hfuel
  have hlist : (Token.name "pow" :: .left :: (ts ++ .comma :: (us ++ [.right]))) ++ rest =
      .name "pow" :: .left :: (ts ++ .comma :: (us ++ .right :: rest)) := by simp
  have hop : ∀ level, operatorAt? level .comma = none := fun level => by cases level <;> rfl
  rw [hlist, parseAt?, if_pos rfl, hx.parseAt?_additive (by omega) (by simp) hop]
  dsimp only
  rw [hy.closed?_eq (by omega)]

theorem Reads.neg (h : Reads .unary ts x) : Reads .unary (.minus :: ts) (.neg x) := by
  refine reads_of_parseAt?_eq (fun _ => rfl) Nat.succ_pos' fun n rest hfuel hrest => ?_
  simp only [List.length_cons, Level.slack] at hfuel
  obtain ⟨left, hleft, -, hread⟩ := h n rest (by rw [Level.slack]; omega) hrest
  rw [List.cons_append, parseAt?, hread, continueAt?_eq_some hleft fun t _ => rfl]

theorem Reads.binary (op : Operator) (hpos : 0 < us.length) (hx : Reads op.level ts x)
    (hy : Reads op.level.operand us y) :
    Reads op.level (ts ++ op.token :: us) (.binary op x y) := by
  intro fuel rest hfuel hrest
  rw [List.length_append, List.length_cons] at hfuel ⊢
  have hslack : op.level.slack ≤ 4 := by cases op <;> decide
  have hends : Ends op.level (op.token :: (us ++ rest)) := by
    cases op <;> exact ends_cons (by simp [Operator.token]) rfl
  have hop : operatorAt? op.level op.token = some op := by cases op <;> rfl
  obtain ⟨left, hleft, hle, hread⟩ := hx fuel (op.token :: (us ++ rest)) (by omega) hends
  obtain ⟨n, rfl⟩ : ∃ n, left = n + 1 := ⟨left - 1, by omega⟩
  refine ⟨n, by omega, by omega, ?_⟩
  rw [List.append_assoc, List.cons_append, hread, continueAt?, hop]
  dsimp only
  rw [hy.parseAt?_operand (by omega) hrest]

/-- What is read as an operand of a level with operators is read at that level. -/
theorem Reads.operand (hlevel : level = .additive ∨ level = .multiplicative)
    (hpos : 0 < ts.length) (h : Reads level.operand ts x) : Reads level ts x := by
  intro fuel rest hfuel hrest
  have hslack : level.slack + 2 = level.operand.slack := by
    rcases hlevel with rfl | rfl <;> rfl
  have hslack' : level.slack ≤ 4 := by
    rcases hlevel with rfl | rfl <;> decide
  obtain ⟨n, rfl⟩ : ∃ n, fuel = n + 2 := ⟨fuel - 2, by omega⟩
  refine ⟨n, by omega, by omega, ?_⟩
  have hstep : parseAt? (n + 2) level (ts ++ rest) = operandAt? (n + 1) level (ts ++ rest) := by
    rcases hlevel with rfl | rfl <;> rw [parseAt?]
  rw [hstep, operandAt?, h.parseAt?_operand (by omega) hrest]

theorem Reads.primary (hpos : 0 < ts.length) (hhead : ∃ t us, ts = t :: us ∧ t ≠ .minus)
    (h : Reads .primary ts x) : Reads .unary ts x := by
  refine reads_of_parseAt?_eq (fun _ => rfl) hpos fun n rest hfuel hrest => ?_
  obtain ⟨t, us, rfl, hminus⟩ := hhead
  have hstep : parseAt? (n + 1) .unary (t :: us ++ rest) =
      parseAt? n .primary (t :: us ++ rest) := by
    cases t with
    | minus => exact absurd rfl hminus
    | number | name | plus | star | slash | left | right | comma => rfl
  have hprimary : Reads Level.unary.operand (t :: us) x := h
  rw [hstep]
  refine hprimary.parseAt?_operand ?_ hrest
  rw [Level.operand]
  simp only [Level.slack] at hfuel ⊢
  omega

/-- What is derived at a level is read there. -/
theorem Derives.reads (h : Derives level ts x) : Reads level ts x := by
  induction h with
  | number text =>
    exact reads_of_parseAt?_eq (fun _ => rfl) Nat.one_pos fun n rest _ _ => by
      rw [List.singleton_append, parseAt?]
  | name s hs => exact reads_name hs
  | parens h ih => exact ih.parens
  | call f h ih => exact ih.call f
  | pow hx hy ihx ihy => exact ihx.pow ihy
  | neg h ih => exact ih.neg
  | binary op hx hy ihx ihy => exact ihx.binary op hy.length_pos ihy
  | @operand level ts x h ih =>
    cases level with
    | additive => exact ih.operand (Or.inl rfl) h.length_pos
    | multiplicative => exact ih.operand (Or.inr rfl) h.length_pos
    | unary => exact ih.primary h.length_pos (h.head_ne_minus rfl)
    | primary => exact ih

/-- The parser finds every derivation. -/
theorem Derivable.parse?_eq {s : String} (h : Derivable s x) : parse? s = some x := by
  obtain ⟨ts, htokens, hderives⟩ := h
  have hpos := hderives.length_pos
  obtain ⟨left, hleft, -, hread⟩ := hderives.reads (8 * ts.length) []
    (by omega) (fun t ht => absurd ht (by simp))
  rw [List.append_nil, continueAt?_eq_some hleft fun t ht => absurd ht (by simp)] at hread
  rw [parse?, htokens]
  dsimp only
  rw [hread]

/-- A text has at most one tree. -/
theorem Derivable.unique {s : String} (hx : Derivable s x) (hy : Derivable s y) : x = y :=
  Option.some.inj (hx.parse?_eq.symm.trans hy.parse?_eq)

/-- The minus binds more tightly than the operators, and they associate to the left. -/
example : parse? "-x*y - 2/(z + 1) - w" = some (.binary .sub (.binary .sub
    (.binary .mul (.neg (.name "x")) (.name "y"))
    (.binary .div (.number ['2']) (.binary .add (.name "z") (.number ['1'])))) (.name "w")) := by
  decide +kernel

end CExpression

end SphereLab
