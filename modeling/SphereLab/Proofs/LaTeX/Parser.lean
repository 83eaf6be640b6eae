import Mathlib
import SphereLab.Proofs.LaTeX.Grammar

/-!
# Parsing formulas of LaTeX

The grammar is read by recursive descent.  A product goes on for as long as the next token can begin
a factor, and a sum for as long as there are signs.  The parser finds the tree of every derivation,
so a text has at most one.

* `parse?`: the tree of a text.
* `Derives.reads`: what is derived at a level is read there, whatever follows it.
* `Derivable.parse?_eq`: the parser finds every derivation.
* `Derivable.unique`: a text has at most one tree.
-/

namespace SphereLab

namespace LaTeX

open CExpression (Tree)

/-! ## The parser -/

/-- The tokens that a factor can begin with. -/
def beginsFactor : Token → Bool
  | .number _ | .symbol _ | .left | .frac | .sqrt => true
  | _ => false

/-- The sign that a token stands for. -/
def signOf? : Token → Option Bool
  | .plus => some false
  | .minus => some true
  | _ => none

/-- What stands behind the letter e and the mark of its superscript. -/
def exponentOf? : List Token → Option (List Token)
  | .symbol s :: .caret :: ts => if s = "e" then some ts else none
  | _ => none

mutual

/-- Read a sum from the front of the tokens. -/
def sumAt? : Nat → List Token → Option (Tree × List Token)
  | 0, _ => none
  | fuel + 1, .minus :: ts =>
    match productAt? fuel ts with
    | some (x, rest) => termsAfter? fuel (.neg x) rest
    | none => none
  | fuel + 1, ts =>
    match productAt? fuel ts with
    | some (x, rest) => termsAfter? fuel x rest
    | none => none

/-- Read signs with the products behind them, after a sum. -/
def termsAfter? : Nat → Tree → List Token → Option (Tree × List Token)
  | 0, _, _ => none
  | _ + 1, x, [] => some (x, [])
  | fuel + 1, x, t :: ts =>
    match signOf? t with
    | some negative =>
      match productAt? fuel ts with
      | some (y, rest) => termsAfter? fuel (.binary (signOperator negative) x y) rest
      | none => none
    | none => some (x, t :: ts)

/-- Read factors for as long as there are any. -/
def productAt? : Nat → List Token → Option (Tree × List Token)
  | 0, _ => none
  | fuel + 1, ts =>
    match factorAt? fuel ts with
    | some (x, rest) =>
      if rest.head?.any beginsFactor then
        match productAt? fuel rest with
        | some (y, rest) => some (.binary .mul x y, rest)
        | none => none
      else some (x, rest)
    | none => none

/-- Read an atom and its superscript, or an exponential. -/
def factorAt? : Nat → List Token → Option (Tree × List Token)
  | 0, _ => none
  | fuel + 1, ts =>
    match exponentOf? ts with
    | some us =>
      match groupAt? fuel us with
      | some (x, rest) => some (.call .exp x, rest)
      | none => none
    | none =>
      match atomAt? fuel ts with
      | some (x, .caret :: rest) =>
        match groupAt? fuel rest with
        | some (y, rest) => some (.pow x y, rest)
        | none => none
      | some (x, rest) => some (x, rest)
      | none => none

/-- Read an atom. -/
def atomAt? : Nat → List Token → Option (Tree × List Token)
  | 0, _ => none
  | _ + 1, .number text :: ts => some (.number text, ts)
  | _ + 1, .symbol s :: ts => if s = "e" then none else some (.name s, ts)
  | fuel + 1, .left :: .openParen :: ts =>
    match sumAt? fuel ts with
    | some (x, .right :: .closeParen :: rest) => some (x, rest)
    | _ => none
  | fuel + 1, .frac :: ts =>
    match groupAt? fuel ts with
    | some (x, rest) =>
      match groupAt? fuel rest with
      | some (y, rest) => some (.binary .div x y, rest)
      | none => none
    | none => none
  | fuel + 1, .sqrt :: ts =>
    match groupAt? fuel ts with
    | some (x, rest) => some (.call .sqrt x, rest)
    | none => none
  | _ + 1, _ => none

/-- Read a sum between braces. -/
def groupAt? : Nat → List Token → Option (Tree × List Token)
  | 0, _ => none
  | fuel + 1, .openGroup :: ts =>
    match sumAt? fuel ts with
    | some (x, .closeGroup :: rest) => some (x, rest)
    | _ => none
  | _ + 1, _ => none

end

/-- The tree of a text. -/
def parse? (s : String) : Option Tree :=
  match tokens? s with
  | some ts =>
    match sumAt? (8 * ts.length) ts with
    | some (x, []) => some x
    | _ => none
  | none => none

/-! ## The parser finds every derivation -/

/-- What may follow a product: no superscript, and no other factor. -/
def Ends (rest : List Token) : Prop :=
  ∀ t ∈ rest.head?, t ≠ .caret ∧ beginsFactor t = false

/-- The tokens are read at a level, whatever may follow them; in a sum they are read before the
terms behind them are. -/
def Reads : Level → List Token → Tree → Prop
  | .atom, ts, x => ∀ fuel rest, 8 * ts.length ≤ fuel + 3 →
      atomAt? fuel (ts ++ rest) = some (x, rest)
  | .factor, ts, x => ∀ fuel rest, 8 * ts.length ≤ fuel + 2 → rest.head? ≠ some .caret →
      factorAt? fuel (ts ++ rest) = some (x, rest)
  | .product, ts, x => ∀ fuel rest, 8 * ts.length ≤ fuel + 1 → Ends rest →
      productAt? fuel (ts ++ rest) = some (x, rest)
  | .sum, ts, x => ∀ fuel rest, 8 * ts.length ≤ fuel → Ends rest →
      ∃ left, fuel ≤ left + 2 * ts.length ∧ sumAt? fuel (ts ++ rest) = termsAfter? left x rest

variable {level : Level} {ts us rest : List Token} {x y : Tree} {fuel : Nat}

theorem Ends.head?_ne (h : Ends rest) : rest.head? ≠ some .caret := fun hcaret =>
  (h .caret hcaret).1 rfl

theorem Ends.any_eq_false (h : Ends rest) : rest.head?.any beginsFactor = false := by
  cases rest with
  | nil => rfl
  | cons t rest => exact (h t rfl).2

theorem ends_cons {t : Token} (hcaret : t ≠ .caret) (ht : beginsFactor t = false) :
    Ends (t :: rest) := by
  intro u hu
  obtain rfl := Option.some.inj hu
  exact ⟨hcaret, ht⟩

/-- What is not a sum begins with a token that a factor can begin with. -/
theorem Derives.head (h : Derives level ts x) (hlevel : level ≠ .sum) :
    ∃ t us, ts = t :: us ∧ beginsFactor t = true := by
  induction h with
  | number | symbol | parens | fraction | root | exponential => exact ⟨_, _, rfl, rfl⟩
  | power _ _ ih _ =>
    obtain ⟨t, us, rfl, ht⟩ := ih (by decide)
    exact ⟨t, _, rfl, ht⟩
  | atom _ ih => exact ih (by decide)
  | juxtaposed _ _ ih _ =>
    obtain ⟨t, us, rfl, ht⟩ := ih (by decide)
    exact ⟨t, _, rfl, ht⟩
  | factor _ ih => exact ih (by decide)
  | minus | product | signed => exact absurd rfl hlevel

theorem Derives.length_pos (h : Derives level ts x) : 0 < ts.length := by
  induction h with
  | atom _ ih | factor _ ih | product _ ih => exact ih
  | number | symbol | parens | fraction | root | power | exponential | juxtaposed | minus
    | signed =>
    simp only [List.length_cons, List.length_append]
    omega

/-! ### Reading one construct -/

/-- Where no sign follows, the sum is all. -/
theorem termsAfter?_eq_some (hfuel : 0 < fuel) (h : ∀ t ∈ rest.head?, signOf? t = none) :
    termsAfter? fuel x rest = some (x, rest) := by
  obtain ⟨n, rfl⟩ : ∃ n, fuel = n + 1 := ⟨fuel - 1, by omega⟩
  cases rest with
  | nil => rw [termsAfter?]
  | cons t ts =>
    have ht := h t rfl
    rw [termsAfter?, ht]

/-- What is read in a sum before a token that is no sign is all. -/
theorem Reads.sumAt?_eq (h : Reads .sum ts x) (hfuel : 8 * ts.length ≤ fuel) (hpos : 0 < ts.length)
    {t : Token} (ht : t = .right ∨ t = .closeGroup) :
    sumAt? fuel (ts ++ t :: rest) = some (x, t :: rest) := by
  have hends : Ends (t :: rest) := by
    rcases ht with rfl | rfl <;> exact ends_cons (by decide) rfl
  obtain ⟨left, hleft, hread⟩ := h fuel (t :: rest) hfuel hends
  rw [hread]
  refine termsAfter?_eq_some (by omega) fun u hu => ?_
  obtain rfl := Option.some.inj hu
  rcases ht with rfl | rfl <;> rfl

theorem length_group (ts : List Token) : (group ts).length = ts.length + 2 := by
  rw [group, List.length_cons, List.length_append, List.length_singleton]

theorem Reads.groupAt?_eq (h : Reads .sum ts x) (hfuel : 8 * ts.length < fuel)
    (hpos : 0 < ts.length) : groupAt? fuel (group ts ++ rest) = some (x, rest) := by
  obtain ⟨n, rfl⟩ : ∃ n, fuel = n + 1 := ⟨fuel - 1, by omega⟩
  rw [group, List.cons_append, List.append_assoc, List.singleton_append, groupAt?,
    h.sumAt?_eq (by omega) hpos (Or.inr rfl)]

theorem Reads.parens (h : Reads .sum ts x) (hpos : 0 < ts.length) :
    Reads .atom (.left :: .openParen :: (ts ++ [.right, .closeParen])) x := by
  intro fuel rest hfuel
  simp only [List.length_cons, List.length_append, List.length_nil] at hfuel
  obtain ⟨n, rfl⟩ : ∃ n, fuel = n + 1 := ⟨fuel - 1, by omega⟩
  rw [List.cons_append, List.cons_append, List.append_assoc, List.cons_append,
    List.singleton_append, atomAt?, h.sumAt?_eq (by omega) hpos (Or.inl rfl)]

theorem Reads.fraction (hx : Reads .sum ts x) (hy : Reads .sum us y) (hxpos : 0 < ts.length)
    (hypos : 0 < us.length) :
    Reads .atom (.frac :: (group ts ++ group us)) (.binary .div x y) := by
  intro fuel rest hfuel
  simp only [List.length_cons, List.length_append, length_group] at hfuel
  obtain ⟨n, rfl⟩ : ∃ n, fuel = n + 1 := ⟨fuel - 1, by omega⟩
  rw [List.cons_append, List.append_assoc, atomAt?, hx.groupAt?_eq (by omega) hxpos]
  dsimp only
  rw [hy.groupAt?_eq (by omega) hypos]

theorem Reads.root (h : Reads .sum ts x) (hpos : 0 < ts.length) :
    Reads .atom (.sqrt :: group ts) (.call .sqrt x) := by
  intro fuel rest hfuel
  simp only [List.length_cons, length_group] at hfuel
  obtain ⟨n, rfl⟩ : ∃ n, fuel = n + 1 := ⟨fuel - 1, by omega⟩
  rw [List.cons_append, atomAt?, h.groupAt?_eq (by omega) hpos]

/-- No atom is the letter e. -/
theorem Derives.exponentOf?_eq_none (h : Derives .atom ts x) (rest : List Token) :
    exponentOf? (ts ++ rest) = none := by
  cases h with
  | symbol s hs =>
    rw [List.singleton_append]
    unfold exponentOf?
    split
    · rename_i heq
      cases heq
      exact if_neg hs
    · rfl
  | number | parens | fraction | root => rfl

theorem Reads.power (hx : Derives .atom ts x) (hatom : Reads .atom ts x) (hy : Reads .sum us y)
    (hpos : 0 < us.length) : Reads .factor (ts ++ .caret :: group us) (.pow x y) := by
  intro fuel rest hfuel _
  have htspos := hx.length_pos
  simp only [List.length_cons, List.length_append, length_group] at hfuel
  obtain ⟨n, rfl⟩ : ∃ n, fuel = n + 1 := ⟨fuel - 1, by omega⟩
  rw [List.append_assoc, List.cons_append, factorAt?, hx.exponentOf?_eq_none,
    hatom n _ (by omega)]
  dsimp only
  rw [hy.groupAt?_eq (by omega) hpos]

theorem Reads.exponential (h : Reads .sum ts x) (hpos : 0 < ts.length) :
    Reads .factor (.symbol "e" :: .caret :: group ts) (.call .exp x) := by
  intro fuel rest hfuel _
  simp only [List.length_cons, length_group] at hfuel
  obtain ⟨n, rfl⟩ : ∃ n, fuel = n + 1 := ⟨fuel - 1, by omega⟩
  have hexponent : exponentOf? (.symbol "e" :: .caret :: (group ts ++ rest)) =
      some (group ts ++ rest) := by rw [exponentOf?, if_pos rfl]
  rw [List.cons_append, List.cons_append, factorAt?, hexponent]
  dsimp only
  rw [h.groupAt?_eq (by omega) hpos]

theorem Reads.atom (hx : Derives .atom ts x) (h : Reads .atom ts x) : Reads .factor ts x := by
  intro fuel rest hfuel hrest
  have hpos := hx.length_pos
  obtain ⟨n, rfl⟩ : ∃ n, fuel = n + 1 := ⟨fuel - 1, by omega⟩
  rw [factorAt?, hx.exponentOf?_eq_none, h n rest (by omega)]
  dsimp only
  split
  · rename_i heq
    cases heq
    exact absurd rfl hrest
  · rename_i heq
    exact heq.symm
  · rename_i heq
    cases heq

theorem Reads.juxtaposed (hx : Reads .factor ts x) (hy : Reads .product us y)
    (hxpos : 0 < ts.length) (hhead : ∃ t vs, us = t :: vs ∧ beginsFactor t = true) :
    Reads .product (ts ++ us) (.binary .mul x y) := by
  intro fuel rest hfuel hrest
  obtain ⟨t, vs, rfl, ht⟩ := hhead
  rw [List.length_append] at hfuel
  have hlength : (t :: vs).length = vs.length + 1 := List.length_cons
  obtain ⟨n, rfl⟩ : ∃ n, fuel = n + 1 := ⟨fuel - 1, by omega⟩
  have hcaret : (t :: vs ++ rest).head? ≠ some .caret := by
    rintro heq
    rw [Option.some.inj heq] at ht
    exact absurd ht (by decide)
  have hany : (t :: vs ++ rest).head?.any beginsFactor = true := ht
  rw [List.append_assoc, productAt?, hx n _ (by omega) hcaret]
  dsimp only
  rw [if_pos hany, hy n rest (by omega) hrest]

theorem Reads.factor (h : Reads .factor ts x) (hpos : 0 < ts.length) : Reads .product ts x := by
  intro fuel rest hfuel hrest
  obtain ⟨n, rfl⟩ : ∃ n, fuel = n + 1 := ⟨fuel - 1, by omega⟩
  rw [productAt?, h n rest (by omega) hrest.head?_ne]
  dsimp only
  rw [hrest.any_eq_false, if_neg Bool.false_ne_true]

theorem Reads.minus (h : Reads .product ts x) : Reads .sum (.minus :: ts) (.neg x) := by
  intro fuel rest hfuel hrest
  rw [List.length_cons] at hfuel ⊢
  obtain ⟨n, rfl⟩ : ∃ n, fuel = n + 1 := ⟨fuel - 1, by omega⟩
  refine ⟨n, by omega, ?_⟩
  rw [List.cons_append, sumAt?, h n rest (by omega) hrest]

theorem Reads.product (h : Reads .product ts x)
    (hhead : ∃ t vs, ts = t :: vs ∧ beginsFactor t = true) : Reads .sum ts x := by
  intro fuel rest hfuel hrest
  obtain ⟨t, vs, rfl, ht⟩ := hhead
  have hlength : (t :: vs).length = vs.length + 1 := List.length_cons
  obtain ⟨n, rfl⟩ : ∃ n, fuel = n + 1 := ⟨fuel - 1, by omega⟩
  have hstep : sumAt? (n + 1) (t :: vs ++ rest) =
      match productAt? n (t :: vs ++ rest) with
      | some (x, rest) => termsAfter? n x rest
      | none => none := by
    cases t with
    | minus => exact absurd ht (by decide)
    | number | symbol | plus | caret | frac | sqrt | openGroup | closeGroup | left | right
      | openParen | closeParen => rfl
  refine ⟨n, by omega, ?_⟩
  rw [hstep, h n rest (by omega) hrest]

theorem Reads.signed (negative : Bool) (hx : Reads .sum ts x) (hy : Reads .product us y)
    (hpos : 0 < us.length) :
    Reads .sum (ts ++ signToken negative :: us) (.binary (signOperator negative) x y) := by
  intro fuel rest hfuel hrest
  rw [List.length_append, List.length_cons] at hfuel ⊢
  have hends : Ends (signToken negative :: (us ++ rest)) := by
    cases negative <;> exact ends_cons (by decide) rfl
  have hsign : signOf? (signToken negative) = some negative := by cases negative <;> rfl
  obtain ⟨left, hleft, hread⟩ := hx fuel (signToken negative :: (us ++ rest)) (by omega) hends
  obtain ⟨n, rfl⟩ : ∃ n, left = n + 1 := ⟨left - 1, by omega⟩
  refine ⟨n, by omega, ?_⟩
  rw [List.append_assoc, List.cons_append, hread, termsAfter?, hsign]
  dsimp only
  rw [hy n rest (by omega) hrest]

/-- What is derived at a level is read there. -/
theorem Derives.reads (h : Derives level ts x) : Reads level ts x := by
  induction h with
  | number text =>
    intro fuel rest hfuel
    rw [List.length_singleton] at hfuel
    obtain ⟨n, rfl⟩ : ∃ n, fuel = n + 1 := ⟨fuel - 1, by omega⟩
    rw [List.singleton_append, atomAt?]
  | symbol s hs =>
    intro fuel rest hfuel
    rw [List.length_singleton] at hfuel
    obtain ⟨n, rfl⟩ : ∃ n, fuel = n + 1 := ⟨fuel - 1, by omega⟩
    rw [List.singleton_append, atomAt?, if_neg hs]
  | parens h ih => exact ih.parens h.length_pos
  | fraction hx hy ihx ihy => exact ihx.fraction ihy hx.length_pos hy.length_pos
  | root h ih => exact ih.root h.length_pos
  | power hx hy ihx ihy => exact .power hx ihx ihy hy.length_pos
  | exponential h ih => exact ih.exponential h.length_pos
  | atom h ih => exact .atom h ih
  | juxtaposed hx hy ihx ihy => exact ihx.juxtaposed ihy hx.length_pos (hy.head (by decide))
  | factor h ih => exact ih.factor h.length_pos
  | minus h ih => exact ih.minus
  | product h ih => exact ih.product (h.head (by decide))
  | signed negative hx hy ihx ihy => exact ihx.signed negative ihy hy.length_pos

/-- The parser finds every derivation. -/
theorem Derivable.parse?_eq {s : String} (h : Derivable s x) : parse? s = some x := by
  obtain ⟨ts, htokens, hderives⟩ := h
  have hpos := hderives.length_pos
  obtain ⟨left, hleft, hread⟩ := hderives.reads (8 * ts.length) [] le_rfl
    fun t ht => absurd ht (by simp)
  rw [List.append_nil, termsAfter?_eq_some (by omega) fun t ht => absurd ht (by simp)] at hread
  rw [parse?, htokens]
  dsimp only
  rw [hread]

/-- A text has at most one tree. -/
theorem Derivable.unique {s : String} (hx : Derivable s x) (hy : Derivable s y) : x = y :=
  Option.some.inj (hx.parse?_eq.symm.trans hy.parse?_eq)

/-- A superscript belongs to the atom in front of it, and the sign between two terms to all of the
second one. -/
example : parse? "\\frac\x7b1\x7d\x7bx\x7d^\x7b2\x7d - 2 \\kappa_\x7b11\x7d e^\x7b- y\x7d" =
    some (.binary .sub (.pow (.binary .div (.number ['1']) (.name "x")) (.number ['2']))
      (.binary .mul (.number ['2']) (.binary .mul (.name "\\kappa_\x7b11\x7d")
        (.call .exp (.neg (.name "y")))))) := by
  decide +kernel

end LaTeX

end SphereLab
