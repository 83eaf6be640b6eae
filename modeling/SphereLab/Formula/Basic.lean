import SphereLab.Scalar

/-!
# Formulas

A `Formula` is a sum, a product, a power or an exponential of smaller formulas, down to
constants and symbols.  The constructors of the type build a formula as it is given; the
operations of this module build it *simplified*:

* sums inside sums and products inside products are spliced in;
* constants are folded into one, which stands last in a sum and first in a product, and
  disappears when it has no effect;
* a power with exponent zero or one, of constants, or with base one is carried out, and an
  integer power is moved into a product and merged into a power with an integer exponent;
* the exponential of a constant is carried out.

Like terms are not collected.

`substitute` replaces symbols and simplifies again on the way up, so that it also brings a
formula that was given raw into simplified form.
-/

namespace SphereLab

/-- A formula with constants in `α`. -/
inductive Formula (α : Type) where
  | const (value : α)
  | symbol (name : String)
  | sum (terms : List (Formula α))
  | product (factors : List (Formula α))
  | power (base exponent : Formula α)
  | exponential (argument : Formula α)
  deriving Repr, Inhabited

namespace Formula

variable {α : Type} [Scalar α]

/-! ## Sums -/

/-- The value of a constant. -/
def const? : Formula α → Option α
  | .const v => some v
  | _ => none

/-- The terms of a sum, and any other formula as its own only term. -/
def terms : Formula α → List (Formula α)
  | .sum ts => ts
  | f => [f]

/-- A sum of terms that need no more simplification. -/
def ofTerms : List (Formula α) → Formula α
  | [] => .const 0
  | [t] => t
  | ts => .sum ts

/-- The simplified sum of a list of formulas. -/
def sumOf (fs : List (Formula α)) : Formula α :=
  let spliced := fs.flatMap terms
  let constant := (spliced.filterMap const?).foldl (· + ·) (0 : α)
  let rest := spliced.filter (·.const?.isNone)
  ofTerms (if constant == 0 then rest else rest ++ [.const constant])

/-! ## Products -/

/-- The factors of a product, and any other formula as its own only factor. -/
def factors : Formula α → List (Formula α)
  | .product fs => fs
  | f => [f]

/-- A product of factors that need no more simplification. -/
def ofFactors : List (Formula α) → Formula α
  | [] => .const 1
  | [f] => f
  | fs => .product fs

/-- The simplified product of a list of formulas. -/
def productOf (fs : List (Formula α)) : Formula α :=
  let spliced := fs.flatMap factors
  let coefficient := (spliced.filterMap const?).foldl (· * ·) (1 : α)
  let rest := spliced.filter (·.const?.isNone)
  if coefficient == 0 then .const 0
  else ofFactors (if coefficient == 1 then rest else .const coefficient :: rest)

/-! ## Powers and exponentials -/

mutual

/-- The simplified power of a formula at a constant exponent. -/
def powConst : Formula α → α → Formula α
  | .const b, e =>
    if e == 0 then .const 1 else if e == 1 then .const b else .const (Scalar.pow b e)
  | .product fs, e =>
    if e == 0 then .const 1
    else if e == 1 then .product fs
    else if Scalar.isInteger e then productOf (powEach fs e)
    else .power (.product fs) (.const e)
  | .power b (.const i), e =>
    if e == 0 then .const 1
    else if e == 1 then .power b (.const i)
    else if Scalar.isInteger e && Scalar.isInteger i then powConst b (i * e)
    else .power (.power b (.const i)) (.const e)
  | f, e =>
    if e == 0 then .const 1 else if e == 1 then f else .power f (.const e)

/-- The powers of several formulas at one constant exponent. -/
def powEach : List (Formula α) → α → List (Formula α)
  | [], _ => []
  | f :: fs, e => powConst f e :: powEach fs e

end

/-- The simplified power. -/
def pow (base exponent : Formula α) : Formula α :=
  match exponent with
  | .const e => powConst base e
  | _ =>
    match base with
    | .const b => if b == 1 then .const 1 else .power base exponent
    | _ => .power base exponent

/-- The simplified power at an integer exponent. -/
def powInt (base : Formula α) (n : Int) : Formula α := powConst base (Scalar.ofInt n)

/-- The simplified exponential. -/
def exp : Formula α → Formula α
  | .const v => .const (Scalar.exp v)
  | f => .exponential f

/-- The reciprocal. -/
def recip (f : Formula α) : Formula α := powConst f (-1)

/-! ## Operators -/

/-- The sum of two formulas. -/
def add (f g : Formula α) : Formula α := sumOf [f, g]

/-- The product of two formulas. -/
def mul (f g : Formula α) : Formula α := productOf [f, g]

/-- The negative of a formula. -/
def neg (f : Formula α) : Formula α := productOf [.const (-1), f]

/-- The difference of two formulas. -/
def sub (f g : Formula α) : Formula α := sumOf [f, neg g]

/-- The quotient of two formulas. -/
def div (f g : Formula α) : Formula α := productOf [f, recip g]

/-- A formula less a constant. -/
def subConst (f : Formula α) (c : α) : Formula α := sumOf [f, .const (-c)]

/-- A formula scaled by a constant, which is the first factor. -/
def scale (c : α) (f : Formula α) : Formula α := productOf [.const c, f]

/-- A formula divided by a constant: scaled by the reciprocal. -/
def divConst (f : Formula α) (c : α) : Formula α := scale (1 / c) f

instance : Add (Formula α) := ⟨add⟩
instance : Mul (Formula α) := ⟨mul⟩
instance : Sub (Formula α) := ⟨sub⟩
instance : Div (Formula α) := ⟨div⟩
instance : Neg (Formula α) := ⟨neg⟩

/-! ## Substitution -/

mutual

/-- Replace symbols and simplify. -/
def substitute (σ : String → Option (Formula α)) : Formula α → Formula α
  | .const v => .const v
  | .symbol s => (σ s).getD (.symbol s)
  | .sum ts => sumOf (substituteEach σ ts)
  | .product fs => productOf (substituteEach σ fs)
  | .power b e => pow (substitute σ b) (substitute σ e)
  | .exponential x => exp (substitute σ x)

/-- Replace symbols in several formulas. -/
def substituteEach (σ : String → Option (Formula α)) : List (Formula α) → List (Formula α)
  | [] => []
  | f :: fs => substitute σ f :: substituteEach σ fs

end

omit [Scalar α] in
/-- The replacement of one symbol. -/
def only (name : String) (value : Formula α) (s : String) : Option (Formula α) :=
  if s = name then some value else none

/-- Replace every symbol that a finite map names. -/
def substituteAll (f : Formula α) (map : List (String × Formula α)) : Formula α :=
  f.substitute fun s => map.lookup s

/-- Replace one symbol. -/
def substituteOne (f : Formula α) (name : String) (value : Formula α) : Formula α :=
  f.substitute (only name value)

/-! ## Symbols -/

omit [Scalar α]

mutual

/-- The names of the symbols of a formula, one for each occurrence, from left to right. -/
def occurrences : Formula α → List String
  | .const _ => []
  | .symbol s => [s]
  | .sum ts => occurrencesEach ts
  | .product fs => occurrencesEach fs
  | .power b e => occurrences b ++ occurrences e
  | .exponential x => occurrences x

/-- The names of the symbols of several formulas. -/
def occurrencesEach : List (Formula α) → List String
  | [] => []
  | f :: fs => occurrences f ++ occurrencesEach fs

end

/-- Insert a name into an increasing list, unless it is there already. -/
def insertName (name : String) : List String → List String
  | [] => [name]
  | s :: rest =>
    if name < s then name :: s :: rest
    else if name = s then s :: rest
    else s :: insertName name rest

/-- The symbols of a formula, each once and in increasing order. -/
def symbols (f : Formula α) : List String := f.occurrences.foldr insertName []

/-! ## Equality -/

mutual

/-- Equality of shape, names and constants, where constants are compared by `==`. -/
def same : Formula α → Formula α → Bool
  | .const a, .const b => a == b
  | .symbol s, .symbol t => s == t
  | .sum as, .sum bs => sameEach as bs
  | .product as, .product bs => sameEach as bs
  | .power a b, .power c d => same a c && same b d
  | .exponential a, .exponential b => same a b
  | _, _ => false

/-- Equality of two lists of formulas, member by member. -/
def sameEach : List (Formula α) → List (Formula α) → Bool
  | [], [] => true
  | a :: as, b :: bs => same a b && sameEach as bs
  | _, _ => false

end

end Formula

end SphereLab
