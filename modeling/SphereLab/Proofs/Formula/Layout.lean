import Mathlib
import SphereLab.Proofs.CExpression.Grammar
import SphereLab.Proofs.Decimal.Shortest
import SphereLab.Proofs.Formula.NormalForm
import SphereLab.Proofs.Formula.Symbols

/-!
# Layouts of formulas

A normal formula with finite constants is laid out with its value, whichever forms a notation
chooses for its powers: the constants that the layout changes only change their signs, which is
exact on doubles, and a power that goes below a fraction bar is the reciprocal of the one that is
laid out there.

* `Layout.value?`: the value of a layout over the real numbers, if it has one.
* `Layout.Printable`: finite numbers, and names of which something is known.
* `Formula.Writable`: normal formulas with finite constants and such names for symbols.
* `Formula.RealValue`: the value of a formula over the real numbers, with the real numbers of its
  constants.
* `Formula.Suits`: forms of powers under which the value is kept.
* `Formula.laysOut_layoutWithin_of_suits`: the layout of a formula can be printed and has the value
  of the formula.
-/

namespace SphereLab

namespace Layout

/-! ## Layouts and their members -/

/-- Induction over layouts, where a sum or a quotient has all its members at once. -/
@[elab_as_elim, induction_eliminator]
theorem induction {α : Type} {motive : Layout α → Prop} (number : ∀ v, motive (.number v))
    (name : ∀ s, motive (.name s))
    (sum : ∀ signs ts, (∀ t ∈ ts, motive t) → motive (.sum signs ts))
    (quotient : ∀ negative above below, (∀ l ∈ above, motive l) → (∀ l ∈ below, motive l) →
      motive (.quotient negative above below))
    (reciprocal : ∀ l, motive l → motive (.reciprocal l))
    (power : ∀ b e, motive b → motive e → motive (.power b e))
    (repeated : ∀ b n, motive b → motive (.repeated b n))
    (root : ∀ l, motive l → motive (.root l))
    (exponential : ∀ l, motive l → motive (.exponential l)) (l : Layout α) : motive l :=
  Layout.rec (motive_2 := fun ls => ∀ l ∈ ls, motive l) number name sum quotient reciprocal power
    repeated root exponential (fun _ hl => absurd hl List.not_mem_nil)
    (fun _ _ hl hls _ hm => (List.mem_cons.mp hm).elim (fun h => h ▸ hl) (hls _)) l

/-- A value behind its sign. -/
noncomputable def signed (negative : Bool) (v : ℝ) : ℝ := if negative then -v else v

open Classical in
mutual

/-- The value of a layout in an environment, if it has one. -/
noncomputable def value? (env : String → Option ℝ) : Layout Float → Option ℝ
  | .number v => some (realOf v)
  | .name s => env s
  | .sum signs ts => (values? env ts).map fun vs => (List.zipWith signed signs vs).sum
  | .quotient negative above below =>
    (values? env above).bind fun vs => (values? env below).bind fun ws =>
      if ws.prod = 0 then none else some (signed negative (vs.prod / ws.prod))
  | .reciprocal l => (value? env l).bind fun v => if v = 0 then none else some v⁻¹
  | .power b e => (value? env b).bind fun v => (value? env e).bind fun w =>
      if PowerDomain.real.holds v w then some (v ^ w) else none
  | .repeated b n => (value? env b).map (· ^ n)
  | .root l => (value? env l).bind fun v => if 0 ≤ v then some (√v) else none
  | .exponential l => (value? env l).map Real.exp

/-- The values of several layouts, if all of them have one. -/
noncomputable def values? (env : String → Option ℝ) : List (Layout Float) → Option (List ℝ)
  | [] => some []
  | l :: ls => (value? env l).bind fun v => (values? env ls).map (v :: ·)

end

mutual

/-- The numbers are finite, the names are such as a notation allows, every term has a sign, and
what is multiplied by itself is there at least once. -/
def Printable (IsName : String → Prop) : Layout Float → Prop
  | .number v => v.isFinite = true
  | .name s => IsName s
  | .sum signs ts => ts ≠ [] ∧ signs.length = ts.length ∧ AllPrintable IsName ts
  | .quotient _ above below => AllPrintable IsName above ∧ AllPrintable IsName below
  | .reciprocal l | .root l | .exponential l => Printable IsName l
  | .power b e => Printable IsName b ∧ Printable IsName e
  | .repeated b n => 0 < n ∧ Printable IsName b

/-- All of several layouts are printable. -/
def AllPrintable (IsName : String → Prop) : List (Layout Float) → Prop
  | [] => True
  | l :: ls => Printable IsName l ∧ AllPrintable IsName ls

end

theorem allPrintable_iff {IsName : String → Prop} {ls : List (Layout Float)} :
    AllPrintable IsName ls ↔ ∀ l ∈ ls, l.Printable IsName := by
  induction ls with
  | nil => exact iff_of_true trivial fun l hl => absurd hl List.not_mem_nil
  | cons l ls ih => exact (and_congr_right fun _ => ih).trans List.forall_mem_cons.symm

theorem values?_eq_some_iff {env : String → Option ℝ} {ls : List (Layout Float)} {vs : List ℝ} :
    values? env ls = some vs ↔ List.Forall₂ (fun l v => l.value? env = some v) ls vs := by
  induction ls generalizing vs with
  | nil =>
    rw [List.forall₂_nil_left_iff]
    exact Option.some_inj.trans eq_comm
  | cons l ls ih =>
    change ((l.value? env).bind fun v => (values? env ls).map (v :: ·)) = some vs ↔ _
    rw [List.forall₂_cons_left_iff]
    simp only [Option.bind_eq_some_iff, Option.map_eq_some_iff, ih]
    constructor
    · rintro ⟨v, hv, ws, hws, rfl⟩
      exact ⟨v, ws, hv, hws, rfl⟩
    · rintro ⟨v, ws, hv, hws, rfl⟩
      exact ⟨v, hv, ws, hws, rfl⟩

end Layout

/-- Zero, as the scalar operations have it, is the real number zero. -/
theorem lt_zero_iff_realOf {v : Float} (hv : v.isFinite = true) :
    v < (0.0 : Float) ↔ realOf v < 0 := by
  rw [lt_iff_realOf_lt hv (Reading.isFinite_iff.mpr ⟨_, _, ofFloat_zero⟩), realOf_zero]

namespace Formula

/-! ## Constants -/

section Constants

variable {α β : Type}

mutual

/-- The constants of a formula, from left to right. -/
def constants : Formula α → List α
  | .const c => [c]
  | .symbol _ => []
  | .sum ts => constantsEach ts
  | .product fs => constantsEach fs
  | .power b e => constants b ++ constants e
  | .exponential x => constants x

/-- The constants of several formulas. -/
def constantsEach : List (Formula α) → List α
  | [] => []
  | f :: fs => constants f ++ constantsEach fs

end

mutual

/-- The formula with other constants in the places of its own. -/
def mapConstants (g : α → β) : Formula α → Formula β
  | .const c => .const (g c)
  | .symbol s => .symbol s
  | .sum ts => .sum (mapConstantsEach g ts)
  | .product fs => .product (mapConstantsEach g fs)
  | .power b e => .power (mapConstants g b) (mapConstants g e)
  | .exponential x => .exponential (mapConstants g x)

/-- Several formulas with other constants. -/
def mapConstantsEach (g : α → β) : List (Formula α) → List (Formula β)
  | [] => []
  | f :: fs => mapConstants g f :: mapConstantsEach g fs

end

theorem mapConstantsEach_eq_map (g : α → β) (fs : List (Formula α)) :
    mapConstantsEach g fs = fs.map (mapConstants g) := by
  induction fs with
  | nil => rfl
  | cons f fs ih => rw [mapConstantsEach, List.map_cons, ih]

theorem constantsEach_eq_flatMap (fs : List (Formula α)) :
    constantsEach fs = fs.flatMap constants := by
  induction fs with
  | nil => rfl
  | cons f fs ih => rw [constantsEach, List.flatMap_cons, ih]

end Constants

/-! ## Formulas that can be written -/

/-- A normal formula with finite constants, and with names for symbols that a notation allows. -/
structure Writable (IsName : String → Prop) (f : Formula Float) : Prop where
  normal : f.IsNormal
  finite : ∀ c ∈ f.constants, c.isFinite = true
  named : ∀ s ∈ f.occurrences, IsName s

variable {IsName : String → Prop}

theorem writable_const_iff {c : Float} : (const c).Writable IsName ↔ c.isFinite = true := by
  constructor
  · exact fun h => h.finite c (List.mem_singleton_self c)
  · refine fun h => ⟨isNormal_const c, fun d hd => ?_,
      fun s hs => absurd hs List.not_mem_nil⟩
    obtain rfl := List.mem_singleton.mp hd
    exact h

/-- The members of a sum or a product can be written one by one. -/
theorem writable_members_iff {fs : List (Formula Float)} :
    ((∀ f ∈ fs, f.IsNormal) ∧ (∀ c ∈ constantsEach fs, c.isFinite = true) ∧
      ∀ s ∈ occurrencesEach fs, IsName s) ↔ ∀ f ∈ fs, f.Writable IsName := by
  rw [constantsEach_eq_flatMap, occurrencesEach_eq_flatMap, List.forall_mem_flatMap,
    List.forall_mem_flatMap]
  constructor
  · rintro ⟨hnormal, hfinite, hnamed⟩ f hf
    exact ⟨hnormal f hf, hfinite f hf, hnamed f hf⟩
  · intro h
    exact ⟨fun f hf => (h f hf).normal, fun f hf => (h f hf).finite, fun f hf => (h f hf).named⟩

theorem writable_sum_iff {ts : List (Formula Float)} :
    (sum ts).Writable IsName ↔ SumShape ts ∧ ∀ t ∈ ts, t.Writable IsName := by
  rw [← writable_members_iff]
  constructor
  · rintro ⟨hnormal, hfinite, hnamed⟩
    obtain ⟨hshape, hts⟩ := isNormal_sum_iff.mp hnormal
    exact ⟨hshape, hts, hfinite, hnamed⟩
  · rintro ⟨hshape, hts, hfinite, hnamed⟩
    exact ⟨isNormal_sum_iff.mpr ⟨hshape, hts⟩, hfinite, hnamed⟩

theorem writable_product_iff {fs : List (Formula Float)} :
    (product fs).Writable IsName ↔ ProductShape fs ∧ ∀ f ∈ fs, f.Writable IsName := by
  rw [← writable_members_iff]
  constructor
  · rintro ⟨hnormal, hfinite, hnamed⟩
    obtain ⟨hshape, hfs⟩ := isNormal_product_iff.mp hnormal
    exact ⟨hshape, hfs, hfinite, hnamed⟩
  · rintro ⟨hshape, hfs, hfinite, hnamed⟩
    exact ⟨isNormal_product_iff.mpr ⟨hshape, hfs⟩, hfinite, hnamed⟩

theorem writable_power_iff {b e : Formula Float} :
    (power b e).Writable IsName ↔ PowerShape b e ∧ b.Writable IsName ∧ e.Writable IsName := by
  constructor
  · rintro ⟨hnormal, hfinite, hnamed⟩
    obtain ⟨hshape, hb, he⟩ := isNormal_power_iff.mp hnormal
    rw [constants, List.forall_mem_append] at hfinite
    rw [occurrences, List.forall_mem_append] at hnamed
    exact ⟨hshape, ⟨hb, hfinite.1, hnamed.1⟩, ⟨he, hfinite.2, hnamed.2⟩⟩
  · rintro ⟨hshape, hb, he⟩
    refine ⟨isNormal_power_iff.mpr ⟨hshape, hb.normal, he.normal⟩, ?_, ?_⟩
    · rw [constants, List.forall_mem_append]
      exact ⟨hb.finite, he.finite⟩
    · rw [occurrences, List.forall_mem_append]
      exact ⟨hb.named, he.named⟩

theorem Writable.exponential {x : Formula Float} (h : (Formula.exponential x).Writable IsName) :
    x.Writable IsName := by
  obtain ⟨hnormal, hfinite, hnamed⟩ := h
  exact ⟨(isNormal_exponential_iff.mp hnormal).2, hfinite, hnamed⟩

/-! ## Values over the real numbers -/

/-- The value of a formula over the real numbers, with the real numbers of its constants. -/
abbrev RealValue (env : String → Option ℝ) (f : Formula Float) (v : ℝ) : Prop :=
  (f.mapConstants realOf).HasValue PowerDomain.real env v

variable {env : String → Option ℝ} {v : ℝ}

theorem realValue_const_iff {c : Float} : (const c).RealValue env v ↔ realOf c = v := by
  rw [RealValue, mapConstants, hasValue_const_iff]

theorem realValue_symbol_iff {s : String} :
    (symbol s : Formula Float).RealValue env v ↔ env s = some v := by
  rw [RealValue, mapConstants, hasValue_symbol_iff]

theorem realValue_sum_iff {ts : List (Formula Float)} :
    (sum ts).RealValue env v ↔ ∃ vs, List.Forall₂ (RealValue env) ts vs ∧ vs.sum = v := by
  simp only [RealValue, mapConstants, mapConstantsEach_eq_map, hasValue_sum_iff, HaveValues,
    List.forall₂_map_left_iff]

theorem realValue_product_iff {fs : List (Formula Float)} :
    (product fs).RealValue env v ↔ ∃ vs, List.Forall₂ (RealValue env) fs vs ∧ vs.prod = v := by
  simp only [RealValue, mapConstants, mapConstantsEach_eq_map, hasValue_product_iff, HaveValues,
    List.forall₂_map_left_iff]

/-- The value of a power is the power of real numbers, where it is defined. -/
theorem realValue_power_iff {b e : Formula Float} :
    (power b e).RealValue env v ↔ ∃ x y, b.RealValue env x ∧ e.RealValue env y ∧
      PowerDomain.real.holds x y ∧ x ^ y = v := by
  have hpower : ∀ x y : ℝ, PowerDomain.real.holds x y → Scalar.power x y = x ^ y :=
    fun x y hxy => PowerDomain.real.power_eq_pow hxy
  rw [RealValue, mapConstants, hasValue_power_iff]
  constructor
  · rintro ⟨x, y, hx, hy, hxy, rfl⟩
    exact ⟨x, y, hx, hy, hxy, (hpower x y hxy).symm⟩
  · rintro ⟨x, y, hx, hy, hxy, rfl⟩
    exact ⟨x, y, hx, hy, hxy, hpower x y hxy⟩

theorem realValue_exponential_iff {x : Formula Float} :
    (exponential x).RealValue env v ↔ ∃ y, x.RealValue env y ∧ Real.exp y = v := by
  rw [RealValue, mapConstants, hasValue_exponential_iff]
  exact Iff.rfl

/-- The value of a formula depends only on the values of the symbols that occur in it. -/
theorem realValue_congr {env' : String → Option ℝ} {f : Formula Float}
    (h : ∀ s ∈ f.occurrences, env' s = env s) (hv : f.RealValue env v) : f.RealValue env' v := by
  have hmembers : ∀ {fs : List (Formula Float)} {vs : List ℝ},
      (∀ f ∈ fs, ∀ w, f.RealValue env w → f.RealValue env' w) →
        List.Forall₂ (RealValue env) fs vs → List.Forall₂ (RealValue env') fs vs := by
    intro fs vs hfs hvs
    obtain ⟨hlength, hzip⟩ := List.forall₂_iff_zip.mp hvs
    exact List.forall₂_iff_zip.mpr
      ⟨hlength, fun hmem => hfs _ (List.of_mem_zip hmem).1 _ (hzip hmem)⟩
  induction f generalizing v with
  | const c => exact realValue_const_iff.mpr (realValue_const_iff.mp hv)
  | symbol s =>
    rw [realValue_symbol_iff, h s (List.mem_singleton_self s)]
    exact realValue_symbol_iff.mp hv
  | sum ts ih =>
    obtain ⟨vs, hvs, rfl⟩ := realValue_sum_iff.mp hv
    refine realValue_sum_iff.mpr ⟨vs, hmembers (fun t ht w hw => ih t ht ?_ hw) hvs, rfl⟩
    exact fun s hs => h s (mem_occurrences_sum.mpr ⟨t, ht, hs⟩)
  | product fs ih =>
    obtain ⟨vs, hvs, rfl⟩ := realValue_product_iff.mp hv
    refine realValue_product_iff.mpr ⟨vs, hmembers (fun f hf w hw => ih f hf ?_ hw) hvs, rfl⟩
    exact fun s hs => h s (mem_occurrences_product.mpr ⟨f, hf, hs⟩)
  | power b e ihb ihe =>
    obtain ⟨x, y, hx, hy, hxy, rfl⟩ := realValue_power_iff.mp hv
    refine realValue_power_iff.mpr
      ⟨x, y, ihb (fun s hs => ?_) hx, ihe (fun s hs => ?_) hy, hxy, rfl⟩
    · exact h s (mem_occurrences_power.mpr (Or.inl hs))
    · exact h s (mem_occurrences_power.mpr (Or.inr hs))
  | exponential x ih =>
    obtain ⟨y, hy, rfl⟩ := realValue_exponential_iff.mp hv
    exact realValue_exponential_iff.mpr ⟨y, ih h hy, rfl⟩

/-! ## Constants as real numbers -/

theorem beq_one_iff {c : Float} (hc : c.isFinite = true) :
    (c == (1.0 : Float)) = true ↔ realOf c = 1 := by
  rw [beq_iff_realOf_eq hc realOf_one.2, realOf_one.1]

theorem beq_zero_iff {c : Float} (hc : c.isFinite = true) :
    (c == (0.0 : Float)) = true ↔ realOf c = 0 := by
  rw [beq_iff_realOf_eq hc (Reading.isFinite_iff.mpr ⟨_, _, ofFloat_zero⟩), realOf_zero]

theorem beq_neg_one_iff {c : Float} (hc : c.isFinite = true) :
    (c == -(1.0 : Float)) = true ↔ realOf c = -1 := by
  obtain ⟨hreal, hfinite⟩ := realOf_neg realOf_one.2
  rw [beq_iff_realOf_eq hc hfinite, hreal, realOf_one.1]

theorem beq_half_iff {c : Float} (hc : c.isFinite = true) :
    (c == (0.5 : Float)) = true ↔ realOf c = 1 / 2 := by
  have hread : Reading.ofFloat 0.5 = .finite false ⟨2 ^ 52, -53⟩ := by decide +kernel
  have hreal : realOf 0.5 = 1 / 2 := by
    rw [realOf_of_ofFloat hread, signedValue, if_neg (by decide), Dyadic.value]
    norm_num
  rw [beq_iff_realOf_eq hc (Reading.isFinite_iff.mpr ⟨_, _, hread⟩), hreal]

/-- Folding minus one into a constant only changes its sign. -/
theorem realOf_one_mul_neg_one_mul {c : Float} (hc : c.isFinite = true) :
    realOf (1.0 * -1.0 * c) = -realOf c ∧ (1.0 * -1.0 * c).isFinite = true := by
  have hone : (1.0 : Float) * -1.0 = -1 := by
    have hread : Reading.ofFloat (1.0 * -1.0) = .finite true ⟨2 ^ 52, -52⟩ := by decide +kernel
    have hread' : Reading.ofFloat (-1) = .finite true ⟨2 ^ 52, -52⟩ := by decide +kernel
    exact Reading.eq_of_ofFloat_eq hread hread'
  rw [hone]
  exact realOf_neg_one_mul hc

/-- Whether a double is a small integer does not depend on its sign. -/
theorem isInteger_of_isInteger_neg {c : Float} (hc : c.isFinite = true)
    (h : Scalar.isInteger (-c) = true) : Scalar.isInteger c = true := by
  obtain ⟨hreal, hsmall, -⟩ := realOf_eq_toInt h
  refine isInteger_of_realOf_eq (n := -Scalar.toInt (-c)) hc (by omega) ?_
  have hneg : realOf (-c) = -realOf c := (realOf_neg hc).1
  rw [Int.cast_neg, ← hreal, hneg, neg_neg]

/-! ## Weights -/

theorem weight_le_weightEach {f : Formula Float} {fs : List (Formula Float)} (h : f ∈ fs) :
    weight f + 2 ≤ weightEach fs := by
  induction fs with
  | nil => exact absurd h List.not_mem_nil
  | cons g fs ih =>
    rw [weightEach]
    rcases List.mem_cons.mp h with rfl | h
    · omega
    · have hle := ih h
      omega

/-- A power weighs more than its base, and more than its exponent. -/
theorem weight_lt_power (b e : Formula Float) :
    weight b < weight (power b e) ∧ weight e < weight (power b e) := by
  cases e with
  | const c =>
    rw [weight, weight]
    split <;> omega
  | symbol s | sum ts | product fs | power c d | exponential x =>
    constructor <;> simp only [weight] <;> omega

theorem weight_pos (f : Formula Float) : 0 < weight f := by
  cases f with
  | const c | symbol s | sum ts | product fs | exponential x =>
    rw [weight]
    omega
  | power b e =>
    have hlt := (weight_lt_power b e).1
    omega

/-! ## Powers that go below a fraction bar -/

/-- A power that is defined at a negative exponent is the reciprocal of the power at the positive
one. -/
theorem rpow_neg_of_holds {x y : ℝ} (h : PowerDomain.real.holds x y) (hy : y < 0) :
    x ^ y ≠ 0 ∧ PowerDomain.real.holds x (-y) ∧ x ^ (-y) = (x ^ y)⁻¹ := by
  rcases h with ⟨n, rfl, hn⟩ | hpos | ⟨-, hpos⟩
  · have hneg : n < 0 := by exact_mod_cast hy
    have hx : x ≠ 0 := hn.resolve_right (by omega)
    rw [← Int.cast_neg, Real.rpow_intCast, Real.rpow_intCast, zpow_neg]
    exact ⟨zpow_ne_zero n hx, Or.inl ⟨-n, rfl, Or.inl hx⟩, rfl⟩
  · exact ⟨(Real.rpow_pos_of_pos hpos y).ne', Or.inr (Or.inl hpos), Real.rpow_neg hpos.le y⟩
  · exact absurd hpos (not_lt.mpr hy.le)

/-- The power at exponent one is the base. -/
theorem powConst_eq_self {α : Type} [Scalar α] {f : Formula α} {e : α} (hzero : ¬(e == 0) = true)
    (hone : (e == 1) = true) : powConst f e = f := by
  induction f, e using powConst_induction with
  | zero f e h => exact absurd h hzero
  | one f e _ _ => rfl
  | const b e _ h | product fs e _ h _ _ | power b i e _ h _ _ _ | other f e _ h _ _ =>
    exact absurd hone h

/-- What stands below a fraction bar for a formula above it: it is a single factor, it weighs less,
and its value is the reciprocal. -/
structure Below (IsName : String → Prop) (g d : Formula Float) : Prop where
  writable : d.Writable IsName
  not_isProduct : ¬d.IsProduct
  weight_lt : weight d < weight g
  realValue : ∀ env v, g.RealValue env v → v ≠ 0 ∧ d.RealValue env v⁻¹

/-- The power at the opposite of a negative exponent is the base, or it is left as it is. -/
theorem powConst_neg_eq_or {b : Formula Float} {n : Float}
    (h : (power b (.const n)).Writable IsName) (hneg : realOf n < 0) :
    (-n == (1.0 : Float)) = true ∧ powConst b (-n) = b ∨
      powConst b (-n) = .power b (.const (-n)) := by
  obtain ⟨hshape, -, hn⟩ := writable_power_iff.mp h
  have hfinite := writable_const_iff.mp hn
  obtain ⟨hreal, hfinite'⟩ := realOf_neg hfinite
  have hconst : b.const? = none := hshape.not_both_const.resolve_right (by simp)
  have hzero : ¬(-n == (0.0 : Float)) = true := by
    rw [beq_zero_iff hfinite', hreal]
    linarith
  have hbase : Scalar.isInteger (-n) = true → b.Unmerged := fun hint =>
    have hint' := isInteger_of_isInteger_neg hfinite hint
    ⟨hshape.base_not_isProduct n rfl hint', hshape.base_not_integer_power n rfl hint'⟩
  by_cases hone : (-n == (1.0 : Float)) = true
  · exact Or.inl ⟨hone, powConst_eq_self hzero hone⟩
  · exact Or.inr (powConst_eq_power hzero hone hconst hbase)

/-- A power with a negative exponent has the positive power below. -/
theorem below_powConst {b : Formula Float} {n : Float} (h : (power b (.const n)).Writable IsName)
    (hneg : realOf n < 0) : Below IsName (power b (.const n)) (powConst b (-n)) := by
  obtain ⟨hshape, hb, hn⟩ := writable_power_iff.mp h
  have hfinite := writable_const_iff.mp hn
  obtain ⟨hreal, hfinite'⟩ := realOf_neg hfinite
  have hvalue : ∀ env v, (power b (.const n)).RealValue env v →
      ∃ x, b.RealValue env x ∧ v ≠ 0 ∧ PowerDomain.real.holds x (realOf (-n)) ∧
        x ^ realOf (-n) = v⁻¹ := by
    intro env v hv
    obtain ⟨x, y, hx, hy, hxy, rfl⟩ := realValue_power_iff.mp hv
    obtain rfl := realValue_const_iff.mp hy
    obtain ⟨hne, hholds, hpow⟩ := rpow_neg_of_holds hxy hneg
    rw [hreal]
    exact ⟨x, hx, hne, hholds, hpow⟩
  have hweight : weight (power b (.const n)) = 4 + 3 * weight b := by
    have hlt : n < (0.0 : Float) := (lt_zero_iff_realOf hfinite).mpr hneg
    rw [weight]
    exact congrArg (· + 3 * weight b) (if_pos hlt)
  rcases powConst_neg_eq_or h hneg with ⟨hone, hself⟩ | hpower
  · have hminus : realOf n = ((-1 : ℤ) : ℝ) := by
      rw [beq_one_iff hfinite', hreal] at hone
      rw [Int.cast_neg, Int.cast_one, ← hone, neg_neg]
    have hint : Scalar.isInteger n = true :=
      isInteger_of_realOf_eq hfinite (by norm_num) hminus
    rw [hself]
    refine ⟨hb, hshape.base_not_isProduct n rfl hint, by omega, ?_⟩
    intro env v hv
    obtain ⟨x, hx, hne, -, hpow⟩ := hvalue env v hv
    rw [(beq_one_iff hfinite').mp hone, Real.rpow_one] at hpow
    rw [← hpow]
    exact ⟨hne, hx⟩
  · have hnormal := isNormal_powConst (-n) hb.normal
    rw [hpower] at hnormal ⊢
    refine ⟨writable_power_iff.mpr ⟨(isNormal_power_iff.mp hnormal).1, hb,
      writable_const_iff.mpr hfinite'⟩, id, ?_, ?_⟩
    · have hweight' : weight (power b (.const (-n))) = 3 + 3 * weight b := by
        have hlt : ¬-n < (0.0 : Float) := by
          rw [lt_zero_iff_realOf hfinite', hreal]
          linarith
        rw [weight]
        exact congrArg (· + 3 * weight b) (if_neg hlt)
      omega
    · intro env v hv
      obtain ⟨x, hx, hne, hholds, hpow⟩ := hvalue env v hv
      exact ⟨hne, realValue_power_iff.mpr
        ⟨x, realOf (-n), hx, realValue_const_iff.mpr rfl, hholds, hpow⟩⟩

/-- A factor that belongs below the bar is the reciprocal of what it leaves there. -/
theorem below_of_below? {g d : Formula Float} (hg : g.Writable IsName) (h : g.below? = some d) :
    Below IsName g d := by
  unfold below? at h
  split at h
  · rename_i b n
    split at h
    · rename_i hlt
      obtain rfl := Option.some.inj h
      have hn := writable_const_iff.mp (writable_power_iff.mp hg).2.2
      exact below_powConst hg ((lt_zero_iff_realOf hn).mp hlt)
    · exact absurd h (by simp)
  · exact absurd h (by simp)

/-! ## Minus signs -/

/-- Factors without a product around them, if there is only one. -/
theorem writable_ofFactors {fs : List (Formula Float)} (hne : fs ≠ [])
    (hnormal : (ofFactors fs).IsNormal) (h : ∀ f ∈ fs, f.Writable IsName) :
    (ofFactors fs).Writable IsName := by
  match fs with
  | [] => exact absurd rfl hne
  | [f] => exact h f (List.mem_singleton_self f)
  | f :: g :: fs => exact writable_product_iff.mpr ⟨(isNormal_product_iff.mp hnormal).1, h⟩

theorem weight_ofFactors_le {fs : List (Formula Float)} (hne : fs ≠ []) :
    weight (ofFactors fs) ≤ 1 + weightEach fs := by
  match fs with
  | [] => exact absurd rfl hne
  | [f] =>
    rw [ofFactors, weightEach, weightEach]
    omega
  | f :: g :: fs => rw [ofFactors_of_two_le (by simp), weight]

theorem realValue_ofFactors {env : String → Option ℝ} {fs : List (Formula Float)} {vs : List ℝ}
    (hne : fs ≠ []) (h : List.Forall₂ (RealValue env) fs vs) :
    (ofFactors fs).RealValue env vs.prod := by
  match fs, h with
  | [], _ => exact absurd rfl hne
  | [f], h =>
    obtain ⟨v, ws, hv, hws, rfl⟩ := List.forall₂_cons_left_iff.mp h
    rw [List.forall₂_nil_left_iff.mp hws, List.prod_singleton]
    exact hv
  | f :: g :: fs, h => exact realValue_product_iff.mpr ⟨vs, h, rfl⟩

/-- The constant that leads a product is a factor of its value. -/
theorem exists_values_rest {env : String → Option ℝ} {c : Float} {rest : List (Formula Float)}
    {vs : List ℝ} (h : List.Forall₂ (RealValue env) (const c :: rest) vs) :
    ∃ ws, List.Forall₂ (RealValue env) rest ws ∧ vs.prod = realOf c * ws.prod := by
  obtain ⟨w, ws, hw, hws, rfl⟩ := List.forall₂_cons_left_iff.mp h
  rw [List.prod_cons, realValue_const_iff.mp hw]
  exact ⟨ws, hws, rfl⟩

/-- The factors of a negated product: minus one is folded into the constant that leads it. -/
theorem neg_product_eq {c : Float} {rest : List (Formula Float)}
    (hshape : ProductShape (const c :: rest)) (hc : c.isFinite = true) (hneg : realOf c < 0) :
    -(product (const c :: rest)) =
      ofFactors (if 1.0 * -1.0 * c == (1.0 : Float) then rest
        else const (1.0 * -1.0 * c) :: rest) := by
  obtain ⟨hreal, hfinite⟩ := realOf_one_mul_neg_one_mul hc
  have hconst : ∀ f ∈ rest, f.const? = none := hshape.const_first
  have hspliced : [const (-1.0), product (const c :: rest)].flatMap factors =
      const (-1.0) :: const c :: rest := by simp [factors]
  have hzero : ¬(1.0 * -1.0 * c == (0.0 : Float)) = true := by
    rw [beq_zero_iff hfinite, hreal]
    linarith
  have hproduct : -(product (const c :: rest)) =
      productOf [const (-1.0), product (const c :: rest)] := rfl
  have hconsts : (const (-1.0) :: const c :: rest).filterMap const? = [-1.0, c] := by
    rw [List.filterMap_cons_some (const?_const _), List.filterMap_cons_some (const?_const _),
      filterMap_const?_eq_nil hconst]
  have hothers : (const (-1.0) :: const c :: rest).filter (·.const?.isNone) = rest := by
    rw [List.filter_cons_of_neg (by simp), List.filter_cons_of_neg (by simp),
      filter_isNone_eq_self hconst]
  rw [hproduct, productOf, hspliced, hconsts, hothers]
  exact if_neg hzero

/-- The negative of a product with a negative constant in front has the negative value. -/
theorem neg_product_spec {c : Float} {rest : List (Formula Float)}
    (h : (product (const c :: rest)).Writable IsName) (hneg : realOf c < 0) :
    (-(product (const c :: rest))).Writable IsName ∧
      weight (-(product (const c :: rest))) ≤ weight (product (const c :: rest)) ∧
      ∀ env v, (product (const c :: rest)).RealValue env v →
        (-(product (const c :: rest))).RealValue env (-v) := by
  obtain ⟨hshape, hfs⟩ := writable_product_iff.mp h
  obtain ⟨hconst, hrest⟩ := List.forall_mem_cons.mp hfs
  have hc := writable_const_iff.mp hconst
  obtain ⟨hreal, hfinite⟩ := realOf_one_mul_neg_one_mul hc
  have hne : rest ≠ [] := by
    rintro rfl
    exact absurd hshape.two_le_length (by simp)
  have hnormal := isNormal_neg h.normal
  rw [neg_product_eq hshape hc hneg] at hnormal ⊢
  have hweight : weight (product (const c :: rest)) = 1 + (1 + 2 + weightEach rest) := by
    rw [weight, weightEach, weight]
  have hvalue : ∀ env v, (product (const c :: rest)).RealValue env v →
      ∃ ws, List.Forall₂ (RealValue env) rest ws ∧ v = realOf c * ws.prod := by
    intro env v hv
    obtain ⟨vs, hvs, rfl⟩ := realValue_product_iff.mp hv
    exact exists_values_rest hvs
  split
  · rename_i hone
    rw [if_pos hone] at hnormal
    rw [beq_one_iff hfinite, hreal] at hone
    refine ⟨writable_ofFactors hne hnormal hrest, ?_, ?_⟩
    · have hle := weight_ofFactors_le hne
      omega
    · intro env v hv
      obtain ⟨ws, hws, hprod⟩ := hvalue env v hv
      have hv' : -v = ws.prod := by
        rw [hprod, ← neg_mul, hone, one_mul]
      rw [hv']
      exact realValue_ofFactors hne hws
  · rename_i hone
    rw [if_neg hone] at hnormal
    have hne' : const (1.0 * -1.0 * c) :: rest ≠ [] := List.cons_ne_nil _ _
    refine ⟨writable_ofFactors hne' hnormal (List.forall_mem_cons.mpr
      ⟨writable_const_iff.mpr hfinite, hrest⟩), ?_, ?_⟩
    · have hle := weight_ofFactors_le hne'
      rw [weightEach, weight] at hle
      omega
    · intro env v hv
      obtain ⟨ws, hws, hprod⟩ := hvalue env v hv
      have hv' : -v = (realOf (1.0 * -1.0 * c) :: ws).prod := by
        rw [List.prod_cons, hreal, neg_mul, hprod]
      rw [hv']
      exact realValue_ofFactors hne' (.cons (realValue_const_iff.mpr rfl) hws)

/-- What stands behind the sign of a term: it weighs no more than the term, and the sign gives it
the value of the term. -/
theorem unsigned_spec {t : Formula Float} (h : t.Writable IsName) :
    (unsigned t).Writable IsName ∧ weight (unsigned t) ≤ weight t ∧
      ∀ env v, t.RealValue env v →
        ∃ w, (unsigned t).RealValue env w ∧ Layout.signed (isNegative t) w = v := by
  rw [unsigned]
  cases hnegative : isNegative t with
  | false =>
    rw [if_neg Bool.false_ne_true]
    exact ⟨h, le_rfl, fun env v hv => ⟨v, hv, if_neg Bool.false_ne_true⟩⟩
  | true =>
    rw [if_pos rfl]
    unfold isNegative at hnegative
    split at hnegative
    · rename_i c
      have hc := writable_const_iff.mp h
      obtain ⟨hreal, hfinite⟩ := realOf_neg hc
      rw [negated]
      refine ⟨writable_const_iff.mpr hfinite, by rw [weight, weight], ?_⟩
      intro env v hv
      obtain rfl := realValue_const_iff.mp hv
      refine ⟨_, realValue_const_iff.mpr hreal, ?_⟩
      rw [Layout.signed, if_pos rfl, neg_neg]
    · rename_i c rest
      have hc := writable_const_iff.mp ((writable_product_iff.mp h).2 _ List.mem_cons_self)
      have hneg := (lt_zero_iff_realOf hc).mp (of_decide_eq_true hnegative)
      obtain ⟨hwritable, hweight, hvalue⟩ := neg_product_spec h hneg
      rw [negated]
      · refine ⟨hwritable, hweight, fun env v hv => ⟨-v, hvalue env v hv, ?_⟩⟩
        rw [Layout.signed, if_pos rfl, neg_neg]
      · exact fun _ hconst => absurd hconst (by simp)
    · exact absurd hnegative Bool.false_ne_true

/-- A product with a sign has a negative constant in front. -/
theorem exists_of_leadingMinus?_eq {fs : List (Formula Float)} {c : Float}
    (h : leadingMinus? fs = some c) : ∃ rest, fs = const c :: rest ∧ c < (0.0 : Float) := by
  unfold leadingMinus? at h
  split at h
  · rename_i d rest
    split at h
    · rename_i hlt
      obtain rfl := Option.some.inj h
      exact ⟨rest, rfl, hlt⟩
    · exact absurd h (by simp)
  · exact absurd h (by simp)

/-- The factors behind the sign of a product: each weighs no more than the product allows, and the
sign gives them the value of the product. -/
theorem unsignedFactors_spec {fs : List (Formula Float)} (h : (product fs).Writable IsName) :
    (∀ f ∈ unsignedFactors fs, f.Writable IsName) ∧
      weightEach (unsignedFactors fs) ≤ weightEach fs ∧
      ∀ env vs, List.Forall₂ (RealValue env) fs vs →
        ∃ ws, List.Forall₂ (RealValue env) (unsignedFactors fs) ws ∧
          Layout.signed (leadingMinus? fs).isSome ws.prod = vs.prod := by
  obtain ⟨-, hfs⟩ := writable_product_iff.mp h
  rw [unsignedFactors]
  cases hminus : leadingMinus? fs with
  | none => exact ⟨hfs, le_rfl, fun env vs hvs => ⟨vs, hvs, if_neg Bool.false_ne_true⟩⟩
  | some c =>
    obtain ⟨rest, rfl, hlt⟩ := exists_of_leadingMinus?_eq hminus
    obtain ⟨hconst, hrest⟩ := List.forall_mem_cons.mp hfs
    have hc := writable_const_iff.mp hconst
    obtain ⟨hreal, hfinite⟩ := realOf_neg hc
    dsimp only
    rw [List.drop_one, List.tail_cons, weightEach, weight]
    split
    · rename_i hone
      refine ⟨hrest, by omega, ?_⟩
      intro env vs hvs
      obtain ⟨ws, hws, hprod⟩ := exists_values_rest hvs
      refine ⟨ws, hws, ?_⟩
      rw [hprod, (beq_neg_one_iff hc).mp hone, Layout.signed, Option.isSome_some, if_pos rfl,
        neg_one_mul]
    · rw [weightEach, weight]
      refine ⟨List.forall_mem_cons.mpr ⟨writable_const_iff.mpr hfinite, hrest⟩, le_rfl,
        ?_⟩
      intro env vs hvs
      obtain ⟨ws, hws, hprod⟩ := exists_values_rest hvs
      refine ⟨_, .cons (realValue_const_iff.mpr hreal) hws, ?_⟩
      rw [hprod, List.prod_cons, Layout.signed, Option.isSome_some, if_pos rfl, neg_mul, neg_neg]

/-- What stands behind the sign of a term weighs less than the sum. -/
theorem weight_unsigned_lt {ts : List (Formula Float)} {t : Formula Float}
    (h : t.Writable IsName) (ht : t ∈ ts) : weight (unsigned t) < weight (sum ts) := by
  have hunsigned := (unsigned_spec h).2.1
  have hle := weight_le_weightEach ht
  rw [weight]
  omega

/-- The factors behind the sign of a product weigh less than the product. -/
theorem weight_lt_of_mem_unsignedFactors {fs : List (Formula Float)} {f : Formula Float}
    (h : (product fs).Writable IsName) (hf : f ∈ unsignedFactors fs) :
    weight f < weight (product fs) := by
  have heach := (unsignedFactors_spec h).2.1
  have hle := weight_le_weightEach hf
  rw [weight]
  omega

/-! ## Layouts -/

/-- The factors above and below a fraction bar have the value of all of them. -/
theorem exists_values_above_below {env : String → Option ℝ} {fs : List (Formula Float)}
    {vs : List ℝ} (hfs : ∀ f ∈ fs, f.Writable IsName) (hvs : List.Forall₂ (RealValue env) fs vs) :
    ∃ as bs, List.Forall₂ (RealValue env) (fs.filter (·.below?.isNone)) as ∧
      List.Forall₂ (RealValue env) (fs.filterMap below?) bs ∧ bs.prod ≠ 0 ∧
      as.prod / bs.prod = vs.prod := by
  induction hvs with
  | nil => exact ⟨[], [], .nil, .nil, by simp, by simp⟩
  | @cons f v fs vs hv hvs ih =>
    obtain ⟨hf, hrest⟩ := List.forall_mem_cons.mp hfs
    obtain ⟨as, bs, has, hbs, hne, hprod⟩ := ih hrest
    cases hbelow : f.below? with
    | none =>
      refine ⟨v :: as, bs, ?_, ?_, hne, ?_⟩
      · rw [List.filter_cons_of_pos (by simp [hbelow])]
        exact .cons hv has
      · rw [List.filterMap_cons_none hbelow]
        exact hbs
      · rw [List.prod_cons, List.prod_cons, mul_div_assoc, hprod]
    | some d =>
      obtain ⟨hv', hd⟩ := (below_of_below? hf hbelow).realValue env v hv
      refine ⟨as, v⁻¹ :: bs, ?_, ?_, ?_, ?_⟩
      · rw [List.filter_cons_of_neg (by simp [hbelow])]
        exact has
      · rw [List.filterMap_cons_some hbelow]
        exact .cons hd hbs
      · rw [List.prod_cons]
        exact mul_ne_zero (inv_ne_zero hv') hne
      · rw [List.prod_cons, List.prod_cons, ← hprod]
        field_simp

/-- The terms of a sum behind their signs have the values that the signs give them back. -/
theorem exists_values_unsigned {env : String → Option ℝ} {ts : List (Formula Float)} {vs : List ℝ}
    (hts : ∀ t ∈ ts, t.Writable IsName) (hvs : List.Forall₂ (RealValue env) ts vs) :
    ∃ ws, List.Forall₂ (RealValue env) (ts.map unsigned) ws ∧
      List.zipWith Layout.signed (ts.map isNegative) ws = vs := by
  induction hvs with
  | nil => exact ⟨[], .nil, rfl⟩
  | cons hv hvs ih =>
    obtain ⟨ht, hrest⟩ := List.forall_mem_cons.mp hts
    obtain ⟨ws, hws, hsigned⟩ := ih hrest
    obtain ⟨w, hw, hsign⟩ := (unsigned_spec ht).2.2 env _ hv
    refine ⟨w :: ws, .cons hw hws, ?_⟩
    rw [List.map_cons, List.zipWith_cons_cons, hsign, hsigned]

/-- A layout of a formula: it can be printed, and has the value of the formula. -/
structure LaysOut (IsName : String → Prop) (l : Layout Float) (f : Formula Float) : Prop where
  printable : l.Printable IsName
  value?_eq : ∀ env v, f.RealValue env v → l.value? env = some v

/-- Layouts of several formulas have their values. -/
theorem values?_map {env : String → Option ℝ} {fs : List (Formula Float)} {vs : List ℝ}
    {layoutOf : Formula Float → Layout Float} (h : ∀ f ∈ fs, LaysOut IsName (layoutOf f) f)
    (hvs : List.Forall₂ (RealValue env) fs vs) :
    Layout.values? env (fs.map layoutOf) = some vs := by
  rw [Layout.values?_eq_some_iff, List.forall₂_map_left_iff]
  induction hvs with
  | nil => exact .nil
  | cons hv hvs ih =>
    obtain ⟨hf, hfs⟩ := List.forall_mem_cons.mp h
    exact .cons (hf.value?_eq _ _ hv) (ih hfs)

/-- The forms of powers keep their values: repeated factors stand for a positive integer exponent,
a reciprocal for a negative exponent and a root for one half. -/
def Suits (form : Float → PowerForm) : Prop :=
  ∀ n : Float, n.isFinite = true →
    (∃ k : ℕ, form n = .repeated k ∧ 0 < k ∧ realOf n = k) ∨
      (form n = .reciprocal ∧ realOf n < 0) ∨
      (form n = .root ∧ realOf n = 1 / 2) ∨
      form n = .power

section Steps

variable {layoutOf : Formula Float → Layout Float}

/-- The formulas that weigh less are laid out. -/
def LaidOutBelow (IsName : String → Prop) (layoutOf : Formula Float → Layout Float)
    (f : Formula Float) : Prop :=
  ∀ g : Formula Float, g.Writable IsName → weight g < weight f → LaysOut IsName (layoutOf g) g

/-- The layout of a sum, from those of its terms behind their signs. -/
theorem laysOut_sum {ts : List (Formula Float)} (h : (sum ts).Writable IsName)
    (hbelow : LaidOutBelow IsName layoutOf (sum ts)) :
    LaysOut IsName (.sum (ts.map isNegative) (ts.map fun t => layoutOf (unsigned t))) (sum ts) := by
  obtain ⟨hshape, hts⟩ := writable_sum_iff.mp h
  have hterm : ∀ t ∈ ts, LaysOut IsName (layoutOf (unsigned t)) (unsigned t) := by
    intro t ht
    exact hbelow _ (unsigned_spec (hts t ht)).1 (weight_unsigned_lt (hts t ht) ht)
  have hmap : (ts.map fun t => layoutOf (unsigned t)) = (ts.map unsigned).map layoutOf := by
    rw [List.map_map]
    rfl
  rw [hmap]
  refine ⟨⟨?_, by simp, ?_⟩, ?_⟩
  · have htwo := hshape.two_le_length
    rintro hnil
    rw [List.map_eq_nil_iff, List.map_eq_nil_iff] at hnil
    simp [hnil] at htwo
  · rw [Layout.allPrintable_iff, List.forall_mem_map, List.forall_mem_map]
    exact fun t ht => (hterm t ht).printable
  · intro env v hv
    obtain ⟨vs, hvs, rfl⟩ := realValue_sum_iff.mp hv
    obtain ⟨ws, hws, hsigned⟩ := exists_values_unsigned hts hvs
    rw [Layout.value?, values?_map (List.forall_mem_map.mpr hterm) hws, Option.map_some, hsigned]

/-- The layout of a product, from those of its factors above and below the bar. -/
theorem laysOut_product {fs : List (Formula Float)} (h : (product fs).Writable IsName)
    (hlaid : LaidOutBelow IsName layoutOf (product fs)) :
    LaysOut IsName (.quotient (leadingMinus? fs).isSome
      (((unsignedFactors fs).filter (·.below?.isNone)).map layoutOf)
      (((unsignedFactors fs).filterMap below?).map layoutOf)) (product fs) := by
  obtain ⟨hwritable, -, hvalue⟩ := unsignedFactors_spec h
  have hlt : ∀ f ∈ unsignedFactors fs, weight f < weight (product fs) := fun _ hf =>
    weight_lt_of_mem_unsignedFactors h hf
  have habove : ∀ f ∈ (unsignedFactors fs).filter (·.below?.isNone),
      LaysOut IsName (layoutOf f) f := by
    intro f hf
    have hmem := List.mem_of_mem_filter hf
    exact hlaid f (hwritable f hmem) (hlt f hmem)
  have hbelow : ∀ d ∈ (unsignedFactors fs).filterMap below?, LaysOut IsName (layoutOf d) d := by
    intro d hd
    obtain ⟨f, hf, hfd⟩ := List.mem_filterMap.mp hd
    have hd' := below_of_below? (hwritable f hf) hfd
    exact hlaid d hd'.writable (hd'.weight_lt.trans (hlt f hf))
  refine ⟨⟨?_, ?_⟩, ?_⟩
  · rw [Layout.allPrintable_iff, List.forall_mem_map]
    exact fun f hf => (habove f hf).printable
  · rw [Layout.allPrintable_iff, List.forall_mem_map]
    exact fun d hd => (hbelow d hd).printable
  · intro env v hv
    obtain ⟨vs, hvs, rfl⟩ := realValue_product_iff.mp hv
    obtain ⟨ws, hws, hsigned⟩ := hvalue env vs hvs
    obtain ⟨as, bs, has, hbs, hne, hquotient⟩ := exists_values_above_below hwritable hws
    rw [Layout.value?, values?_map habove has, values?_map hbelow hbs, Option.bind_some,
      Option.bind_some, if_neg hne, hquotient, hsigned]

/-- The layout of a power that is left as it is. -/
theorem laysOut_power {b e : Formula Float} (hbase : LaysOut IsName (layoutOf b) b)
    (hexponent : LaysOut IsName (layoutOf e) e) :
    LaysOut IsName (.power (layoutOf b) (layoutOf e)) (power b e) := by
  refine ⟨⟨hbase.printable, hexponent.printable⟩, ?_⟩
  intro env v hv
  obtain ⟨x, y, hx, hy, hxy, rfl⟩ := realValue_power_iff.mp hv
  rw [Layout.value?, hbase.value?_eq env x hx, hexponent.value?_eq env y hy, Option.bind_some,
    Option.bind_some, if_pos hxy]

/-- The layout of a power at a constant exponent, in the form that the exponent has. -/
theorem laysOut_power_const {form : Float → PowerForm} (hform : Suits form) {b : Formula Float}
    {n : Float} (h : (power b (.const n)).Writable IsName)
    (hlaid : LaidOutBelow IsName layoutOf (power b (.const n))) :
    LaysOut IsName (match form n with
      | .reciprocal => .reciprocal (layoutOf (powConst b (-n)))
      | .root => .root (layoutOf b)
      | .repeated count => .repeated (layoutOf b) count
      | .power => .power (layoutOf b) (layoutOf (.const n))) (power b (.const n)) := by
  obtain ⟨-, hb, he⟩ := writable_power_iff.mp h
  obtain ⟨hlt, hlt'⟩ := weight_lt_power b (.const n)
  have hbase := hlaid b hb hlt
  have hn := writable_const_iff.mp he
  have hvalue : ∀ env v, (power b (.const n)).RealValue env v → ∃ x, b.RealValue env x ∧
      PowerDomain.real.holds x (realOf n) ∧ x ^ realOf n = v := by
    intro env v hv
    obtain ⟨x, y, hx, hy, hxy, hpow⟩ := realValue_power_iff.mp hv
    obtain rfl := realValue_const_iff.mp hy
    exact ⟨x, hx, hxy, hpow⟩
  rcases hform n hn with ⟨k, hform, hk, hreal⟩ | ⟨hform, hneg⟩ | ⟨hform, hreal⟩ | hform
  · rw [hform]
    refine ⟨⟨hk, hbase.printable⟩, ?_⟩
    intro env v hv
    obtain ⟨x, hx, -, rfl⟩ := hvalue env v hv
    rw [Layout.value?, hbase.value?_eq env x hx, hreal, Real.rpow_natCast]
    rfl
  · rw [hform]
    have hpow := below_powConst h hneg
    have hlayout := hlaid _ hpow.writable hpow.weight_lt
    refine ⟨hlayout.printable, ?_⟩
    intro env v hv
    obtain ⟨hne, hinv⟩ := hpow.realValue env v hv
    rw [Layout.value?, hlayout.value?_eq env _ hinv, Option.bind_some, if_neg (inv_ne_zero hne),
      inv_inv]
  · rw [hform]
    refine ⟨hbase.printable, ?_⟩
    intro env v hv
    obtain ⟨x, hx, hdomain, rfl⟩ := hvalue env v hv
    have hnonneg : 0 ≤ x := by
      rcases hdomain with ⟨m, hm, -⟩ | hpos | ⟨hzero, -⟩
      · -- One half is no integer.
        rw [hreal] at hm
        have hodd : (1 : ℝ) = ((2 * m : ℤ) : ℝ) := by
          push_cast
          linarith
        have hodd' : (1 : ℤ) = 2 * m := by exact_mod_cast hodd
        omega
      · exact hpos.le
      · exact hzero.ge
    rw [Layout.value?, hbase.value?_eq env x hx, Option.bind_some, if_pos hnonneg, hreal,
      Real.sqrt_eq_rpow]
  · rw [hform]
    exact laysOut_power hbase (hlaid _ he hlt')

end Steps

/-- **Layouts.**  The layout of a writable formula can be printed and has its value. -/
theorem laysOut_layoutWithin_of_suits {form : Float → PowerForm} (hform : Suits form) {fuel : Nat}
    {f : Formula Float} (h : f.Writable IsName) (hfuel : weight f ≤ fuel) :
    LaysOut IsName (layoutWithin form fuel f) f := by
  induction fuel generalizing f with
  | zero =>
    have hpos := weight_pos f
    omega
  | succ fuel ih =>
    have hlaid : LaidOutBelow IsName (layoutWithin form fuel) f :=
      fun g hg hlt => ih hg (by omega)
    cases f with
    | const c =>
      refine ⟨writable_const_iff.mp h, ?_⟩
      intro env v hv
      rw [layoutWithin, Layout.value?, realValue_const_iff.mp hv]
    | symbol s =>
      refine ⟨h.named s (List.mem_singleton_self s), ?_⟩
      intro env v hv
      rw [layoutWithin, Layout.value?, realValue_symbol_iff.mp hv]
    | sum ts =>
      rw [layoutWithin]
      exact laysOut_sum h hlaid
    | product fs =>
      rw [layoutWithin]
      exact laysOut_product h hlaid
    | power b e =>
      obtain ⟨-, hb, he⟩ := writable_power_iff.mp h
      obtain ⟨hlt, hlt'⟩ := weight_lt_power b e
      cases e with
      | const n =>
        rw [layoutWithin]
        exact laysOut_power_const hform h hlaid
      | symbol s | sum ts | product fs | power c d | exponential x =>
        exact laysOut_power (hlaid b hb hlt) (hlaid _ he hlt')
    | exponential x =>
      have hx := hlaid x h.exponential (by rw [weight]; omega)
      rw [layoutWithin]
      refine ⟨hx.printable, ?_⟩
      intro env v hv
      obtain ⟨y, hy, rfl⟩ := realValue_exponential_iff.mp hv
      rw [Layout.value?, hx.value?_eq env y hy]
      rfl

end Formula

end SphereLab
