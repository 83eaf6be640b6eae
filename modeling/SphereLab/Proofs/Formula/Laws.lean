import Mathlib
import SphereLab.Proofs.Formula.Powers

/-!
# Laws of simplified formulas

Simplified sums, products and integer powers obey the laws of algebra as formulas, not only in
their values.  Each law is an instance of what splicing once does: a sum of partial sums is one
sum, a product of partial products is one product, and an integer power is taken factor by factor.
It does not matter at which moment constants are folded, nor that a product of two may already be a
constant, a single power or a sum.

Like the powers of a substitution, an integer power needs two provisos: a zero is not taken to a
negative power, and exponents are not merged into one that is too large to be known as an integer.

* `sumOf_append`, `productOf_append`: a list may be cut anywhere.
* `pow_mul_of_integer`, `pow_pow_of_integer`: integer powers of products and of powers.
* `sums_products_and_powers_obey_laws`: the laws together.
-/

namespace SphereLab

namespace Formula

variable {α : Type} [ExactScalar α] {a b c : Formula α}

/-! ## Sums and products of lists that are cut -/

/-- The sum of a list is the sum of the sums of its two parts. -/
theorem sumOf_append {fs gs : List (Formula α)} (hfs : ∀ f ∈ fs, f.IsNormal)
    (hgs : ∀ g ∈ gs, g.IsNormal) : sumOf (fs ++ gs) = sumOf fs + sumOf gs := by
  have hparts : ∀ part ∈ [fs, gs], ∀ f ∈ part, f.IsNormal :=
    List.forall_mem_cons.mpr ⟨hfs, List.forall_mem_singleton.mpr hgs⟩
  calc sumOf (fs ++ gs) = sumOf ([fs, gs].flatMap fun part => part) := by simp
    _ = sumOf ([fs, gs].map fun part => sumOf part) := (sumOf_map_sumOf hparts).symm

/-- The product of a list is the product of the products of its two parts. -/
theorem productOf_append {fs gs : List (Formula α)} (hfs : ∀ f ∈ fs, f.IsNormal)
    (hgs : ∀ g ∈ gs, g.IsNormal) : productOf (fs ++ gs) = productOf fs * productOf gs := by
  have hparts : ∀ part ∈ [fs, gs], ∀ f ∈ part, f.IsNormal :=
    List.forall_mem_cons.mpr ⟨hfs, List.forall_mem_singleton.mpr hgs⟩
  calc productOf (fs ++ gs) = productOf ([fs, gs].flatMap fun part => part) := by simp
    _ = productOf ([fs, gs].map fun part => productOf part) :=
      (productOf_map_productOf hparts).symm

theorem forall_mem_pair_isNormal (ha : a.IsNormal) (hb : b.IsNormal) :
    ∀ f ∈ [a, b], f.IsNormal :=
  List.forall_mem_cons.mpr ⟨ha, List.forall_mem_singleton.mpr hb⟩

/-- Both ways of nesting a sum of three are the sum of the list of them. -/
theorem add_assoc_of_isNormal (ha : a.IsNormal) (hb : b.IsNormal) (hc : c.IsNormal) :
    a + b + c = a + (b + c) := by
  have hleft := sumOf_append (forall_mem_pair_isNormal ha hb) (List.forall_mem_singleton.mpr hc)
  have hright := sumOf_append (List.forall_mem_singleton.mpr ha) (forall_mem_pair_isNormal hb hc)
  rw [sumOf_singleton hc] at hleft
  rw [sumOf_singleton ha] at hright
  exact hleft.symm.trans hright

/-- Both ways of nesting a product of three are the product of the list of them. -/
theorem mul_assoc_of_isNormal (ha : a.IsNormal) (hb : b.IsNormal) (hc : c.IsNormal) :
    a * b * c = a * (b * c) := by
  have hleft :=
    productOf_append (forall_mem_pair_isNormal ha hb) (List.forall_mem_singleton.mpr hc)
  have hright :=
    productOf_append (List.forall_mem_singleton.mpr ha) (forall_mem_pair_isNormal hb hc)
  rw [productOf_singleton hc] at hleft
  rw [productOf_singleton ha] at hright
  exact hleft.symm.trans hright

/-! ## Integer powers -/

theorem isInteger_intCast {n : ℤ} (h : |n| < 10 ^ 15) : Scalar.isInteger (n : α) = true :=
  Scalar.isInteger_iff.mpr ⟨n, h, rfl⟩

/-- An integer power of a product is the product of the powers. -/
theorem pow_mul_of_integer {i : ℤ} (ha : a.IsNormal) (hb : b.IsNormal) (hi : |i| < 10 ^ 15)
    (hsafe : ZeroSafe (a * b) (i : α)) :
    (a * b).pow (const i) = a.pow (const i) * b.pow (const i) :=
  powConst_productOf (forall_mem_pair_isNormal ha hb) (isInteger_intCast hi) hsafe

/-- An integer power of an integer power has the product of the exponents. -/
theorem pow_pow_of_integer {i j : ℤ} (ha : a.IsNormal) (hij : |i * j| < 10 ^ 15)
    (hcomposes : Composes a (i : α)) (hsafe : ZeroSafe a (i : α))
    (hsafe' : ZeroSafe (a.pow (const i)) (j : α)) :
    (a.pow (const i)).pow (const j) = a.pow (const ((i * j : ℤ) : α)) := by
  show powConst (powConst a (i : α)) (j : α) = powConst a ((i * j : ℤ) : α)
  by_cases hizero : i = 0
  · -- a power of one, however large its exponent
    rw [hizero, zero_mul, Int.cast_zero, powConst_zero, powConst_const (Or.inl one_ne_zero),
      one_zpow]
  · by_cases hjzero : j = 0
    · rw [hjzero, mul_zero, Int.cast_zero, powConst_zero, powConst_zero]
    · rw [abs_mul] at hij
      have hi : |i| < 10 ^ 15 :=
        (le_mul_of_one_le_right (abs_nonneg i) (Int.one_le_abs hjzero)).trans_lt hij
      have hj : |j| < 10 ^ 15 :=
        (le_mul_of_one_le_left (abs_nonneg j) (Int.one_le_abs hizero)).trans_lt hij
      have hmerged : Scalar.isInteger ((i : α) * (j : α)) = true := by
        rw [← Int.cast_mul]
        exact isInteger_intCast (by rwa [abs_mul])
      rw [Int.cast_mul]
      exact powConst_powConst ha (isInteger_intCast hi) (isInteger_intCast hj) hmerged hcomposes
        hsafe hsafe'

/-- **Laws of simplified formulas.**  Over exact scalars, normal formulas obey as formulas: a sum
and a product of three may be nested either way; the sum and the product of a list are those of the
two results for its parts; an integer power of a product is the product of the powers; and an
integer power of an integer power has the product of the exponents.  The powers are those of
exponents that are known as integers, also after they are merged, and take no zero to a negative
one. -/
theorem sums_products_and_powers_obey_laws (α : Type) [ExactScalar α] :
    (∀ a b c : Formula α, a.IsNormal → b.IsNormal → c.IsNormal →
        a + b + c = a + (b + c) ∧ a * b * c = a * (b * c)) ∧
      (∀ fs gs : List (Formula α), (∀ f ∈ fs, f.IsNormal) → (∀ g ∈ gs, g.IsNormal) →
        sumOf (fs ++ gs) = sumOf fs + sumOf gs ∧
          productOf (fs ++ gs) = productOf fs * productOf gs) ∧
      (∀ (a b : Formula α) (i : ℤ), a.IsNormal → b.IsNormal → |i| < 10 ^ 15 →
        ZeroSafe (a * b) (i : α) →
        (a * b).pow (const i) = a.pow (const i) * b.pow (const i)) ∧
      ∀ (a : Formula α) (i j : ℤ), a.IsNormal → |i * j| < 10 ^ 15 → Composes a (i : α) →
        ZeroSafe a (i : α) → ZeroSafe (a.pow (const i)) (j : α) →
        (a.pow (const i)).pow (const j) = a.pow (const ((i * j : ℤ) : α)) :=
  ⟨fun _ _ _ ha hb hc => ⟨add_assoc_of_isNormal ha hb hc, mul_assoc_of_isNormal ha hb hc⟩,
    fun _ _ hfs hgs => ⟨sumOf_append hfs hgs, productOf_append hfs hgs⟩,
    fun _ _ _ ha hb hi hsafe => pow_mul_of_integer ha hb hi hsafe,
    fun _ _ _ ha hij hcomposes hsafe hsafe' =>
      pow_pow_of_integer ha hij hcomposes hsafe hsafe'⟩

/-- The cube of a symbol: two constants beside it cancel, a zero absorbs a symbol before its square
is taken, and three exponents merge into one. -/
theorem sums_products_and_powers_obey_laws_cube :
    let cube : Formula ℝ := power (symbol "x") (const 3)
    let nothing : Formula ℝ := const 0
    let two : Formula ℝ := const ((2 : ℤ) : ℝ)
    (cube + const 2 + const (-2) = cube + (const 2 + const (-2)) ∧
        cube * const 2 * const (1 / 2) = cube * (const 2 * const (1 / 2))) ∧
      productOf ([cube, const 2] ++ [const (1 / 2)]) =
        productOf [cube, const 2] * productOf [const (1 / 2)] ∧
      (nothing * symbol "y").pow two = nothing.pow two * (symbol "y").pow two ∧
      (cube.pow (const ((-2 : ℤ) : ℝ))).pow (const ((4 : ℤ) : ℝ)) =
        cube.pow (const ((-2 * 4 : ℤ) : ℝ)) := by
  intro cube nothing two
  obtain ⟨hnested, hcut, hproduct, hpower⟩ := sums_products_and_powers_obey_laws ℝ
  have hunmerged : Unmerged (symbol "x" : Formula ℝ) := ⟨id, fun b i h => by cases h⟩
  have hcube : cube.IsNormal := by
    have hself : powConst (symbol "x") 3 = cube :=
      powConst_of_unmerged rfl hunmerged three_ne_zero (by norm_num)
    exact hself ▸ isNormal_powConst 3 (isNormal_symbol "x")
  have hcomposes : Composes cube ((-2 : ℤ) : ℝ) := by
    intro _ b i hmem _
    have hi : power b (const i) = power (symbol "x") (const 3) := List.mem_singleton.mp hmem
    cases hi
    exact Scalar.isInteger_iff.mpr ⟨-6, by norm_num, by norm_num⟩
  refine ⟨⟨(hnested cube (const 2) (const (-2)) hcube trivial trivial).1,
      (hnested cube (const 2) (const (1 / 2)) hcube trivial trivial).2⟩, ?_, ?_, ?_⟩
  · exact (hcut [cube, const 2] [const (1 / 2)] (forall_mem_pair_isNormal hcube trivial)
      (List.forall_mem_singleton.mpr trivial)).2
  · exact hproduct nothing (symbol "y") 2 trivial trivial (by norm_num) fun _ => by norm_num
  · have hne : cube ≠ const 0 := fun h => by simp [cube] at h
    exact hpower cube (-2) 4 hcube (by norm_num) hcomposes (fun h => absurd h hne)
      fun _ => by norm_num

end Formula

end SphereLab
