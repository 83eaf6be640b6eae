import Mathlib
import SphereLab.Proofs.CExpression.Parser
import SphereLab.Proofs.Formula.LayoutText

/-!
# Formulas as expressions of C

A formula is laid out with its value, and the text of a layout in C is an expression with the value
of the layout.  Together this gives the meaning of the text of a formula.

* `suits_powerForm`: the forms of powers in C keep their values.
* `exists_tree_toC`: the text of a formula is derived in C's grammar, is parsed as it is derived,
  and has the value of the formula.
-/

namespace SphereLab

namespace Formula

/-- The forms of powers in C keep their values. -/
theorem suits_powerForm : Suits CSource.powerForm := by
  intro n hn
  rw [CSource.powerForm]
  split
  · rename_i h
    simp only [Bool.and_eq_true, decide_eq_true_eq] at h
    refine Or.inl ⟨(Scalar.toInt n).toNat, rfl, by omega, ?_⟩
    have htoInt : Scalar.toInt n = ((Scalar.toInt n).toNat : ℤ) := by omega
    rw [(realOf_eq_toInt h.1.1).1, ← Int.cast_natCast, ← htoInt]
  · split
    · rename_i h
      simp only [Bool.and_eq_true, decide_eq_true_eq] at h
      refine Or.inr (Or.inl ⟨rfl, ?_⟩)
      have hneg : Scalar.toInt n < 0 := by omega
      rw [(realOf_eq_toInt h.1.1).1]
      exact_mod_cast hneg
    · split
      · rename_i h
        exact Or.inr (Or.inr (Or.inl ⟨rfl, (beq_half_iff hn).mp h⟩))
      · exact Or.inr (Or.inr (Or.inr rfl))

/-- The layout of a formula in C can be printed and has its value. -/
theorem laysOut_layoutWithin {fuel : Nat} {f : Formula Float}
    (h : f.Writable CExpression.IsVariable) (hfuel : weight f ≤ fuel) :
    LaysOut CExpression.IsVariable (layoutWithin CSource.powerForm fuel f) f :=
  laysOut_layoutWithin_of_suits suits_powerForm h hfuel

/-! ## Texts of formulas -/

/-- **Formulas in C.**  The text of a normal formula with finite constants and variables for symbols
is derived in the grammar of C's expressions, is parsed to the one tree that it is derived with, and
the tree has the value of the formula over the real numbers wherever the formula has one. -/
theorem exists_tree_toC {f : Formula Float} (hnormal : f.IsNormal)
    (hfinite : ∀ c ∈ f.constants, c.isFinite = true)
    (hnamed : ∀ s ∈ f.occurrences, CExpression.IsVariable s) :
    ∃ x, CExpression.Derivable f.toC x ∧ CExpression.parse? f.toC = some x ∧
      (∀ y, CExpression.Derivable f.toC y → y = x) ∧
      ∀ env v, (f.mapConstants realOf).HasValue PowerDomain.real env v →
        x.value? env = some v := by
  have hlayout := laysOut_layoutWithin ⟨hnormal, hfinite, hnamed⟩ le_rfl
  obtain ⟨x, hx, hvalue⟩ := (CSource.faithful_of_printable hlayout.printable).additive
  have hderivable := hx.derivable
  exact ⟨x, hderivable, hderivable.parse?_eq, fun y hy => hy.unique hderivable,
    fun env v hv => hvalue env v (hlayout.value?_eq env v hv)⟩

/-- The text of minus two over a symbol, and its value where the symbol is four. -/
theorem exists_tree_toC_quotient :
    (product [const (-2.0), power (symbol "x") (const (-1.0))]).toC = "-2/x" ∧
      ∃ x, CExpression.Derivable "-2/x" x ∧ CExpression.parse? "-2/x" = some x ∧
        x.value? (fun s => if s = "x" then some 4 else none) = some (-(1 / 2)) := by
  have htext : (product [const (-2.0), power (symbol "x") (const (-1.0))]).toC = "-2/x" := by
    decide +kernel
  have hnormal : (product [const (-2.0), power (symbol "x") (const (-1.0))] :
      Formula Float).IsNormal := by
    refine isNormal_product_iff.mpr ⟨⟨le_rfl, ?_, ?_, ?_⟩, ?_⟩
    · simp [IsProduct]
    · simp [const?]
    · intro c hc
      obtain rfl : (-2.0 : Float) = c := by simpa using hc
      exact ⟨rfl, rfl⟩
    · refine List.forall_mem_cons.mpr ⟨isNormal_const _, List.forall_mem_singleton.mpr ?_⟩
      exact isNormal_power_const (isNormal_symbol "x") rfl (by decide +kernel)
        (by decide +kernel) fun _ => ⟨id, fun b i h => absurd h (by simp)⟩
  have hfinite : ∀ c ∈ (product [const (-2.0), power (symbol "x") (const (-1.0))]).constants,
      c.isFinite = true := by
    simp only [constants, constantsEach, List.nil_append, List.append_nil, List.singleton_append,
      List.forall_mem_cons]
    exact ⟨by decide +kernel, by decide +kernel, by simp⟩
  have hnamed : ∀ s ∈ (product [const (-2.0), power (symbol "x") (const (-1.0))] :
      Formula Float).occurrences, CExpression.IsVariable s := by
    simp only [occurrences, occurrencesEach, List.nil_append, List.append_nil,
      List.forall_mem_singleton]
    exact ⟨rfl, by decide⟩
  obtain ⟨x, hderivable, hparse, -, hvalue⟩ := exists_tree_toC hnormal hfinite hnamed
  rw [htext] at hderivable hparse
  have htwo : Reading.ofFloat (-2.0) = .finite true ⟨2 ^ 52, -51⟩ := by decide +kernel
  have hminus : Reading.ofFloat (-1.0) = .finite true ⟨2 ^ 52, -52⟩ := by decide +kernel
  have hfactor : realOf (-2.0) = -2 := by
    rw [realOf_of_ofFloat htwo, signedValue, if_pos rfl, Dyadic.value]
    norm_num
  have hexponent : realOf (-1.0) = -1 := by
    rw [realOf_of_ofFloat hminus, signedValue, if_pos rfl, Dyadic.value]
    norm_num
  have hquarter : (power (symbol "x") (const (-1.0))).RealValue
      (fun s => if s = "x" then some 4 else none) (1 / 4) := by
    refine realValue_power_iff.mpr ⟨4, -1, realValue_symbol_iff.mpr (if_pos rfl),
      realValue_const_iff.mpr hexponent, Or.inr (Or.inl (by norm_num)), ?_⟩
    rw [Real.rpow_neg_one]
    norm_num
  refine ⟨htext, x, hderivable, hparse, hvalue _ _ (realValue_product_iff.mpr
    ⟨[-2, 1 / 4], .cons (realValue_const_iff.mpr hfactor) (.cons hquarter .nil), ?_⟩)⟩
  norm_num

end Formula

end SphereLab
