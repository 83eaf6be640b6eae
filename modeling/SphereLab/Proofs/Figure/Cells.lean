import Mathlib
import SphereLab.Proofs.Double.Range
import SphereLab.Proofs.Figure.Layers

/-!
# The cells of points

A coordinate is scaled to its range, held between zero and one, multiplied by the last column or row
and rounded.  Whatever the coordinate and the range are --- infinite, not a number, out of order ---
what is rounded is not a number or lies between zero and the last column, and then so does what comes
out.  So every point has a cell on the grid, as long as doubles can tell the columns and rows apart,
which they can up to `2 ^ 53` of them.

* `IsUpTo`: doubles from zero to a bound, and those that are not a number.
* `isUpTo_along`: coordinates on their range.
* `toInt_round_le`: rounding stays below a whole bound.
* `contains_cell`: the cells of all points are on the grid.
-/

namespace SphereLab

namespace Canvas

/-! ## Doubles up to a bound -/

/-- A double is not a number, or between zero and a bound. -/
def IsUpTo (bound : ℝ) (x : Float) : Prop :=
  Reading.ofFloat x = .nan ∨ x.isFinite = true ∧ 0 ≤ realOf x ∧ realOf x ≤ bound

theorem IsUpTo.mono {bound bound' : ℝ} {x : Float} (h : IsUpTo bound x) (hle : bound ≤ bound') :
    IsUpTo bound' x :=
  h.imp_right fun ⟨hfinite, hlow, hhigh⟩ => ⟨hfinite, hlow, hhigh.trans hle⟩

theorem isUpTo_zero : IsUpTo 1 0.0 := by
  refine Or.inr ⟨Reading.isFinite_iff.mpr ⟨_, _, ofFloat_zero⟩, ?_⟩
  rw [realOf_zero]
  norm_num

theorem isUpTo_one : IsUpTo 1 1.0 := by
  obtain ⟨hone, hfinite⟩ := realOf_one
  refine Or.inr ⟨hfinite, ?_⟩
  rw [hone]
  norm_num

/-! ## Comparisons with what is not finite -/

section Comparison

variable {x y : Float} {negative : Bool}

theorem lt_iff_compare :
    x < y ↔ (Reading.unpacked (Reading.ofFloat x)).compare (Reading.unpacked (Reading.ofFloat y)) =
      some .lt := by
  rw [← Reading.unpack_eq, ← Reading.unpack_eq, ← beq_iff_eq]
  exact decide_eq_true_iff

/-- An infinity is below zero if it is negative. -/
theorem infinite_lt_zero_iff (hx : Reading.ofFloat x = .infinite negative) :
    x < 0.0 ↔ negative = true := by
  rw [lt_iff_compare, hx, ofFloat_zero]
  cases negative <;> decide

/-- An infinity is above one if it is not negative. -/
theorem one_lt_infinite_iff (hx : Reading.ofFloat x = .infinite negative) :
    1.0 < x ↔ negative = false := by
  rw [lt_iff_compare, hx, ofFloat_one]
  cases negative <;> decide

theorem not_nan_lt (hx : Reading.ofFloat x = .nan) (y : Float) : ¬x < y := by
  rw [lt_iff_compare, hx]
  exact fun h => absurd h (by simp [Reading.unpacked, Float.Model.UnpackedFloat.compare])

theorem not_lt_nan (hx : Reading.ofFloat x = .nan) (y : Float) : ¬y < x := by
  rw [lt_iff_compare, hx]
  cases Reading.unpacked (Reading.ofFloat y) <;>
    simp [Reading.unpacked, Float.Model.UnpackedFloat.compare]

end Comparison

/-- What is held between zero and one is there, unless it is not a number. -/
theorem isUpTo_held (u : Float) : IsUpTo 1 (if u < 0.0 then 0.0 else if 1.0 < u then 1.0 else u) := by
  cases hread : Reading.ofFloat u with
  | nan =>
    rw [if_neg (not_nan_lt hread _), if_neg (not_lt_nan hread _)]
    exact Or.inl hread
  | infinite negative =>
    cases negative with
    | true =>
      rw [if_pos ((infinite_lt_zero_iff hread).mpr rfl)]
      exact isUpTo_zero
    | false =>
      rw [if_neg (by simp [infinite_lt_zero_iff hread]),
        if_pos ((one_lt_infinite_iff hread).mpr rfl)]
      exact isUpTo_one
  | finite negative d =>
    have hfinite : u.isFinite = true := Reading.isFinite_iff.mpr ⟨_, _, hread⟩
    have hzero : (0.0 : Float).isFinite = true := Reading.isFinite_iff.mpr ⟨_, _, ofFloat_zero⟩
    split
    · exact isUpTo_zero
    · rename_i hlow
      split
      · exact isUpTo_one
      · rename_i hhigh
        rw [lt_iff_realOf_lt hfinite hzero, realOf_zero, not_lt] at hlow
        rw [lt_iff_realOf_lt realOf_one.2 hfinite, realOf_one.1, not_lt] at hhigh
        exact Or.inr ⟨hfinite, hlow, hhigh⟩

theorem isUpTo_along (r : Range Float) (v : Float) : IsUpTo 1 (along r v) :=
  isUpTo_held ((v - r.1) / (r.2 - r.1))

/-! ## Shares of the last column -/

section Shares

variable {x y : Float}

theorem ofFloat_pack_notANumber : Reading.ofFloat (.ofModel (.pack .notANumber)) = .nan := by
  decide +kernel

/-- A share of a double is up to it. -/
theorem IsUpTo.mul (hx : IsUpTo 1 x) (hy : y.isFinite = true) (hnonneg : 0 ≤ realOf y) :
    IsUpTo (realOf y) (x * y) := by
  rcases hx with hnan | ⟨hfinite, hlow, hhigh⟩
  · left
    have hmul : x * y = .ofModel (.pack (Float.Model.UnpackedFloat.mul .binary64 x.toModel.unpack
      y.toModel.unpack)) := rfl
    rw [hmul, Reading.unpack_eq x, hnan]
    exact ofFloat_pack_notANumber
  · exact Or.inr (realOf_mul_mem hfinite hy hlow hhigh hnonneg)

/-- What is left of a double is up to it. -/
theorem IsUpTo.sub (hx : IsUpTo (realOf y) x) (hy : y.isFinite = true) :
    IsUpTo (realOf y) (y - x) := by
  rcases hx with hnan | ⟨hfinite, hlow, hhigh⟩
  · left
    have hsub : y - x = .ofModel (.pack (Float.Model.UnpackedFloat.sub .binary64 y.toModel.unpack
      x.toModel.unpack)) := rfl
    rw [hsub, Reading.unpack_eq x, hnan]
    cases y.toModel.unpack <;> exact ofFloat_pack_notANumber
  · exact Or.inr (realOf_sub_mem hy hfinite hlow hhigh)

/-- The last of some columns or rows, as a double. -/
theorem realOf_last {n : ℕ} (hpos : 0 < n) (h : n < 2 ^ 53) :
    (doubleOfInt n - 1.0).isFinite = true ∧ 0 ≤ realOf (doubleOfInt n - 1.0) ∧
      realOf (doubleOfInt n - 1.0) ≤ (n - 1 : ℕ) := by
  obtain ⟨hall, hfinite⟩ := realOf_doubleOfInt (n := (n : ℤ)) (by omega)
  obtain ⟨hlast, hfinite'⟩ := realOf_doubleOfInt (n := ((n - 1 : ℕ) : ℤ)) (by omega)
  obtain ⟨negative, d, hrounds, hread⟩ := exists_roundsTo_sub hfinite realOf_one.2
  have hdifference : realOf (doubleOfInt n) - realOf 1.0 = (n - 1 : ℕ) := by
    rw [hall, realOf_one.1, Nat.cast_sub hpos, Nat.cast_one, Int.cast_natCast]
  rw [hdifference] at hrounds
  rw [Int.cast_natCast] at hlast
  have hmem := isFinite_and_realOf_mem hrounds hread hfinite' (Nat.cast_nonneg _) hlast.ge
  rwa [hlast] at hmem

end Shares

/-! ## Rounding -/

/-- A magnitude up to a whole number is rounded to a whole number up to it. -/
theorem div_le_of_value_le {d : Dyadic} {n : ℕ} (h : d.value ≤ n) :
    (2 * d.num + d.den) / (2 * d.den) ≤ n := by
  have hden : (0 : ℝ) < d.den := by exact_mod_cast d.den_pos
  have hnum : d.num ≤ n * d.den := by
    rw [Dyadic.value_eq_div, div_le_iff₀ hden] at h
    exact_mod_cast h
  have hpos := d.den_pos
  rw [← Nat.lt_add_one_iff, Nat.div_lt_iff_lt_mul (by omega)]
  calc 2 * d.num + d.den < 2 * (n * d.den) + 2 * d.den := by omega
    _ = (n + 1) * (2 * d.den) := by ring

/-- The integer of a whole double. -/
theorem truncateDouble_nearestFloat {q : ℕ} (h : q < 2 ^ 53) (negative : Bool) :
    truncateDouble (nearestFloat negative q 1) = signedBy negative q := by
  rcases Nat.eq_zero_or_pos q with rfl | hpos
  · cases negative with
    | true => decide +kernel
    | false => decide +kernel
  · obtain ⟨d, hvalue, hread⟩ := exists_ofFloat_nearestFloat_eq hpos h negative
    rw [truncateDouble, hread, Reading.toInteger, Dyadic.num_div_den_eq hvalue, heldInWord,
      signedBy, Nat.pow_eq]
    split <;> omega

/-- What is up to a whole number is rounded to a whole number up to it. -/
theorem toInt_round_le {x : Float} {n : ℕ} (hn : n < 2 ^ 53) (hx : IsUpTo n x) :
    max 0 (Scalar.toInt (Scalar.round x)) ≤ n := by
  rcases hx with hnan | ⟨hfinite, hlow, hhigh⟩
  · have hzero : truncateDouble (roundDouble x) = 0 := by
      rw [roundDouble, hnan]
      dsimp only
      rw [truncateDouble, hnan, Reading.toInteger]
    change max 0 (truncateDouble (roundDouble x)) ≤ (n : ℤ)
    rw [hzero]
    omega
  · obtain ⟨negative, d, hread⟩ := Reading.isFinite_iff.mp hfinite
    have hvalue : d.value ≤ n := by
      rwa [← abs_signedValue negative d, ← realOf_of_ofFloat hread, abs_of_nonneg hlow]
    have hle := div_le_of_value_le hvalue
    change max 0 (truncateDouble (roundDouble x)) ≤ (n : ℤ)
    rw [roundDouble, hread]
    dsimp only
    generalize (2 * d.num + d.den) / (2 * d.den) = q at hle ⊢
    rw [truncateDouble_nearestFloat (by omega), signedBy]
    split <;> omega

/-! ## Cells -/

theorem ofNat_eq (n : ℕ) : (Scalar.ofNat n : Float) = doubleOfInt n := by
  rw [Scalar.ofNat]
  rfl

theorem column_eq (f : Frame Float) (x : Float) :
    f.column x =
      max 0 (Scalar.toInt (Scalar.round (along f.x x * (doubleOfInt f.width - 1.0)))) := by
  rw [Frame.column, ofNat_eq]
  rfl

theorem row_eq (f : Frame Float) (y : Float) :
    f.row y = max 0 (Scalar.toInt (Scalar.round
      (doubleOfInt f.height - 1.0 - along f.y y * (doubleOfInt f.height - 1.0)))) := by
  rw [Frame.row, ofNat_eq]
  rfl

/-- The cell of every point is on the grid. -/
theorem contains_cell {f : Frame Float} (hwidth : 0 < f.width) (hwidth' : f.width < 2 ^ 53)
    (hheight : 0 < f.height) (hheight' : f.height < 2 ^ 53) (p : Float × Float) :
    f.Contains (f.cell p) := by
  have hcolumn : f.column p.1 ≤ (f.width - 1 : ℕ) := by
    obtain ⟨hfinite, hnonneg, hle⟩ := realOf_last hwidth hwidth'
    rw [column_eq]
    exact toInt_round_le (by omega) (((isUpTo_along f.x p.1).mul hfinite hnonneg).mono hle)
  have hrow : f.row p.2 ≤ (f.height - 1 : ℕ) := by
    obtain ⟨hfinite, hnonneg, hle⟩ := realOf_last hheight hheight'
    rw [row_eq]
    exact toInt_round_le (by omega)
      ((((isUpTo_along f.y p.2).mul hfinite hnonneg).sub hfinite).mono hle)
  have hcolumn' : 0 ≤ f.column p.1 := le_max_left _ _
  have hrow' : 0 ≤ f.row p.2 := le_max_left _ _
  rw [Frame.Contains, Frame.cell]
  omega

/-- The bound is needed: the last of `2 ^ 53 + 3` columns is no double, and is rounded up. -/
example : (⟨2 ^ 53 + 3, 5, (0.0, 1.0), (0.0, 1.0)⟩ : Frame Float).column 1.0 = 2 ^ 53 + 4 := by
  decide +kernel

end Canvas

end SphereLab
