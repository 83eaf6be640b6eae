import Mathlib
import SphereLab.Proofs.PairCorrelation.Panels

/-!
# Ticks of panels

The tick values of a panel are counted from zero on.  How many there are to look at is a ceiling,
taken from the upper end of the window, and those below the lower end are left out afterwards.  The
count is not only large enough: a number is below the ceiling of a quotient just if its multiple is
below the dividend.  So what is left are the multiples inside the window, whatever the window is.
They keep a distance from both of its ends, and panels that are stacked without gaps therefore have
no tick in common.

Exact arithmetic counts as far as it has to, and so the panels here are those of real numbers.

* `lt_tickCount_iff`: which multiples are counted.
* `IsGraduated`: panels that have ticks just at the multiples of a step inside their windows.
* `IsGraduated.ticks_eq`: the list of them, from the first inside to the first past the window.
* `ofRanges?_graduated`: the panels of every layout are of this kind, and ticks of different panels
  are apart.
-/

namespace SphereLab

namespace Panel

/-! ## The margin and the step -/

theorem literal_margin : (0.001 : ℝ) = 1 / 1000 := by norm_num

theorem tickStep_eq (p : Panel ℝ) : p.tickStep = if 2 < p.high then 1 / 2 else 1 / 5 := by
  unfold tickStep
  norm_num

theorem tickStep_pos (p : Panel ℝ) : 0 < p.tickStep := by
  rw [tickStep_eq]
  split <;> norm_num

/-! ## Counting multiples -/

/-- The multiples that are counted are those below the upper end: a number is below the ceiling of
the quotient just if it is below the quotient. -/
theorem lt_tickCount_iff (p : Panel ℝ) (k : ℕ) :
    k < p.tickCount ↔ k * p.tickStep < p.high - 1 / 1000 := by
  rw [tickCount, literal_margin]
  split
  · rename_i hstop
    -- The quotient is positive, so that its ceiling is a natural number.
    have hpos : 0 ≤ ⌈(p.high - 1 / 1000) / p.tickStep⌉ :=
      Int.ceil_nonneg (div_pos hstop p.tickStep_pos).le
    rw [neg_floor_neg, ← Int.toNat_of_nonneg hpos, Int.cast_natCast, toCount_real_natCast,
      Int.lt_toNat, Int.lt_ceil, Int.cast_natCast, lt_div_iff₀ p.tickStep_pos]
  · rename_i hstop
    have hk : 0 ≤ (k : ℝ) * p.tickStep := mul_nonneg (Nat.cast_nonneg k) p.tickStep_pos.le
    exact iff_of_false (Nat.not_lt_zero k) (not_lt.mpr ((not_lt.mp hstop).trans hk))

/-! ## Ticks -/

/-- The ticks of a panel are counted multiples above the lower end of its window. -/
theorem mem_ticks_iff (p : Panel ℝ) (t : ℝ × ℝ) :
    t ∈ p.ticks ↔ ∃ k : ℕ, k < p.tickCount ∧ p.low + 1 / 1000 < k * p.tickStep ∧
      t = (p.offset + k * p.tickStep, k * p.tickStep) := by
  simp only [ticks, tickValues, literal_margin, Scalar.ofNat_eq_natCast, List.mem_map,
    List.mem_filter, List.mem_range, decide_eq_true_eq]
  constructor
  · rintro ⟨v, ⟨⟨k, hk, rfl⟩, hlow⟩, rfl⟩
    exact ⟨k, hk, hlow, rfl⟩
  · rintro ⟨k, hk, hlow, rfl⟩
    exact ⟨_, ⟨⟨k, hk, rfl⟩, hlow⟩, rfl⟩

/-- Ticks are listed upwards. -/
theorem pairwise_ticks (p : Panel ℝ) : p.ticks.Pairwise fun s t => s.1 < t.1 := by
  rw [ticks, tickValues, List.pairwise_map]
  refine List.Pairwise.filter _ (List.pairwise_map.mpr ?_)
  refine List.pairwise_lt_range.imp fun {j k} hjk => ?_
  rw [Scalar.ofNat_eq_natCast, Scalar.ofNat_eq_natCast]
  exact add_lt_add_right (mul_lt_mul_of_pos_right (Nat.cast_lt.mpr hjk) p.tickStep_pos) _

/-- A panel with ticks at the multiples of a step that are inside its window and clear of both ends,
at these and no others, listed upwards.  So its ticks are strictly between its two ends. -/
structure IsGraduated (p : Panel ℝ) (step : ℝ) : Prop where
  mem_iff : ∀ t, t ∈ p.ticks ↔ ∃ k : ℕ, p.low + 1 / 1000 < k * step ∧
    k * step < p.high - 1 / 1000 ∧ t = (p.offset + k * step, k * step)
  increasing : p.ticks.Pairwise fun s t => s.1 < t.1
  inside : ∀ t ∈ p.ticks, p.bottom < t.1 ∧ t.1 < p.top

theorem isGraduated (p : Panel ℝ) :
    p.IsGraduated (if 2 < p.high then 1 / 2 else 1 / 5) := by
  rw [← tickStep_eq]
  have hmem : ∀ t, t ∈ p.ticks ↔ ∃ k : ℕ, p.low + 1 / 1000 < k * p.tickStep ∧
      k * p.tickStep < p.high - 1 / 1000 ∧
        t = (p.offset + k * p.tickStep, k * p.tickStep) := fun t => by
    rw [mem_ticks_iff]
    refine exists_congr fun k => ?_
    rw [lt_tickCount_iff, and_left_comm]
  refine ⟨hmem, p.pairwise_ticks, fun t ht => ?_⟩
  obtain ⟨k, hlow, hhigh, rfl⟩ := (hmem t).mp ht
  show p.offset + p.low < p.offset + k * p.tickStep ∧
    p.offset + k * p.tickStep < p.offset + p.high
  constructor <;> linarith

/-! ## Consecutive multiples -/

/-- The multiples inside a window are those from the first above its lower end on, up to the first
that is past its upper end. -/
theorem multiple_between_iff {step low high : ℝ} {first past : ℕ} (hstep : 0 < step)
    (hbefore : (first - 1) * step ≤ low) (hfirst : low < first * step)
    (hlast : (past - 1) * step < high) (hpast : high ≤ past * step) (k : ℕ) :
    low < k * step ∧ k * step < high ↔ first ≤ k ∧ k < past := by
  refine and_congr ⟨fun hlow => ?_, fun hle => ?_⟩ ⟨fun hhigh => ?_, fun hlt => ?_⟩
  · have hlt := lt_of_mul_lt_mul_right (hbefore.trans_lt hlow) hstep.le
    rw [sub_lt_iff_lt_add] at hlt
    exact Nat.lt_succ_iff.mp (by exact_mod_cast hlt)
  · exact hfirst.trans_le (mul_le_mul_of_nonneg_right (Nat.cast_le.mpr hle) hstep.le)
  · exact Nat.cast_lt.mp (lt_of_mul_lt_mul_right (hhigh.trans_le hpast) hstep.le)
  · have hle : (k : ℝ) ≤ past - 1 := by
      rw [le_sub_iff_add_le]
      exact_mod_cast hlt
    exact (mul_le_mul_of_nonneg_right hle hstep.le).trans_lt hlast

/-- The ticks of a panel, by the first multiple inside its window and the first one past it. -/
theorem IsGraduated.ticks_eq {p : Panel ℝ} {step : ℝ} (h : p.IsGraduated step) (first past : ℕ)
    (hstep : 0 < step) (hbefore : (first - 1) * step ≤ p.low + 1 / 1000)
    (hfirst : p.low + 1 / 1000 < first * step) (hlast : (past - 1) * step < p.high - 1 / 1000)
    (hpast : p.high - 1 / 1000 ≤ past * step) :
    p.ticks = (List.range' first (past - first)).map fun k : ℕ =>
      (p.offset + k * step, k * step) := by
  have hasymm : Std.Antisymm fun s t : ℝ × ℝ => s.1 < t.1 :=
    ⟨fun _ _ hst hts => (hst.asymm hts).elim⟩
  have hirrefl : Std.Irrefl fun s t : ℝ × ℝ => s.1 < t.1 := ⟨fun s => lt_irrefl s.1⟩
  refine h.increasing.eq_of_mem_iff (List.pairwise_map.mpr ?_) fun t => ?_
  · refine (List.pairwise_lt_range' 1).imp fun {j k} hjk => ?_
    exact add_lt_add_right (mul_lt_mul_of_pos_right (Nat.cast_lt.mpr hjk) hstep) _
  · have hnumbers := multiple_between_iff hstep hbefore hfirst hlast hpast
    simp only [h.mem_iff, ← and_assoc, hnumbers, List.mem_map, List.mem_range'_1]
    exact exists_congr fun k => and_congr (by omega) eq_comm

end Panel

namespace PanelLayout

/-- Ticks of panels that do not reach into each other are apart. -/
theorem ticks_apart {panels : List (Panel ℝ)}
    (h : panels.Pairwise fun upper lower => lower.top ≤ upper.bottom) :
    panels.Pairwise fun upper lower => ∀ s ∈ upper.ticks, ∀ t ∈ lower.ticks, t.1 < s.1 := by
  refine h.imp fun {upper lower} hends s hs t ht => ?_
  calc t.1 < lower.top := (lower.isGraduated.inside t ht).2
    _ ≤ upper.bottom := hends
    _ < s.1 := (upper.isGraduated.inside s hs).1

/-- **Ticks stand at the multiples inside the windows**, over exact arithmetic, in every panel of
every layout: a panel has just the ticks at the multiples of a half, if its window ends above two,
and of a fifth otherwise, that are inside its window and clear of its ends by a thousandth.  They
are listed upwards and are strictly between the panel's ends.  If no window is upside down, then
every tick of a panel is above all ticks of the panels below it. -/
theorem ofRanges?_graduated {ranges : List (Range ℝ)} {count : ℕ} {alternate : Bool}
    {l : PanelLayout ℝ} (h : ofRanges? ranges count alternate = some l) :
    l.panels.length = count ∧
    (∀ p ∈ l.panels, p.IsGraduated (if 2 < p.high then 1 / 2 else 1 / 5)) ∧
    ((∀ r ∈ ranges, r.1 ≤ r.2) →
      l.panels.Pairwise fun upper lower => ∀ s ∈ upper.ticks, ∀ t ∈ lower.ticks, t.1 < s.1) := by
  obtain ⟨rfl, hne⟩ := length_eq_of_ofRanges?_eq_some h
  rw [ofRanges?_eq hne] at h
  obtain rfl := Option.some.inj h
  refine ⟨?_, fun p _ => p.isGraduated, fun hranges => ?_⟩
  · rw [List.length_reverse, stack_eq_stackOn, length_stackOn, length_stacked]
  · exact ticks_apart (reverse_stack_apart (forall_mem_stacked hranges alternate))

/-- Of two windows the lower one, up to `6 / 5`, has a single tick, and the upper one, up to four,
has six, half a unit apart. -/
theorem ofRanges?_graduated_two :
    (∀ r ∈ ([(9 / 10, 6 / 5), (3 / 5, 4)] : List (Range ℝ)), r.1 ≤ r.2) ∧
    ∃ upper lower : Panel ℝ,
      ofRanges? [(9 / 10, 6 / 5), (3 / 5, 4)] 2 false = some ⟨[0, 1], [upper, lower]⟩ ∧
      upper.ticks = [(7 / 10, 1), (6 / 5, 3 / 2), (17 / 10, 2), (11 / 5, 5 / 2), (27 / 10, 3),
        (16 / 5, 7 / 2)] ∧
      lower.ticks = [(1 / 10, 1)] ∧
      ∀ s ∈ upper.ticks, ∀ t ∈ lower.ticks, t.1 < s.1 := by
  have hranges : ∀ r ∈ ([(9 / 10, 6 / 5), (3 / 5, 4)] : List (Range ℝ)),
      r.1 ≤ r.2 := by
    simp only [List.forall_mem_cons]
    norm_num
  have hlayout : ofRanges? ([(9 / 10, 6 / 5), (3 / 5, 4)] : List (Range ℝ)) 2 false =
      some ⟨[0, 1], [⟨-(9 / 10) + 6 / 5 - 3 / 5, 3 / 5, 4⟩, ⟨-(9 / 10), 9 / 10, 6 / 5⟩]⟩ := rfl
  obtain ⟨-, hgraduated, hapart⟩ := ofRanges?_graduated hlayout
  simp only [List.forall_mem_cons] at hgraduated
  obtain ⟨hupper, hlower, -⟩ := hgraduated
  rw [if_pos (by norm_num)] at hupper
  rw [if_neg (by norm_num)] at hlower
  refine ⟨hranges, _, _, hlayout, ?_, ?_, List.pairwise_pair.mp (hapart hranges)⟩
  · rw [hupper.ticks_eq 2 8 (by norm_num) (by norm_num) (by norm_num) (by norm_num) (by norm_num)]
    norm_num [List.range'_succ]
  · rw [hlower.ticks_eq 5 6 (by norm_num) (by norm_num) (by norm_num) (by norm_num) (by norm_num)]
    norm_num

end PanelLayout

end SphereLab
