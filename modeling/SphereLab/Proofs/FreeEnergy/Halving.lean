import Mathlib
import SphereLab.FreeEnergy.Schedule
import SphereLab.Proofs.Scalar.Exact
import SphereLab.Proofs.Scalar.Word

/-!
# Halved increments

The increments of a sweep are planned one after another: each is that of the step before, or half of
it whenever a given number of steps is over.  They are computed one by one, from the number of
halvings, which is taken as a signed number of thirty-two bits.  Over exact arithmetic the two are
the same until there are `2 ^ 31` halvings.  There the exponent falls from `2 ^ 31 - 1` to
`-2 ^ 31`, and the smallest of all increments is followed by the greatest.

As long as the plan is followed, the steps do not lead far.  With halvings every `h` steps, `h`
steps and all that come after them add up to `2 * h` times their increment, and every step of the
`h` uses up one of these.  So what is left at a step is a whole number of times its increment, and
together with what has been reached it never changes.

* `plannedIncrement`, `fractionAfter`: the increments as they are planned, and where steps lead.
* `incrementAt_succ_eq_iff`, `incrementAt_eq_plannedIncrement_iff`: when the computed increments
  are those.
* `incrementAt_follows_plan`: the increments of a sweep.
* `fractionAfter_add_remaining`: what has been reached and what is left.
* `fractionAfter_bounded`: where a sweep leads.
-/

namespace SphereLab

namespace SweepPlan

section Definitions

variable {α : Type}

/-- The number of halvings does not fit any more at a step: the increment is halved there, for the
`2 ^ 31`-st time or a multiple of `2 ^ 32` later. -/
def Overflows (p : SweepPlan α) (index : ℕ) : Prop :=
  p.halveEvery ∣ index ∧ p.halvings index % 2 ^ 32 = 2 ^ 31

/-- Where a number of steps leads from a filling fraction, each of which starts where the one before
leads. -/
def fractionAfter [Scalar α] (p : SweepPlan α) (start : α) : ℕ → α
  | 0 => start
  | n + 1 => p.next n (p.fractionAfter start n)

/-- The increments as they are planned: the first one is given, and at every multiple of the period
the one before is halved. -/
def plannedIncrement [ExactScalar α] (p : SweepPlan α) : ℕ → α
  | 0 => p.increment
  | index + 1 =>
    if p.halveEvery ∣ index + 1 then p.plannedIncrement index / 2 else p.plannedIncrement index

theorem halvings_succ (p : SweepPlan α) (index : ℕ) :
    p.halvings (index + 1) = p.halvings index + if p.halveEvery ∣ index + 1 then 1 else 0 :=
  Nat.succ_div

theorem halvings_mono (p : SweepPlan α) : Monotone p.halvings := fun _ _ h =>
  Nat.div_le_div_right h

/-- A step is the next of its period, or the first of the next one. -/
theorem mod_halveEvery_succ (p : SweepPlan α) (index : ℕ) :
    (index + 1) % p.halveEvery + (if p.halveEvery ∣ index + 1 then p.halveEvery else 0) =
      index % p.halveEvery + 1 := by
  have hbefore := Nat.div_add_mod index p.halveEvery
  have hafter := Nat.div_add_mod (index + 1) p.halveEvery
  rw [Nat.succ_div] at hafter
  by_cases hdvd : p.halveEvery ∣ index + 1
  · rw [if_pos hdvd, Nat.mul_succ] at hafter
    rw [if_pos hdvd]
    omega
  · rw [if_neg hdvd, Nat.add_zero] at hafter
    rw [if_neg hdvd]
    omega

end Definitions

variable {α : Type} [ExactScalar α] {p : SweepPlan α}

/-! ## Increments -/

theorem plannedIncrement_eq (p : SweepPlan α) (index : ℕ) :
    p.plannedIncrement index = p.increment * (1 / 2) ^ p.halvings index := by
  induction index with
  | zero => simp [plannedIncrement, halvings]
  | succ index ih =>
    rw [plannedIncrement, halvings_succ, ih]
    split
    · rw [pow_succ]
      ring
    · rw [add_zero]

theorem incrementAt_eq (p : SweepPlan α) (index : ℕ) : p.incrementAt index =
    p.increment * (1 / 2) ^ Int.bmod (p.halvings index) (2 ^ 32) := by
  have hhalf : (0.5 : α) = 1 / 2 := by
    rw [ExactScalar.ofScientific_eq_ratCast]
    norm_num
  rw [incrementAt, Scalar.powInt_eq_zpow, hhalf]
  rfl

/-- Different powers of one half make different increments. -/
theorem mul_half_zpow_eq_iff {s : α} {m n : ℤ} :
    s * (1 / 2) ^ m = s * (1 / 2) ^ n ↔ s = 0 ∨ m = n := by
  rw [mul_eq_mul_left_iff, or_comm, zpow_right_inj₀ (by norm_num) (by norm_num)]

theorem incrementAt_eq_plannedIncrement_iff (p : SweepPlan α) (index : ℕ) :
    p.incrementAt index = p.plannedIncrement index ↔
      p.increment = 0 ∨ p.halvings index < 2 ^ 31 := by
  rw [incrementAt_eq, plannedIncrement_eq, ← zpow_natCast, mul_half_zpow_eq_iff,
    bmod_natCast_eq_iff]

theorem incrementAt_pos (hp : 0 < p.increment) (index : ℕ) : 0 < p.incrementAt index := by
  rw [incrementAt_eq]
  positivity

theorem plannedIncrement_nonneg (hp : 0 ≤ p.increment) (index : ℕ) :
    0 ≤ p.plannedIncrement index := by
  rw [plannedIncrement_eq]
  positivity

theorem plannedIncrement_antitone (hp : 0 ≤ p.increment) : Antitone p.plannedIncrement := by
  refine antitone_nat_of_succ_le fun index => ?_
  have hnonneg := plannedIncrement_nonneg hp index
  rw [plannedIncrement]
  split
  · linarith
  · exact le_rfl

/-- One step: the increment is halved or kept as it is planned, unless the number of halvings does
not fit any more. -/
theorem incrementAt_succ_eq_iff (p : SweepPlan α) (index : ℕ) :
    (p.incrementAt (index + 1) =
        if p.halveEvery ∣ index + 1 then p.incrementAt index / 2 else p.incrementAt index) ↔
      p.increment = 0 ∨ ¬p.Overflows (index + 1) := by
  have hsucc := halvings_succ p index
  by_cases hdvd : p.halveEvery ∣ index + 1
  · rw [if_pos hdvd] at hsucc ⊢
    have hhalf : p.incrementAt index / 2 =
        p.increment * (1 / 2) ^ (Int.bmod (p.halvings index) (2 ^ 32) + 1) := by
      rw [incrementAt_eq, zpow_add_one₀ (by norm_num)]
      ring
    rw [hhalf, incrementAt_eq, mul_half_zpow_eq_iff, Overflows, and_iff_right hdvd, hsucc,
      bmod_natCast_succ]
    refine or_congr_right ?_
    rw [sub_eq_self, ite_eq_right_iff]
    simp
  · rw [if_neg hdvd, add_zero] at hsucc
    rw [if_neg hdvd, incrementAt_eq, incrementAt_eq, hsucc]
    exact iff_of_true rfl (Or.inr fun h => hdvd h.1)

/-- Where the number of halvings does not fit any more, the increment grows. -/
theorem incrementAt_lt_succ (hp : 0 < p.increment) {index : ℕ} (h : p.Overflows (index + 1)) :
    p.incrementAt index < p.incrementAt (index + 1) := by
  obtain ⟨hdvd, hover⟩ := h
  have hsucc := halvings_succ p index
  rw [if_pos hdvd] at hsucc
  rw [hsucc] at hover
  rw [incrementAt_eq, incrementAt_eq, hsucc, bmod_natCast_succ, if_pos hover]
  refine mul_lt_mul_of_pos_left ?_ hp
  exact zpow_lt_zpow_right_of_lt_one₀ (by norm_num) (by norm_num) (by omega)

/-- **The increments of a sweep**, over exact arithmetic.  The first is the given one, and the next
is half of it or the same as it is planned, unless the number of halvings does not fit any more;
where it does not, a positive increment grows.  So increments are those that are planned, and do not
grow, while there are fewer than `2 ^ 31` halvings; and without halvings they are all the same. -/
theorem incrementAt_follows_plan (p : SweepPlan α) :
    p.incrementAt 0 = p.increment ∧
    (∀ index, (p.incrementAt (index + 1) =
        if p.halveEvery ∣ index + 1 then p.incrementAt index / 2 else p.incrementAt index) ↔
      p.increment = 0 ∨ ¬p.Overflows (index + 1)) ∧
    (∀ index, p.incrementAt index = p.plannedIncrement index ↔
      p.increment = 0 ∨ p.halvings index < 2 ^ 31) ∧
    (0 ≤ p.increment → ∀ i j, i ≤ j → p.halvings j < 2 ^ 31 →
      p.incrementAt j ≤ p.incrementAt i) ∧
    (0 < p.increment → ∀ index, p.Overflows (index + 1) →
      p.incrementAt index < p.incrementAt (index + 1)) ∧
    (p.halveEvery = 0 → ∀ index, p.incrementAt index = p.increment) := by
  have hplan : ∀ {index}, p.halvings index < 2 ^ 31 →
      p.incrementAt index = p.plannedIncrement index := fun h =>
    (incrementAt_eq_plannedIncrement_iff p _).mpr (Or.inr h)
  refine ⟨?_, incrementAt_succ_eq_iff p, incrementAt_eq_plannedIncrement_iff p,
    fun hp i j hij hj => ?_, fun hp index => incrementAt_lt_succ hp, fun hnever index => ?_⟩
  · exact hplan (by simp [halvings])
  · rw [hplan hj, hplan ((halvings_mono p hij).trans_lt hj)]
    exact plannedIncrement_antitone hp hij
  · have hnone := halvings_of_never hnever index
    rw [hplan (by omega), plannedIncrement_eq, hnone, pow_zero, mul_one]

/-- An increment that is halved at every step: after `2 ^ 31` halvings it is not what was planned,
but greater than the one before. -/
theorem incrementAt_follows_plan_everyStep :
    let p : SweepPlan ℝ := { standard with halveEvery := 1 }
    p.incrementAt 0 = 0.05 ∧ p.incrementAt 1 = p.incrementAt 0 / 2 ∧
      p.incrementAt 2147483647 < p.incrementAt 2147483648 ∧
      p.incrementAt 2147483648 ≠ p.plannedIncrement 2147483648 := by
  intro p
  obtain ⟨hfirst, hstep, hplan, -, hgrows, -⟩ := incrementAt_follows_plan p
  have hpos : 0 < p.increment := by
    norm_num [p, standard]
  have hhalvings : ∀ index, p.halvings index = index := Nat.div_one
  refine ⟨hfirst, ?_, ?_, fun h => ?_⟩
  · have hnot : ¬p.Overflows (0 + 1) := fun h => by
      have hover := h.2
      rw [hhalvings] at hover
      exact absurd hover (by norm_num)
    rw [(hstep 0).mpr (Or.inr hnot), if_pos (one_dvd _)]
  · refine hgrows hpos 2147483647 ⟨one_dvd _, ?_⟩
    rw [hhalvings]
    norm_num
  · rcases (hplan 2147483648).mp h with hzero | hfew
    · exact hpos.ne' hzero
    · rw [hhalvings] at hfew
      exact absurd hfew (by norm_num)

/-! ## Filling fractions -/

/-- What has been reached, and what is left: two periods of the current increment, less what the
current period has used up. -/
theorem fractionAfter_add_remaining (p : SweepPlan α) (start : α) {n : ℕ}
    (hn : ∀ i < n, p.halvings i < 2 ^ 31) :
    p.fractionAfter start n +
        (2 * p.halveEvery - (n % p.halveEvery : ℕ)) * p.plannedIncrement n =
      start + 2 * p.halveEvery * p.increment := by
  induction n with
  | zero => simp [fractionAfter, plannedIncrement]
  | succ n ih =>
    have hplan : p.incrementAt n = p.plannedIncrement n :=
      (incrementAt_eq_plannedIncrement_iff p n).mpr (Or.inr (hn n n.lt_succ_self))
    have hmod := congrArg (Nat.cast (R := α)) (mod_halveEvery_succ p n)
    rw [← ih fun i hi => hn i (hi.trans n.lt_succ_self), fractionAfter, next, hplan,
      plannedIncrement]
    push_cast at hmod
    by_cases hdvd : p.halveEvery ∣ n + 1
    · have hfirst : (n + 1) % p.halveEvery = 0 := Nat.mod_eq_zero_of_dvd hdvd
      rw [if_pos hdvd, hfirst] at hmod
      rw [if_pos hdvd, hfirst]
      linear_combination -(p.plannedIncrement n) * hmod
    · rw [if_neg hdvd] at hmod
      rw [if_neg hdvd]
      linear_combination -(p.plannedIncrement n) * hmod

theorem fractionAfter_strictMono (hp : 0 < p.increment) (start : α) :
    StrictMono (p.fractionAfter start) :=
  strictMono_nat_of_lt_succ fun n => lt_add_of_pos_right _ (incrementAt_pos hp n)

/-- **Where a sweep leads**, over exact arithmetic.  With a positive increment that is halved every
`h` steps, the filling fractions increase, and as long as the number of halvings fits they stay
below what `2 * h` steps of the first increment would lead to.  After `m` periods all of this way is
done but its `2 ^ m`-th part. -/
theorem fractionAfter_bounded (hp : 0 < p.increment) (hperiod : 1 ≤ p.halveEvery) (start : α)
    {n : ℕ} (hn : ∀ i < n, p.halvings i < 2 ^ 31) :
    StrictMono (p.fractionAfter start) ∧
      (∀ k ≤ n, p.fractionAfter start k < start + 2 * p.halveEvery * p.increment) ∧
      ∀ m, p.halveEvery * m = n → p.fractionAfter start n =
        start + 2 * p.halveEvery * p.increment * (1 - (1 / 2) ^ m) := by
  refine ⟨fractionAfter_strictMono hp start, fun k hk => ?_, fun m hm => ?_⟩
  · rw [← fractionAfter_add_remaining p start fun i hi => hn i (hi.trans_le hk)]
    have hmod : ((k % p.halveEvery : ℕ) : α) < p.halveEvery :=
      Nat.cast_lt.mpr (Nat.mod_lt k hperiod)
    have hleft : (0 : α) < 2 * p.halveEvery - (k % p.halveEvery : ℕ) := by
      have hnonneg : (0 : α) ≤ p.halveEvery := Nat.cast_nonneg _
      linarith
    have hincrement : 0 < p.plannedIncrement k := by
      rw [plannedIncrement_eq]
      positivity
    exact lt_add_of_pos_right _ (mul_pos hleft hincrement)
  · have htotal := fractionAfter_add_remaining p start hn
    have hfirst : n % p.halveEvery = 0 := by rw [← hm, Nat.mul_mod_right]
    have hhalvings : p.halvings n = m := by rw [halvings, ← hm, Nat.mul_div_cancel_left m hperiod]
    rw [hfirst, Nat.cast_zero, sub_zero, plannedIncrement_eq, hhalvings] at htotal
    linear_combination htotal

/-- The standard sweep stays below a filling fraction of `0.4`, and its twenty steps lead to
`0.3875`. -/
theorem fractionAfter_bounded_standard :
    let p : SweepPlan ℝ := standard
    (0 < p.increment ∧ 1 ≤ p.halveEvery ∧ ∀ i < 20, p.halvings i < 2 ^ 31) ∧
      (∀ k ≤ 20, p.fractionAfter 0 k < 0.4) ∧ p.fractionAfter 0 20 = 0.3875 := by
  intro p
  have hpos : 0 < p.increment := by
    norm_num [p, standard]
  have hperiod : 1 ≤ p.halveEvery := by decide
  have hfew : ∀ i < 20, p.halvings i < 2 ^ 31 := by decide
  obtain ⟨-, hbelow, hreached⟩ := fractionAfter_bounded hpos hperiod 0 hfew
  have hfirst : p.increment = 0.05 := rfl
  have hfour : p.halveEvery = 4 := rfl
  rw [hfirst, hfour] at hbelow hreached
  refine ⟨⟨hpos, hperiod, hfew⟩, fun k hk => (hbelow k hk).trans_eq ?_, (hreached 5 rfl).trans ?_⟩
  · norm_num
  · norm_num

end SweepPlan

end SphereLab
