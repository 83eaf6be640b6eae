import Mathlib
import SphereLab.Proofs.Double.Range
import SphereLab.Proofs.FreeEnergy.Resumption
import SphereLab.Proofs.Scalar.Exact

/-!
# Sound sweeps

A free energy means something only if the counts behind it are positive numbers.  A sweep refuses a
header whose counts are zero or below, and nothing else: not-a-number passes, and so do infinity
and counts whose quotient is too large or too small for a double.  Where all numbers are in range,
the free energies are finite, however many steps there are.

The logarithm is a parameter.  All that is asked of it is that it is near the real logarithm.

* `isFinite_accumulate`: the sum of logarithms does not grow past `2 ^ 64`.
* `SweepStep.recordOf_cases`: a header gives a record with counts that pass the comparisons, or an
  error in the data.
* `SweepRecord.Guarded.sound_iff`: when such a record is sound.
* `sound_iff_inRange`: a sweep that succeeds is sound exactly if its headers' numbers are in range.
-/

namespace SphereLab

/-! ## Logarithms of doubles -/

/-- A function on doubles is near the logarithm. -/
def IsLogarithm (log : Float → Float) : Prop :=
  ∀ x : Float, x.isFinite = true → 0 < realOf x →
    (log x).isFinite = true ∧ |realOf (log x) - Real.log (realOf x)| ≤ 1

theorem abs_log_realOf_le {x : Float} (hx : x.isFinite = true) (hpos : 0 < realOf x) :
    |Real.log (realOf x)| ≤ 1074 := by
  have htwo : Real.log 2 ≤ 1 := by linarith [Real.log_two_lt_d9]
  have htwo' : 0 ≤ Real.log 2 := Real.log_nonneg one_le_two
  have hlower := Real.log_le_log (by positivity) (le_realOf_of_pos hx hpos)
  have hbound : realOf x ≤ 2 ^ (1024 : ℤ) := by
    have hlt := abs_realOf_lt hx
    rw [abs_of_pos hpos, doubleBound] at hlt
    have hsplit : (2 : ℝ) ^ (1024 : ℤ) = 2 ^ 53 * 2 ^ (971 : ℤ) := by
      rw [← zpow_natCast, ← zpow_add₀ two_ne_zero]
      norm_num
    rw [hsplit]
    exact hlt.le.trans (mul_le_mul_of_nonneg_right (by norm_num) (by positivity))
  have hupper := Real.log_le_log hpos hbound
  rw [Real.log_zpow] at hlower hupper
  push_cast at hlower hupper
  rw [abs_le]
  constructor <;> nlinarith

theorem IsLogarithm.small {log : Float → Float} (h : IsLogarithm log) {x : Float}
    (hx : x.isFinite = true) (hpos : 0 < realOf x) :
    (log x).isFinite = true ∧ |realOf (log x)| < 2 ^ 11 := by
  obtain ⟨hfinite, hnear⟩ := h x hx hpos
  have hlog := abs_log_realOf_le hx hpos
  refine ⟨hfinite, ?_⟩
  rw [abs_le] at hnear hlog
  rw [abs_lt]
  constructor <;> linarith

/-! ## Free energies -/

/-- The free energies are finite if the ratios are positive numbers.  The sum behind them stays
below `2 ^ 64`, where a logarithm is less than half a unit of its last place. -/
theorem isFinite_accumulate {log : Float → Float} (hlog : IsLogarithm log) {n sum : Float}
    (hn : n.isFinite = true) (hone : 1 ≤ realOf n) (hsum : sum.isFinite = true)
    (hbound : |realOf sum| ≤ 2 ^ 64) {ratios : List Float}
    (hratios : ∀ ratio ∈ ratios, ratio.isFinite = true ∧ 0 < realOf ratio) :
    ∀ f ∈ FreeEnergy.accumulate log n sum ratios, f.isFinite = true := by
  induction ratios generalizing sum with
  | nil => exact fun f hf => absurd hf List.not_mem_nil
  | cons ratio rest ih =>
    obtain ⟨hratio, hpos⟩ := hratios ratio List.mem_cons_self
    obtain ⟨hfinite, hsmall⟩ := hlog.small hratio hpos
    obtain ⟨hsum', hbound'⟩ := isFinite_sub_of_le hsum hfinite hbound hsmall
    rintro f (_ | ⟨_, hf⟩)
    · exact isFinite_div_of_one_le hsum' hn hone
    · exact ih hsum' hbound' (fun r hr => hratios r (List.mem_cons_of_mem _ hr)) f hf

theorem isFinite_cumulativeWith {log : Float → Float} (hlog : IsLogarithm log) {spheres : ℕ}
    (hspheres : spheres < 2 ^ 32) {ratios : List Float}
    (hratios : ∀ ratio ∈ ratios, ratio.isFinite = true ∧ 0 < realOf ratio) :
    ∀ f ∈ FreeEnergy.cumulativeWith log spheres ratios, f.isFinite = true := by
  have hcount : ((max spheres 1 : ℕ) : ℤ).natAbs < 2 ^ 53 := by omega
  obtain ⟨hreal, hfinite⟩ := realOf_doubleOfInt hcount
  have hone : 1 ≤ realOf (doubleOfInt (max spheres 1 : ℕ)) := by
    rw [hreal]
    exact_mod_cast le_max_right spheres 1
  have hzero : |realOf 0.0| ≤ 2 ^ 64 := by
    rw [realOf_zero, abs_zero]
    positivity
  rw [FreeEnergy.cumulativeWith, Scalar.ofNat]
  exact isFinite_accumulate hlog hfinite hone (Reading.isFinite_iff.mpr ⟨_, _, ofFloat_zero⟩) hzero
    hratios

/-! ## What a step refuses -/

/-- A header has the numbers of a step, and its counts are not zero or below. -/
def Header.Admits (h : Header) : Prop :=
  ∃ ffSmall tried succeeded, h.number "ff_small" = .ok ffSmall ∧
    h.number "total checks of small cell" = .ok tried ∧
    h.number "total valid small checks" = .ok succeeded ∧ ¬tried ≤ 0 ∧ ¬succeeded ≤ 0

namespace SweepStep

variable {step : SweepStep Float} {h : Header}

theorem entryOf_eq_ok_iff {key : String} {x : Float} :
    step.entryOf h key = .ok x ↔ h.number key = .ok x := by
  rw [entryOf]
  cases h.number key <;> simp [Except.mapError]

/-- A number that is missing is an error in the data. -/
theorem exists_data_of_entryOf_eq_error {key : String} {failure : Failure}
    (herror : step.entryOf h key = .error failure) : ∃ message, failure = .data message := by
  rw [entryOf] at herror
  cases hnumber : h.number key with
  | ok x => rw [hnumber] at herror; exact absurd herror (by simp [Except.mapError])
  | error fault =>
    rw [hnumber] at herror
    cases herror
    cases fault <;> exact ⟨_, rfl⟩

theorem recordOf_eq {ffSmall tried succeeded : Float} (hsmall : h.number "ff_small" = .ok ffSmall)
    (htried : h.number "total checks of small cell" = .ok tried)
    (hsucceeded : h.number "total valid small checks" = .ok succeeded) (hpos : ¬tried ≤ 0)
    (hpos' : ¬succeeded ≤ 0) :
    step.recordOf h = .ok ⟨step.ff, ffSmall, tried, succeeded, succeeded / tried⟩ := by
  rw [recordOf, entryOf_eq_ok_iff.mpr hsmall, entryOf_eq_ok_iff.mpr htried,
    entryOf_eq_ok_iff.mpr hsucceeded]
  simp only [bind, Except.bind, pure, Except.pure]
  rw [if_neg hpos, if_neg hpos']

/-- What a step can come to: a record with counts that are not zero or below, or an error in the
data. -/
theorem recordOf_cases (step : SweepStep Float) (h : Header) :
    (∃ ffSmall tried succeeded, h.number "ff_small" = .ok ffSmall ∧
        h.number "total checks of small cell" = .ok tried ∧
        h.number "total valid small checks" = .ok succeeded ∧ ¬tried ≤ 0 ∧ ¬succeeded ≤ 0 ∧
        step.recordOf h = .ok ⟨step.ff, ffSmall, tried, succeeded, succeeded / tried⟩) ∨
      ∃ message, step.recordOf h = .error (.data message) := by
  rw [recordOf]
  cases hsmall : step.entryOf h "ff_small" with
  | error failure =>
    obtain ⟨message, rfl⟩ := exists_data_of_entryOf_eq_error hsmall
    exact Or.inr ⟨message, rfl⟩
  | ok ffSmall =>
    cases htried : step.entryOf h "total checks of small cell" with
    | error failure =>
      obtain ⟨message, rfl⟩ := exists_data_of_entryOf_eq_error htried
      exact Or.inr ⟨message, rfl⟩
    | ok tried =>
      cases hsucceeded : step.entryOf h "total valid small checks" with
      | error failure =>
        obtain ⟨message, rfl⟩ := exists_data_of_entryOf_eq_error hsucceeded
        exact Or.inr ⟨message, rfl⟩
      | ok succeeded =>
        simp only [bind, Except.bind, pure, Except.pure]
        split
        · exact Or.inr ⟨_, rfl⟩
        · rename_i hpos
          split
          · exact Or.inr ⟨_, rfl⟩
          · rename_i hpos'
            exact Or.inl ⟨ffSmall, tried, succeeded, entryOf_eq_ok_iff.mp hsmall,
              entryOf_eq_ok_iff.mp htried, entryOf_eq_ok_iff.mp hsucceeded, hpos, hpos', rfl⟩

/-- The record that a step has read: it begins where the step does, and has counts that are not zero
or below. -/
theorem eq_of_record {d : Directory} {r : SweepRecord Float} (h : step.record d = .ok r) :
    ∃ ffSmall tried succeeded, ¬tried ≤ 0 ∧ ¬succeeded ≤ 0 ∧
      r = ⟨step.ff, ffSmall, tried, succeeded, succeeded / tried⟩ := by
  rw [record] at h
  cases hload : Header.load d step.output with
  | error failure => rw [hload] at h; cases h
  | ok header =>
    rw [hload] at h
    replace h : step.recordOf header = .ok r := h
    rcases step.recordOf_cases header with
      ⟨ffSmall, tried, succeeded, _, _, _, hpos, hpos', hrecord⟩ | ⟨message, herror⟩
    · rw [hrecord] at h
      cases h
      exact ⟨ffSmall, tried, succeeded, hpos, hpos', rfl⟩
    · rw [herror] at h
      cases h

/-- A header that is not admitted is an error in the data. -/
theorem recordOf_of_not_admits (hadmits : ¬h.Admits) :
    ∃ message, step.recordOf h = .error (.data message) := by
  rcases recordOf_cases step h with
    ⟨ffSmall, tried, succeeded, hsmall, htried, hsucceeded, hpos, hpos', _⟩ | herror
  · exact absurd ⟨ffSmall, tried, succeeded, hsmall, htried, hsucceeded, hpos, hpos'⟩ hadmits
  · exact herror

end SweepStep

/-! ## Sound records -/

namespace SweepRecord

/-- A record passes the comparisons that a step makes. -/
structure Guarded (r : SweepRecord Float) : Prop where
  tried : ¬r.tried ≤ 0
  succeeded : ¬r.succeeded ≤ 0
  ratio : r.ratio = r.succeeded / r.tried

/-- The numbers of a record are finite, and its counts and their ratio are positive. -/
structure Sound (r : SweepRecord Float) : Prop where
  ffSmall : r.ffSmall.isFinite = true
  tried : r.tried.isFinite = true ∧ 0 < realOf r.tried
  succeeded : r.succeeded.isFinite = true ∧ 0 < realOf r.succeeded
  ratio : r.ratio.isFinite = true ∧ 0 < realOf r.ratio

/-- The numbers that a header reports are finite, and the quotient of its counts neither overflows
nor vanishes. -/
structure InRange (r : SweepRecord Float) : Prop where
  ffSmall : r.ffSmall.isFinite = true
  tried : r.tried.isFinite = true
  succeeded : r.succeeded.isFinite = true
  quotient : 2 ^ (-1075 : ℤ) < realOf r.succeeded / realOf r.tried ∧
    realOf r.succeeded / realOf r.tried < doubleBound

theorem Guarded.sound_iff {r : SweepRecord Float} (h : r.Guarded) :
    r.Sound ↔ r.InRange := by
  obtain ⟨htried, hsucceeded, hratio⟩ := h
  have hpos : ∀ {x : Float}, ¬x ≤ 0 → x.isFinite = true → 0 < realOf x := by
    intro x hx hfinite
    have hzero : Reading.ofFloat (0 : Float) = .finite false ⟨0, -1074⟩ := by decide +kernel
    have hreal : realOf (0 : Float) = 0 := by
      rw [realOf_of_ofFloat hzero, ← realOf_of_ofFloat ofFloat_zero, realOf_zero]
    rw [le_iff_realOf_le hfinite (Reading.isFinite_iff.mpr ⟨_, _, hzero⟩), hreal, not_le] at hx
    exact hx
  constructor
  · rintro ⟨hsmall, ⟨hfinite, htried'⟩, ⟨hfinite', hsucceeded'⟩, hratio'⟩
    rw [hratio] at hratio'
    obtain ⟨hrange, hvanish⟩ := isFinite_div_of_pos hfinite' hfinite hsucceeded' htried'
    exact ⟨hsmall, hfinite, hfinite', (hvanish hratio'.1).mp hratio'.2, hrange.mp hratio'.1⟩
  · rintro ⟨hsmall, hfinite, hfinite', hvanishes, hover⟩
    have htried' := hpos htried hfinite
    have hsucceeded' := hpos hsucceeded hfinite'
    obtain ⟨hrange, hvanish⟩ := isFinite_div_of_pos hfinite' hfinite hsucceeded' htried'
    have hratio' := hrange.mpr hover
    refine ⟨hsmall, ⟨hfinite, htried'⟩, ⟨hfinite', hsucceeded'⟩, ?_⟩
    rw [hratio]
    exact ⟨hratio', (hvanish hratio').mpr hvanishes⟩

end SweepRecord

/-! ## Sound sweeps -/

/-- The records of a sweep are sound, and its free energies are finite. -/
structure Sweep.Sound (s : Sweep Float) : Prop where
  records : ∀ r ∈ s.records, r.Sound
  freeEnergy : ∀ f ∈ s.freeEnergy, f.isFinite = true

/-- A sweep with sound records is sound: no number of steps makes its free energies overflow. -/
theorem Sweep.sound_ofRecordsWith {log : Float → Float} (hlog : IsLogarithm log) {spheres : ℕ}
    (hspheres : spheres < 2 ^ 32) {records : List (SweepRecord Float)}
    (h : ∀ r ∈ records, r.Sound) : (Sweep.ofRecordsWith log spheres records).Sound := by
  refine ⟨h, isFinite_cumulativeWith hlog hspheres ?_⟩
  intro ratio hratio
  obtain ⟨r, hr, rfl⟩ := List.mem_map.mp hratio
  exact (h r hr).ratio

namespace SweepPlan

variable {σ : Type} {p : SweepPlan Float} {simulate : Simulator σ} {site site' : Site σ}
  {log : Float → Float} {left index : ℕ} {ff : Float}

theorem guarded_of_record {step : SweepStep Float} {d : Directory} {r : SweepRecord Float}
    (h : step.record d = .ok r) : r.Guarded := by
  obtain ⟨ffSmall, tried, succeeded, hpos, hpos', rfl⟩ := SweepStep.eq_of_record h
  exact ⟨hpos, hpos', rfl⟩

/-- All records of a run pass the comparisons. -/
theorem guarded_of_recordsFrom {records : List (SweepRecord Float)}
    (h : p.recordsFrom simulate left index ff site = (.ok records, site')) :
    ∀ r ∈ records, r.Guarded := by
  induction left generalizing index ff site records with
  | zero =>
    rw [recordsFrom] at h
    cases h
    exact fun r hr => absurd hr List.not_mem_nil
  | succ left ih =>
    rcases recordsFrom_succ_cases h with ⟨failure, _, hresult⟩ | ⟨failure, _, _, hresult⟩ |
      ⟨between, record, rest, _, hrecord, hrest, hresult⟩
    · cases hresult
    · cases hresult
    · cases rest with
      | error failure => cases hresult
      | ok rest =>
        cases hresult
        rintro r (_ | ⟨_, hr⟩)
        · exact guarded_of_record hrecord
        · exact ih hrest r hr

/-- A step whose header is not admitted ends the run in an error in the data. -/
theorem recordsFrom_of_not_admits {text : String}
    (hensure : (p.stepAt index ff).ensure simulate site = (none, site'))
    (hread : site'.directory.readText (p.stepAt index ff).output = .ok text)
    (hadmits : ¬(Header.parse text).Admits) :
    ∃ message, p.recordsFrom simulate (left + 1) index ff site =
      (.error (.data message), site') := by
  obtain ⟨message, herror⟩ := (p.stepAt index ff).recordOf_of_not_admits hadmits
  have hrecord : (p.stepAt index ff).record site'.directory = .error (.data message) := by
    rw [SweepStep.record, Header.load, hread]
    exact herror
  refine ⟨message, ?_⟩
  rw [recordsFrom]
  simp only [hensure, hrecord]

/-- **A sweep that succeeds is sound exactly if the numbers of its headers are in range.**  The
counts of its records are not zero or below, and a header that is not admitted for that ends the
sweep in an error in the data.  But nothing refuses counts that are not numbers or not finite, or
whose quotient overflows or vanishes. -/
theorem sound_iff_inRange (p : SweepPlan Float) (hspheres : p.spheres < 2 ^ 32)
    {log : Float → Float} (hlog : IsLogarithm log) (simulate : Simulator σ) (site : Site σ) :
    (∀ s site', p.runWith log simulate site = (.ok s, site') →
      (∀ r ∈ s.records, r.Guarded) ∧ (s.Sound ↔ ∀ r ∈ s.records, r.InRange)) ∧
    ∀ left index ff site' text, (p.stepAt index ff).ensure simulate site = (none, site') →
      site'.directory.readText (p.stepAt index ff).output = .ok text →
      ¬(Header.parse text).Admits →
      ∃ message, p.recordsFrom simulate (left + 1) index ff site =
        (.error (.data message), site') := by
  refine ⟨?_, fun left index ff site' text => recordsFrom_of_not_admits⟩
  intro s site' hrun
  obtain ⟨records, hrecords, rfl⟩ : ∃ records, (∀ r ∈ records, r.Guarded) ∧
      s = .ofRecordsWith log p.spheres records := by
    rw [runWith] at hrun
    split at hrun
    · cases hrun
    · split at hrun
      · cases hrun
      · split at hrun
        · cases hrun
        · rename_i records last hlast
          cases hrun
          exact ⟨records, guarded_of_recordsFrom hlast, rfl⟩
  refine ⟨hrecords, fun hsound r hr => ?_, fun hrange => ?_⟩
  · exact (hrecords r hr).sound_iff.mp (hsound.records r hr)
  · exact Sweep.sound_ofRecordsWith hlog hspheres
      fun r hr => (hrecords r hr).sound_iff.mpr (hrange r hr)

/-! ## A free energy that is not a number -/

/-- The logarithm to whole numbers. -/
noncomputable def wholeLog (x : Float) : Float :=
  match Reading.ofFloat x with
  | .nan => x
  | .infinite negative => if negative then 0.0 / 0.0 else x
  | .finite _ _ =>
    if realOf x < 0 then 0.0 / 0.0
    else if realOf x = 0 then -1.0 / 0.0
    else doubleOfInt (round (Real.log (realOf x)))

theorem isLogarithm_wholeLog : IsLogarithm wholeLog := by
  intro x hx hpos
  obtain ⟨negative, d, hread⟩ := Reading.isFinite_iff.mp hx
  have hround := abs_sub_round (Real.log (realOf x))
  have hsize : (round (Real.log (realOf x))).natAbs < 2 ^ 53 := by
    have hlog := abs_log_realOf_le hx hpos
    have hle : |((round (Real.log (realOf x)) : ℤ) : ℝ)| ≤ 1075 := by
      rw [abs_le] at hlog hround ⊢
      constructor <;> linarith
    have hle' : |round (Real.log (realOf x))| ≤ 1075 := by exact_mod_cast hle
    rw [abs_le] at hle'
    omega
  obtain ⟨hreal, hfinite⟩ := realOf_doubleOfInt hsize
  rw [wholeLog, hread]
  dsimp only
  rw [if_neg (not_lt.mpr hpos.le), if_neg hpos.ne', hreal, abs_sub_comm]
  exact ⟨hfinite, hround.trans (by norm_num)⟩

/-- The standard sweep with a single step, and with a data folder below the root. -/
def oneStep : SweepPlan Float :=
  { (standard : SweepPlan Float) with steps := 1, dataFolder := "/data" }

/-- A sweep of one step reads back a report that is there. -/
theorem exists_run_oneStep {text : String} {ffSmall tried succeeded : Float}
    (hheader : Header.parse text = ⟨[("total valid small checks", .number succeeded),
      ("total checks of small cell", .number tried), ("ff_small", .number ffSmall)]⟩)
    (htried : ¬tried ≤ 0) (hsucceeded : ¬succeeded ≤ 0) (log : Float → Float) :
    ∃ site : Site Unit, oneStep.runWith log reporting site =
      (.ok (.ofRecordsWith log oneStep.spheres [⟨oneStep.initialFraction piDouble, ffSmall, tried,
        succeeded, succeeded / tried⟩]), site) := by
  obtain ⟨d, place, hcreate, hwrote⟩ := (emptyData_root (p := oneStep) rfl).exists_wrote
  let step := oneStep.stepAt 0 (oneStep.initialFraction piDouble)
  have hwrote' := hwrote.put (List.not_mem_nil (a := step.name)) text
  have hnone := hwrote.entryAt_eq_none (List.not_mem_nil (a := step.name))
  let d' := d.put (place ++ [step.name ++ "-g.dat"]) (.file (.text text) false)
  have hname := oneStep.isName_output (oneStep.initialFraction piDouble)
    (oneStep.next 0 (oneStep.initialFraction piDouble))
  have hread : d'.readText step.output = .ok text :=
    Directory.readText_joinPath hwrote'.folder hname (Directory.entryAt_put_of_none hnone _)
  have hagain : d'.createFolders oneStep.folder = .ok d' :=
    Directory.createFolders_of_grows hcreate (Directory.grows_put hnone _)
  let site : Site Unit := ⟨(), d', []⟩
  have hensure : step.ensure reporting site = (none, site) :=
    ensure_of_mem 0 _ hwrote' List.mem_cons_self
  have hrecord : step.record d' =
      .ok ⟨oneStep.initialFraction piDouble, ffSmall, tried, succeeded, succeeded / tried⟩ := by
    rw [SweepStep.record, Header.load, hread]
    refine step.recordOf_eq ?_ ?_ ?_ htried hsucceeded
    all_goals rw [hheader]; rfl
  have hspheres : oneStep.isEmptyCell = false := rfl
  refine ⟨site, ?_⟩
  rw [runWith, hspheres, if_neg (by decide), hagain]
  dsimp only
  have hrecords : oneStep.recordsFrom reporting oneStep.steps 0
      (oneStep.initialFraction piDouble) site = (.ok [⟨oneStep.initialFraction piDouble, ffSmall,
        tried, succeeded, succeeded / tried⟩], site) := recordsFrom_of_record hensure hrecord rfl
  rw [hrecords]

/-- A report whose number of insertions is not a number makes a sweep that succeeds and is not
sound. -/
theorem sound_iff_inRange_undefined :
    oneStep.spheres < 2 ^ 32 ∧ IsLogarithm wholeLog ∧ ∃ (site : Site Unit) (s : Sweep Float),
      oneStep.runWith wholeLog reporting site = (.ok s, site) ∧ (∀ r ∈ s.records, r.Guarded) ∧
      ¬s.Sound := by
  obtain ⟨ffSmall, hsmall⟩ : ∃ ffSmall, readDouble? "0.05".toList = some ffSmall := ⟨_, rfl⟩
  obtain ⟨tried, htried, hnan, hpos⟩ : ∃ tried, readDouble? "nan".toList = some tried ∧
      tried.isFinite = false ∧ ¬tried ≤ 0 := ⟨_, rfl, by decide +kernel, by decide +kernel⟩
  obtain ⟨succeeded, hsucceeded, hpos'⟩ :
      ∃ succeeded, readDouble? "500".toList = some succeeded ∧ ¬succeeded ≤ 0 :=
    ⟨_, rfl, by decide +kernel⟩
  obtain ⟨site, hrun⟩ :=
    exists_run_oneStep (parse_report hsmall htried hsucceeded) hpos hpos' wholeLog
  have hspheres : oneStep.spheres < 2 ^ 32 := by decide
  obtain ⟨hruns, -⟩ := sound_iff_inRange oneStep hspheres isLogarithm_wholeLog reporting site
  obtain ⟨hguarded, hsound⟩ := hruns _ _ hrun
  refine ⟨hspheres, isLogarithm_wholeLog, site, _, hrun, hguarded, fun h => ?_⟩
  have hrange := hsound.mp h _ List.mem_cons_self
  exact absurd hrange.tried (by rw [hnan]; decide)

end SweepPlan

end SphereLab
