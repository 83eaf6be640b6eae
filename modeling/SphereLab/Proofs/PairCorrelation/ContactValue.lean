import Mathlib
import SphereLab.FreeEnergy.Estimate
import SphereLab.Proofs.PairCorrelation.Publication
import SphereLab.Proofs.PairCorrelation.Reference

/-!
# Free energy and contact value

The excess free energy and the contact value of hard spheres come from one equation of state, by
which the derivative of the first is four times the second.  The two are written as quotients on
their own, one for the report of sweeps and one for the fit of pair correlations.  In powers of
`1 - eta` the contact value is the mean of the inverse square and the inverse cube, so that it grows
up to the pole.  Without spheres it is one, and from there on it is above one, which is where the
function of a published header has something to say.

* `carnahanStarling_sub_eq`: the free energy apart from its tangent.
* `hasDerivAt_carnahanStarling`: its derivative.
* `strictMonoOn_contactValue`: the contact value grows.
* `exists_header_eq_one_iff`: where the function of a published header is one at every distance.
* `carnahanStarling_contactValue`: free energy, contact value and published header.
-/

namespace SphereLab

open FreeEnergy

section Exact

variable {α : Type} [ExactScalar α] {eta t : α}

/-! ## The free energy -/

theorem carnahanStarling_eq (eta : α) :
    carnahanStarling eta = (4 * eta - 3 * eta ^ 2) / (1 - eta) ^ 2 := by
  have hfour : (4.0 : α) = 4 := by norm_num [ExactScalar.ofScientific_eq_ratCast]
  have hthree : (3.0 : α) = 3 := by norm_num [ExactScalar.ofScientific_eq_ratCast]
  rw [carnahanStarling, Scalar.powInt_eq_zpow, zpow_ofNat, hfour, hthree, mul_assoc, ← pow_two]

/-- The free energy differs from its tangent by a square times a quotient without a pole at the
point of contact. -/
theorem carnahanStarling_sub_eq (heta : eta ≠ 1) (ht : t ≠ 1) :
    carnahanStarling t - carnahanStarling eta - 4 * contactValue eta * (t - eta) =
      (t - eta) ^ 2 * ((1 - eta + 2 * (1 - t) + 2 * (1 - eta) * (1 - t)) /
        ((1 - eta) ^ 3 * (1 - t) ^ 2)) := by
  have heta' : 1 - eta ≠ 0 := sub_ne_zero.mpr heta.symm
  have ht' : 1 - t ≠ 0 := sub_ne_zero.mpr ht.symm
  rw [carnahanStarling_eq, carnahanStarling_eq, contactValue_eq]
  field_simp
  ring

/-! ## The contact value -/

theorem contactValue_zero : contactValue (0 : α) = 1 := by
  rw [contactValue_eq]
  norm_num

/-- The contact value is the mean of two inverse powers. -/
theorem contactValue_eq_mean (h : eta ≠ 1) :
    contactValue eta = (1 / (1 - eta) ^ 2 + 1 / (1 - eta) ^ 3) / 2 := by
  have hne : 1 - eta ≠ 0 := sub_ne_zero.mpr h.symm
  rw [contactValue_eq]
  field_simp
  ring

theorem strictMonoOn_contactValue : StrictMonoOn contactValue (Set.Iio (1 : α)) := by
  intro eta heta t ht hlt
  have hpos : 0 < 1 - t := sub_pos.mpr ht
  have hpower : ∀ n ≠ 0, 1 / (1 - eta) ^ n < 1 / (1 - t) ^ n := fun n hn =>
    one_div_lt_one_div_of_lt (pow_pos hpos n)
      (pow_lt_pow_left₀ (sub_lt_sub_left hlt 1) hpos.le hn)
  rw [contactValue_eq_mean (ne_of_lt heta), contactValue_eq_mean (ne_of_lt ht)]
  exact div_lt_div_of_pos_right (add_lt_add (hpower 2 two_ne_zero) (hpower 3 three_ne_zero))
    two_pos

theorem one_lt_contactValue (h : 0 < eta) (h' : eta < 1) : 1 < contactValue eta := by
  have hlt := strictMonoOn_contactValue (Set.mem_Iio.mpr one_pos) (Set.mem_Iio.mpr h') h
  rwa [contactValue_zero] at hlt

theorem one_le_contactValue (h : 0 ≤ eta) (h' : eta < 1) : 1 ≤ contactValue eta := by
  rcases h.eq_or_lt with rfl | hpos
  · exact contactValue_zero.ge
  · exact (one_lt_contactValue hpos h').le

end Exact

theorem hasDerivAt_carnahanStarling {eta : ℝ} (h : eta ≠ 1) :
    HasDerivAt carnahanStarling (4 * contactValue eta) eta := by
  have hne : 1 - eta ≠ 0 := sub_ne_zero.mpr h.symm
  have htop : HasDerivAt (fun e : ℝ => 4 * e - 3 * e ^ 2) (4 - 3 * (2 * eta)) eta :=
    (((hasDerivAt_id' eta).const_mul 4).sub ((hasDerivAt_pow 2 eta).const_mul 3)).congr_deriv
      (by norm_num)
  have hbottom : HasDerivAt (fun e : ℝ => (1 - e) ^ 2) (2 * (1 - eta) * -1) eta :=
    (((hasDerivAt_id' eta).const_sub 1).pow 2).congr_deriv (by norm_num)
  have heq : carnahanStarling = fun e : ℝ => (4 * e - 3 * e ^ 2) / (1 - e) ^ 2 :=
    funext carnahanStarling_eq
  rw [heq, contactValue_eq]
  refine (htop.div hbottom (pow_ne_zero 2 hne)).congr_deriv ?_
  field_simp
  ring

/-! ## The published function -/

section Header

open Publication Ansatz CHeader

/-- What a published header is made from: a finite positive diameter, finite parameters and a time
stamp on one line, with elementary functions by which the switch of the model does not fold away. -/
structure IsPublishable (e : ElementaryFunctions) (sigma : Float) (fit : Fit Float)
    (stamp : String) : Prop where
  quarter : 0 < realOf (e.pow 0.25 4.0)
  finite : sigma.isFinite = true
  positive : 0 < realOf sigma
  length : fit.params.length = parameterCount
  params : ∀ v ∈ fit.params, v.isFinite = true
  line : '\n' ∉ stamp.toList

/-- The function of a published header is one at every distance exactly if there is no excess: with
an excess it is nothing below its bound. -/
theorem exists_header_eq_one_iff {e : ElementaryFunctions} {sigma : Float} {fit : Fit Float}
    {stamp : String} (h : IsPublishable e sigma fit stamp) {digits : ℕ}
    (hdigits : digits ≤ precisionLimit) :
    ∃ pair program,
      @Ansatz.model Float (Scalar.doublesWith e) { standard with sigma := sigma } =
        .ok (pair, program) ∧
      ((∀ c ∈ pair.constants, c.isFinite = true) →
        ∃ text header, header? pair sigma fit digits stamp = some text ∧ read? text = some header ∧
          ∀ contact, (∀ r, header.call? distribution [contact, r] = some 1) ↔ contact ≤ 1) := by
  obtain ⟨pair, program, z, hmodel, hnormal, hnames, hpair, -⟩ :=
    @exists_model Float ℝ (Scalar.doublesWith e) _ realOf (standsFor_realOf e)
      { standard with sigma := sigma } (switched_quarter h.quarter)
  refine ⟨pair, program, hmodel, fun hconstants => ?_⟩
  obtain ⟨text, header, params, htext, hread, -, hcall⟩ :=
    exists_header h.finite h.positive h.length h.params hdigits h.line
      (Formula.isNormal_of_doublesWith hnormal) hconstants hnames (hpair PowerDomain.real)
  refine ⟨text, header, htext, hread, fun contact => ⟨fun hone => ?_, fun hle r => ?_⟩⟩
  · by_contra hexcess
    have hbelow := hcall contact (bound (realOf sigma) - 1)
    rw [hone, piecewise, if_neg hexcess, if_pos (sub_one_lt _)] at hbelow
    exact one_ne_zero (Option.some.inj hbelow)
  · rw [hcall, piecewise, if_pos hle]

end Header

/-- **Free energy and contact value are of one equation of state.**  The derivative of the free
energy is four times the contact value.  The contact value is one without spheres and grows from
there, so that of all filling fractions only zero has a published function that is one at every
distance. -/
theorem carnahanStarling_contactValue {α : Type} [ExactScalar α] :
    (∀ eta t : α, eta ≠ 1 → t ≠ 1 →
      carnahanStarling t - carnahanStarling eta - 4 * contactValue eta * (t - eta) =
        (t - eta) ^ 2 * ((1 - eta + 2 * (1 - t) + 2 * (1 - eta) * (1 - t)) /
          ((1 - eta) ^ 3 * (1 - t) ^ 2))) ∧
      (∀ eta : ℝ, eta ≠ 1 → HasDerivAt carnahanStarling (4 * contactValue eta) eta) ∧
      (∀ eta : α, 0 ≤ eta → eta < 1 → 1 ≤ contactValue eta) ∧
      StrictMonoOn contactValue (Set.Ico (0 : α) 1) ∧
      (∀ eta : α, 0 < eta → eta < 1 → 1 < contactValue eta) ∧
      ∀ e sigma fit stamp, IsPublishable e sigma fit stamp → ∀ digits ≤ precisionLimit,
        ∃ pair program,
        @Ansatz.model Float (Scalar.doublesWith e) { Ansatz.standard with sigma := sigma } =
          .ok (pair, program) ∧
        ((∀ c ∈ pair.constants, c.isFinite = true) → ∃ text header,
          Publication.header? pair sigma fit digits stamp = some text ∧
          CHeader.read? text = some header ∧
          ∀ eta : ℝ, 0 ≤ eta → eta < 1 →
            ((∀ r, header.call? Publication.distribution [contactValue eta, r] = some 1) ↔
              eta = 0)) := by
  refine ⟨fun _ _ => carnahanStarling_sub_eq, fun _ => hasDerivAt_carnahanStarling,
    fun _ => one_le_contactValue, strictMonoOn_contactValue.mono fun _ h => h.2,
    fun _ => one_lt_contactValue, fun e sigma fit stamp hpublishable digits hdigits => ?_⟩
  obtain ⟨pair, program, hmodel, hheader⟩ := exists_header_eq_one_iff hpublishable hdigits
  refine ⟨pair, program, hmodel, fun hconstants => ?_⟩
  obtain ⟨text, header, htext, hread, hone⟩ := hheader hconstants
  refine ⟨text, header, htext, hread, fun eta hnonneg hlt => ?_⟩
  rw [hone]
  constructor
  · intro hle
    rcases hnonneg.eq_or_lt with hzero | hpos
    · exact hzero.symm
    · exact absurd (one_lt_contactValue hpos hlt) (not_lt.mpr hle)
  · rintro rfl
    exact contactValue_zero.le

/-- The thousandths can be published. -/
theorem isPublishable_thousandths :
    IsPublishable Publication.repeatedPowers 2.0 Publication.thousandths "now" := by
  have hquarter : Reading.ofFloat (Publication.repeatedPowers.pow 0.25 4.0) =
      .finite false ⟨2 ^ 52, -60⟩ := by decide +kernel
  have htwo : Reading.ofFloat 2.0 = .finite false ⟨2 ^ 52, -51⟩ := by decide +kernel
  refine ⟨?_, by decide +kernel, ?_, rfl, ?_, by decide⟩
  · rw [realOf_of_ofFloat hquarter, signedValue, if_neg (by decide), Dyadic.value]
    norm_num
  · rw [realOf_of_ofFloat htwo, signedValue, if_neg (by decide), Dyadic.value]
    norm_num
  · rw [← List.all_eq_true]
    decide +kernel

/-- At a fifth the free energy rises above its tangent, and the published function is not one at
every distance. -/
theorem carnahanStarling_contactValue_fifth :
    (1 / 5 : ℝ) ≠ 1 ∧ (2 / 5 : ℝ) ≠ 1 ∧
      carnahanStarling (2 / 5 : ℝ) - carnahanStarling (1 / 5) -
        4 * contactValue (1 / 5) * (2 / 5 - 1 / 5) = 185 / 288 ∧
      HasDerivAt carnahanStarling (4 * contactValue (1 / 5)) (1 / 5 : ℝ) ∧
      1 < contactValue (1 / 5 : ℝ) ∧
      IsPublishable Publication.repeatedPowers 2.0 Publication.thousandths "now" ∧
      ∃ pair program text header,
        @Ansatz.model Float (Scalar.doublesWith Publication.repeatedPowers)
          { Ansatz.standard with sigma := 2.0 } = .ok (pair, program) ∧
        Publication.header? pair 2.0 Publication.thousandths 3 "now" = some text ∧
        CHeader.read? text = some header ∧
        ¬∀ r, header.call? Publication.distribution [contactValue (1 / 5), r] = some 1 := by
  obtain ⟨htangent, hderiv, -, -, hcontact, hheader⟩ := carnahanStarling_contactValue (α := ℝ)
  have heta : (1 / 5 : ℝ) ≠ 1 := by norm_num
  have ht : (2 / 5 : ℝ) ≠ 1 := by norm_num
  obtain ⟨pair, program, hmodel, hheader⟩ :=
    hheader _ _ _ _ isPublishable_thousandths 3 (by decide)
  have hconstants : ∀ c ∈ pair.constants, c.isFinite = true := by
    have hall : (@Ansatz.model Float (Scalar.doublesWith Publication.repeatedPowers)
        { Ansatz.standard with sigma := 2.0 }).map (·.1.constants.all Float.isFinite) =
          .ok true := by
      decide +kernel
    rw [hmodel] at hall
    exact List.all_eq_true.mp (Except.ok.inj hall)
  obtain ⟨text, header, htext, hread, hone⟩ := hheader hconstants
  refine ⟨heta, ht, ?_, hderiv _ heta, hcontact _ (by norm_num) (by norm_num),
    isPublishable_thousandths, pair, program, text, header, hmodel, htext, hread, ?_⟩
  · rw [htangent _ _ heta ht]
    norm_num
  · rw [hone _ (by norm_num) (by norm_num)]
    norm_num

end SphereLab
