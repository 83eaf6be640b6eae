import Mathlib
import SphereLab.PairCorrelation.Reference
import SphereLab.Proofs.Scalar.Exact

/-!
# The reference curve

The contact value of hard spheres is taken at an effective density, which depends on the distance,
and a multiple of its derivative along the distance is added.  Both derivatives are written out by
hand: that of the effective density, which is a polynomial in the distance whose coefficients come
from the matrix, and that of the contact value, by the chain rule.  The density and the diameter
enter once more through a prefactor, in which they cancel.

* `contract_eq`: the matrix acts on each entry of a vector on its own.
* `hasDerivAt_effectiveDensity`: the slope of the effective density.
* `hasDerivAt_contactValue`: the slope of the contact value.
* `pairCorrelation_eq`: the prefactor is a third.
* `pairCorrelation_functional`: the reference curve is what it is said to be.
-/

namespace SphereLab

section Contact

variable {α : Type} [ExactScalar α]

theorem contactValue_eq (eta : α) : contactValue eta = (1 - eta / 2) / (1 - eta) ^ 3 := by
  rw [contactValue, Scalar.powInt_eq_zpow]
  norm_num [ExactScalar.ofScientific_eq_ratCast]

end Contact

theorem hasDerivAt_contactValue {eta : ℝ} (h : eta ≠ 1) :
    HasDerivAt contactValue ((5 - 2 * eta) / (2 * (1 - eta) ^ 4)) eta := by
  have hne : 1 - eta ≠ 0 := sub_ne_zero.mpr h.symm
  have htop : HasDerivAt (fun e : ℝ => 1 - e / 2) (-(1 / 2)) eta :=
    ((hasDerivAt_id' eta).div_const 2).const_sub 1
  have hbottom : HasDerivAt (fun e : ℝ => (1 - e) ^ 3) (3 * (1 - eta) ^ 2 * -1) eta :=
    ((hasDerivAt_id' eta).const_sub 1).pow 3
  have heq : contactValue = fun e : ℝ => (1 - e / 2) / (1 - e) ^ 3 := funext contactValue_eq
  rw [heq]
  refine (htop.div hbottom (pow_ne_zero 3 hne)).congr_deriv ?_
  field_simp
  ring

namespace GilVillegas

section Exact

variable {α : Type} [ExactScalar α]

/-! ## The effective density -/

/-- The matrix acts on each entry of a vector on its own. -/
theorem contract_eq (eta a b c : α) :
    contract eta [a, b, c] =
      contract eta [1, 0, 0] * a + contract eta [0, 1, 0] * b + contract eta [0, 0, 1] * c := by
  simp only [contract, matrix, List.zipWith_cons_cons, List.zipWith_nil_left, Scalar.total_eq_sum,
    List.sum_cons, List.sum_nil]
  ring

theorem effectiveDensity_eq (eta x : α) :
    effectiveDensity eta x = contract eta [1, 0, 0] + contract eta [0, 1, 0] * x +
      contract eta [0, 0, 1] * x ^ 2 := by
  rw [effectiveDensity, contract_eq, mul_one, pow_two]

theorem effectiveDensitySlope_eq (eta x : α) :
    effectiveDensitySlope eta x = contract eta [0, 1, 0] + contract eta [0, 0, 1] * (2 * x) := by
  have htwo : (2.0 : α) = 2 := by norm_num [ExactScalar.ofScientific_eq_ratCast]
  rw [effectiveDensitySlope, contract_eq, mul_zero, zero_add, mul_one, htwo]

/-! ## The reference curve -/

theorem contactSlope_eq (e slope : α) :
    contactSlope e slope = (5 - 2 * e) / (2 * (1 - e) ^ 4) * slope := by
  have hslope : contactSlope e slope = slope * (5 - 2 * e) / (2 * (1 - e) ^ 4) := by
    rw [contactSlope, Scalar.powInt_eq_zpow]
    norm_num [ExactScalar.ofScientific_eq_ratCast]
  rw [hslope, mul_comm slope, mul_div_right_comm]

/-- The density and the diameter cancel. -/
theorem prefactor_eq {pi eta sigma : α} (hpi : pi ≠ 0) (heta : eta ≠ 0) (hsigma : sigma ≠ 0) :
    2.0 * eta / pi / (eta / (pi / 6.0 * Scalar.powInt sigma 3)) / Scalar.powInt sigma 3 =
      1 / 3 := by
  have htwo : (2.0 : α) = 2 := by norm_num [ExactScalar.ofScientific_eq_ratCast]
  have hsix : (6.0 : α) = 6 := by norm_num [ExactScalar.ofScientific_eq_ratCast]
  have hcube : Scalar.powInt sigma 3 ≠ 0 := by
    rw [Scalar.powInt_eq_zpow]
    exact zpow_ne_zero 3 hsigma
  rw [htwo, hsix]
  field_simp
  norm_num

/-- The reference curve at a reduced distance: the contact value and a multiple of its slope. -/
theorem pairCorrelation_eq {pi eta sigma : α} (hpi : pi ≠ 0) (heta : eta ≠ 0) (hsigma : sigma ≠ 0)
    (r : α) :
    pairCorrelation pi eta r sigma = contactValue (effectiveDensity eta (r / sigma)) +
      ((r / sigma) ^ 3 - 1) / (3 * (r / sigma) ^ 2) *
        contactSlope (effectiveDensity eta (r / sigma))
          (effectiveDensitySlope eta (r / sigma)) := by
  have hthree : (3.0 : α) = 3 := by norm_num [ExactScalar.ofScientific_eq_ratCast]
  have hcube : Scalar.powInt (r / sigma) 3 = (r / sigma) ^ 3 := by
    rw [Scalar.powInt_eq_zpow, zpow_ofNat]
  have hcontact : contactAt (effectiveDensity eta (r / sigma)) =
      contactValue (effectiveDensity eta (r / sigma)) := rfl
  rw [pairCorrelation]
  simp only [prefactor_eq hpi heta hsigma, hthree, hcube, hcontact]
  rw [mul_add, ← mul_assoc, one_div_mul_cancel three_ne_zero, one_mul, ← mul_assoc,
    one_div_mul_eq_div, div_div, ← pow_two, mul_comm (_ ^ 2)]

end Exact

/-! ## Derivatives -/

theorem hasDerivAt_effectiveDensity (eta x : ℝ) :
    HasDerivAt (effectiveDensity eta) (effectiveDensitySlope eta x) x := by
  have heq : effectiveDensity eta = fun x => contract eta [1, 0, 0] + contract eta [0, 1, 0] * x +
      contract eta [0, 0, 1] * x ^ 2 := funext (effectiveDensity_eq eta)
  have hline : HasDerivAt (fun x => contract eta [1, 0, 0] + contract eta [0, 1, 0] * x)
      (contract eta [0, 1, 0] * 1) x :=
    ((hasDerivAt_id' x).const_mul _).const_add _
  have hsquare : HasDerivAt (fun x => contract eta [0, 0, 1] * x ^ 2)
      (contract eta [0, 0, 1] * (2 * x)) x := by
    simpa using (hasDerivAt_pow 2 x).const_mul (contract eta [0, 0, 1])
  rw [heq, effectiveDensitySlope_eq]
  exact (hline.add hsquare).congr_deriv (by rw [mul_one])

/-- The slope of the contact value along the distance, by the chain rule. -/
theorem hasDerivAt_contactValue_effectiveDensity {eta x : ℝ} (h : effectiveDensity eta x ≠ 1) :
    HasDerivAt (fun x => contactValue (effectiveDensity eta x))
      (contactSlope (effectiveDensity eta x) (effectiveDensitySlope eta x)) x := by
  rw [contactSlope_eq]
  exact (hasDerivAt_contactValue h).comp x (hasDerivAt_effectiveDensity eta x)

/-- **The reference curve is the functional of its effective density.**  The slopes that are written
out are derivatives, the curve is the contact value at the effective density and a multiple of its
derivative, and so it depends on the reduced distance only and is the contact value at contact. -/
theorem pairCorrelation_functional {pi eta r sigma : ℝ} (hpi : pi ≠ 0) (heta : eta ≠ 0)
    (hsigma : sigma ≠ 0) (hr : r ≠ 0) (hne : effectiveDensity eta (r / sigma) ≠ 1) :
    let x := r / sigma
    let e := effectiveDensity eta
    let G := fun x => (1 - e x / 2) / (1 - e x) ^ 3
    HasDerivAt e (effectiveDensitySlope eta x) x ∧
      HasDerivAt G (contactSlope (e x) (effectiveDensitySlope eta x)) x ∧
      pairCorrelation pi eta r sigma = G x + (x ^ 3 - 1) / (3 * x ^ 2) * deriv G x ∧
      (∀ r' sigma', r' / sigma' = r / sigma →
        pairCorrelation pi eta r' sigma' = pairCorrelation pi eta r sigma) ∧
      (r = sigma → pairCorrelation pi eta r sigma = contactValue (e 1)) := by
  intro x e G
  have hG : (fun x => contactValue (e x)) = G := funext fun x => contactValue_eq (e x)
  have hslope := hasDerivAt_contactValue_effectiveDensity hne
  rw [hG] at hslope
  refine ⟨hasDerivAt_effectiveDensity eta x, hslope, ?_, fun r' sigma' hratio => ?_, ?_⟩
  · rw [pairCorrelation_eq hpi heta hsigma, contactValue_eq, hslope.deriv]
  · have hsigma' : sigma' ≠ 0 := by
      rintro rfl
      rw [div_zero] at hratio
      exact div_ne_zero hr hsigma hratio.symm
    rw [pairCorrelation_eq hpi heta hsigma', pairCorrelation_eq hpi heta hsigma, hratio]
  · rintro rfl
    rw [pairCorrelation_eq hpi heta hsigma, div_self hr, one_pow, sub_self, zero_div, zero_mul,
      add_zero]

/-- At one and a half diameters, nineteen fifty-fourths of the slope are added. -/
theorem pairCorrelation_functional_threeHalves :
    Real.pi ≠ 0 ∧ (3 / 10 : ℝ) ≠ 0 ∧ (2 : ℝ) ≠ 0 ∧ (3 : ℝ) ≠ 0 ∧
      effectiveDensity (3 / 10 : ℝ) (3 / 2) ≠ 1 ∧
      ∃ slope, HasDerivAt (fun x => (1 - effectiveDensity (3 / 10) x / 2) /
          (1 - effectiveDensity (3 / 10) x) ^ 3) slope (3 / 2 : ℝ) ∧
        pairCorrelation Real.pi (3 / 10) 3 2 =
          (1 - effectiveDensity (3 / 10) (3 / 2) / 2) /
            (1 - effectiveDensity (3 / 10) (3 / 2)) ^ 3 + 19 / 54 * slope ∧
        pairCorrelation Real.pi (3 / 10) (3 / 2) 1 = pairCorrelation Real.pi (3 / 10) 3 2 := by
  have heta : (3 / 10 : ℝ) ≠ 0 := by norm_num
  have hne : effectiveDensity (3 / 10 : ℝ) (3 / 2) ≠ 1 := by
    norm_num [effectiveDensity, contract, matrix, Scalar.total_eq_sum,
      ExactScalar.ofScientific_eq_ratCast]
  obtain ⟨-, hslope, hcurve, hratio, -⟩ :=
    pairCorrelation_functional Real.pi_ne_zero heta two_ne_zero three_ne_zero hne
  refine ⟨Real.pi_ne_zero, heta, two_ne_zero, three_ne_zero, hne, _, hslope, ?_,
    hratio (3 / 2) 1 (div_one _)⟩
  rw [hcurve, hslope.deriv]
  norm_num

end GilVillegas

end SphereLab
