import SphereLab.Scalar

/-!
# Reference curves and integrals

The contact value of hard spheres after Carnahan and Starling, the pair correlation after
Gil-Villegas, which evaluates the contact value at an effective density, and the excess of
spheres around a sphere.
-/

namespace SphereLab

variable {α : Type} [Scalar α]

/-! ## The contact value -/

/-- The contact value of hard spheres at a filling fraction. -/
def contactValue (eta : α) : α := (1 - eta / 2.0) / Scalar.powInt (1 - eta) 3

/-! ## The effective density -/

namespace GilVillegas

/-- The matrix that gives the effective density from powers of the filling fraction and of
the distance. -/
def matrix : List (List α) :=
  [[2.25855, -1.50349, 0.249434],
   [-0.669270, 1.40049, -0.827739],
   [10.1576, -15.0427, 5.30827]]

/-- The first three powers of the filling fraction, through the matrix, against a vector. -/
def contract (eta : α) (v : List α) : α :=
  let powers := [eta, eta * eta, eta * eta * eta]
  Scalar.total <| List.zipWith
    (fun p row => p * Scalar.total (List.zipWith (· * ·) row v)) powers matrix

/-- The effective density at a reduced distance. -/
def effectiveDensity (eta x : α) : α := contract eta [1, x, x * x]

/-- The derivative of the effective density along the distance. -/
def effectiveDensitySlope (eta x : α) : α := contract eta [0, 1, 2.0 * x]

/-- The contact value at the effective density `e`. -/
def contactAt (e : α) : α := (1 - e / 2.0) / Scalar.powInt (1 - e) 3

/-- The slope of the contact value, where the effective density `e` has the slope `e'`. -/
def contactSlope (e slope : α) : α :=
  slope * (5.0 - 2.0 * e) / (2.0 * Scalar.powInt (1 - e) 4)

/-- The pair correlation at a distance. -/
def pairCorrelation (pi eta r sigma : α) : α :=
  let x := r / sigma
  let e := effectiveDensity eta x
  let contact := contactAt e
  let slope := contactSlope e (effectiveDensitySlope eta x)
  let density := eta / (pi / 6.0 * Scalar.powInt sigma 3)
  2.0 * eta / pi / density / Scalar.powInt sigma 3 *
    (3.0 * contact + (Scalar.powInt x 3 - 1) / (x * x) * slope)

end GilVillegas

/-! ## The excess integral -/

/-- The number of spheres around a sphere, less the volume that it takes up, by the
rectangle rule on a grid of at least two points that are taken as equally spaced. -/
def excessIntegral? (pi : α) (r g : List α) (sigma : α) : Option α :=
  let points := r.zip g
  match points.head?, points.getLast? with
  | some first, some last =>
    if points.length < 2 then none
    else
      let dr := (last.1 - first.1) / Scalar.ofNat (points.length - 1)
      let sum := Scalar.total (points.map fun p => 4.0 * pi * p.1 * p.1 * p.2)
      some (sum * dr - 4.0 / 3.0 * pi * Scalar.powInt sigma 3)
  | _, _ => none

/-- The excess integrals of one filling fraction: simulated, and fitted. -/
structure IntegralComparison where
  eta : Float
  simulated : Float
  fitted : Float

/-- What the fit has too much. -/
def IntegralComparison.difference (c : IntegralComparison) : Float := c.fitted - c.simulated

end SphereLab
