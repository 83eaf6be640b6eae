import SphereLab.Scalar

/-!
# Sphere counts

The number of spheres that gives a simulation cell a reduced density.  Densities are measured
in spheres for each cube of the distance `2 ^ (5/6)`, lengths in diameters.
-/

namespace SphereLab

namespace SphereCount

variable {α : Type} [Scalar α]

/-- The nearest count that fits thirty-two bits. -/
def clamp (v : α) : Nat := min (Scalar.toInt (Scalar.round v)).toNat (Nat.pow 2 32 - 1)

/-- The spheres in a unit cube at reduced density one. -/
def unitDensity : α := Scalar.pow 2.0 (-2.5)

/-- The count of a periodic cube with an edge of thirty. -/
def bulk (density : α) : Nat := clamp (density * unitDensity * Scalar.powInt 30.0 3)

/-- The count of a cell between walls, thirty by thirty by thirty-two, unless a count is
given; zero gives none. -/
def walls (density : α) (given : Nat) : Nat :=
  if given = 0 then clamp (density * unitDensity * Scalar.powInt 30.0 2 * 32.0) else given

end SphereCount

end SphereLab
