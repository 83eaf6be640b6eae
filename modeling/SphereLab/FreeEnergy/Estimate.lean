import SphereLab.Scalar

/-!
# Free energies

The share of insertions that succeed is a ratio of probabilities, so its logarithm is a
difference of free energies.  The excess free energy after a step is the sum of all those
differences so far, taken for one sphere.
-/

namespace SphereLab

namespace FreeEnergy

variable {α : Type} [Scalar α]

/-- The free energies after each of a list of steps, where `sum` is what the steps before have
come to and `n` is the number of spheres. -/
def accumulate (log : α → α) (n sum : α) : List α → List α
  | [] => []
  | ratio :: rest =>
    let sum := sum - log ratio
    sum / n :: accumulate log n sum rest

/-- The free energy for one sphere after each step, from the success ratios and by a logarithm.
No spheres count as one. -/
def cumulativeWith (log : α → α) (spheres : Nat) (ratios : List α) : List α :=
  accumulate log (Scalar.ofNat (max spheres 1)) 0 ratios

@[simp] theorem length_accumulate (log : α → α) (n sum : α) (ratios : List α) :
    (accumulate log n sum ratios).length = ratios.length := by
  induction ratios generalizing sum with
  | nil => rfl
  | cons r rest ih => simp [accumulate, ih]

/-- The excess free energy for one sphere by the equation of Carnahan and Starling. -/
def carnahanStarling (eta : α) : α :=
  (4.0 * eta - 3.0 * eta * eta) / Scalar.powInt (1 - eta) 2

end FreeEnergy

end SphereLab
