import Mathlib

/-!
# Numbers read back from thirty-two bits

A count that is handed on as a signed number of thirty-two bits is read as its residue nearest to
zero.  This is the count itself as long as it is less than `2 ^ 31`.  From there on it is negative,
and it comes back to zero at `2 ^ 32`.

* `bmod_natCast_eq_iff`: which numbers are read back as they are.
* `bmod_natCast_of_le`: what the others are read as.
* `bmod_natCast_succ`: from one number to the next.
-/

namespace SphereLab

/-- A natural number is read back from thirty-two bits if it is less than `2 ^ 31`. -/
theorem bmod_natCast_eq_iff (n : ℕ) : Int.bmod n (2 ^ 32) = n ↔ n < 2 ^ 31 := by
  rw [Int.bmod]
  split <;> omega

/-- From `2 ^ 31` on, a number is read as negative. -/
theorem bmod_natCast_of_le {n : ℕ} (h : 2 ^ 31 ≤ n) (hword : n < 2 ^ 32) :
    Int.bmod n (2 ^ 32) = -(2 ^ 32 - n : ℕ) := by
  rw [Int.bmod]
  split <;> omega

/-- The next number is read back as the next, except for `2 ^ 31`, which is read back as
`-2 ^ 31`. -/
theorem bmod_natCast_succ (n : ℕ) : Int.bmod (n + 1 : ℕ) (2 ^ 32) =
    Int.bmod n (2 ^ 32) + 1 - if (n + 1) % 2 ^ 32 = 2 ^ 31 then 2 ^ 32 else 0 := by
  rw [Int.bmod, Int.bmod]
  split <;> split <;> split <;> omega

end SphereLab
