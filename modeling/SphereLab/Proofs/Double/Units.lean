import Mathlib
import SphereLab.Proofs.Double.Nearest
import SphereLab.Proofs.Formula.NormalForm

/-!
# Zero and one among the doubles

Adding a zero to a double that is no zero, and multiplying a double by one, gives back the double
itself, bit by bit: there is one not-a-number, and everything else is told apart by its reading.
Hence simplification leaves alone what it has simplified, in doubles too.

* `pack_unpack`: what a double unpacks to is packed to the double.
* `unitLaws_double`: doubles have the laws of the two units.
-/

namespace SphereLab

open Float.Model

namespace Reading

/-! ## Packing what was unpacked -/

/-- The fields of an infinity and of not-a-number. -/
theorem field_of_ofBits_eq {bits : UInt64} (h : ∀ negative d, ofBits bits ≠ .finite negative d) :
    field bits = 2047 := by
  by_contra hfield
  rw [ofBits_eq, if_neg hfield] at h
  split at h
  · exact h _ _ rfl
  · exact h _ _ rfl

theorem fraction_eq_zero_iff {bits : UInt64} (hfield : field bits = 2047) :
    fraction bits = 0 ↔ ofBits bits = .infinite (signBit bits == 1) := by
  rw [ofBits_eq, if_pos hfield]
  split
  · rename_i hzero
    exact iff_of_true hzero rfl
  · rename_i hne
    exact iff_of_false hne (fun h => by cases h)

theorem toNat_beq_one {n : Nat} (h : n < 2) : (n == 1).toNat = n := by
  obtain rfl | rfl : n = 0 ∨ n = 1 := by omega
  · rfl
  · rfl

/-- An infinity is told by its sign. -/
theorem toNat_of_ofBits_infinite {bits : UInt64} {negative : Bool}
    (h : ofBits bits = .infinite negative) :
    bits.toNat = negative.toNat * 2 ^ 63 + 2047 * 2 ^ 52 := by
  have hfield : field bits = 2047 := field_of_ofBits_eq fun _ _ hfinite => by
    rw [h] at hfinite
    cases hfinite
  have hbits := toNat_eq bits
  have hsign := toNat_beq_one (signBit_lt bits)
  have hfraction : fraction bits = 0 := by
    by_contra hne
    rw [ofBits_eq, if_pos hfield, if_neg hne] at h
    cases h
  rw [(fraction_eq_zero_iff hfield).mp hfraction] at h
  rw [← Reading.infinite.inj h, hsign, hbits, hfield, hfraction, Nat.add_zero]

/-- What a double unpacks to is packed to the double. -/
theorem pack_unpack (x : Float) : Float.ofModel (.pack x.toModel.unpack) = x := by
  cases hread : ofFloat x with
  | finite negative d =>
    have hpack := ofFloat_pack (canonical_of_ofFloat hread) negative
    rw [← hread, ← unpack_eq, hread] at hpack
    exact eq_of_ofFloat_eq hpack hread
  | infinite negative =>
    have hpacked : (UnpackedFloat.pack .binary64 (.infinity (sign negative))).toNat =
        negative.toNat * 2 ^ 63 + ((BitVec.allOnes 11).toNat * 2 ^ 52 + (0#52).toNat) :=
      toNat_packComponents negative (BitVec.allOnes 11) 0#52
    have hbits : UInt64.ofBitVec (UnpackedFloat.pack .binary64 (.infinity (sign negative))) =
        x.toModel.toBits := by
      rw [← UInt64.toNat_inj]
      exact hpacked.trans (toNat_of_ofBits_infinite hread).symm
    rw [unpack_eq, hread, unpacked]
    obtain ⟨⟨bits, hvalid⟩⟩ := x
    dsimp only at hbits
    subst hbits
    rfl
  | nan =>
    have hfield : field x.toModel.toBits = 2047 := field_of_ofBits_eq fun _ _ hfinite => by
      have hnan : ofBits x.toModel.toBits = .nan := hread
      rw [hnan] at hfinite
      cases hfinite
    have hbits : x.toModel.toBits.toBitVec = UnpackedFloat.packedNaN .binary64 := by
      refine x.toModel.valid.eq_packedNaN ?_ ?_
      · rw [← BitVec.toNat_inj, toNat_unpackExponent, hfield]
        rfl
      · intro hmantissa
        have hfraction : fraction x.toModel.toBits = 0 := by
          rw [← toNat_unpackMantissa, hmantissa]
          rfl
        have hinfinite := (fraction_eq_zero_iff hfield).mp hfraction
        have hnan : ofBits x.toModel.toBits = .nan := hread
        rw [hnan] at hinfinite
        cases hinfinite
    rw [unpack_eq, hread, unpacked]
    obtain ⟨⟨bits, hvalid⟩⟩ := x
    dsimp only at hbits
    have heq : UInt64.ofBitVec (UnpackedFloat.packedNaN .binary64) = bits := by rw [← hbits]
    subst heq
    rfl

end Reading

/-! ## The laws of the units -/

theorem eq_of_unpack_eq {x y : Float} {u : UnpackedFloat} (hx : x = .ofModel (.pack u))
    (hy : u = y.toModel.unpack) : x = y := by
  rw [hx, hy, Reading.pack_unpack]

/-- A double plus zero is the double, unless it is the other zero. -/
theorem zero_add_double {c : Float} (hc : (c == 0.0) = false) : 0.0 + c = c := by
  have hzero : (0.0 : Float).toModel.unpack = .zero .positive := by
    rw [Reading.unpack_eq, ofFloat_zero]
    rfl
  have hadd : 0.0 + c = .ofModel (.pack (UnpackedFloat.add .binary64 (0.0 : Float).toModel.unpack
      c.toModel.unpack)) := rfl
  refine eq_of_unpack_eq hadd ?_
  rw [hzero]
  cases hunpack : c.toModel.unpack with
  | notANumber | infinity s | finite s m e hm => rfl
  | zero s =>
    exfalso
    rw [Reading.unpack_eq] at hunpack
    cases hread : Reading.ofFloat c with
    | nan => rw [hread] at hunpack; cases hunpack
    | infinite negative => rw [hread] at hunpack; cases hunpack
    | finite negative d =>
      have hd : ¬0 < d.mantissa := by
        intro hpos
        rw [hread, Reading.unpacked, dif_pos hpos] at hunpack
        cases hunpack
      have hreal : realOf c = realOf 0.0 := by
        rw [realOf_of_ofFloat hread, realOf_zero, signedValue,
          Dyadic.value_of_mantissa_eq_zero (by omega), neg_zero, ite_self]
      have hfinite : c.isFinite = true := Reading.isFinite_iff.mpr ⟨_, _, hread⟩
      have hfinite' : (0.0 : Float).isFinite = true :=
        Reading.isFinite_iff.mpr ⟨_, _, ofFloat_zero⟩
      rw [(beq_iff_realOf_eq hfinite hfinite').mpr hreal] at hc
      cases hc

/-- A double times one is the double. -/
theorem one_mul_double (c : Float) : 1.0 * c = c := by
  have hone : (1.0 : Float).toModel.unpack = .finite .positive (2 ^ 52) (-52) (by decide) := by
    rw [Reading.unpack_eq, ofFloat_one]
    rfl
  have hmul : 1.0 * c = .ofModel (.pack (UnpackedFloat.mul .binary64 (1.0 : Float).toModel.unpack
      c.toModel.unpack)) := rfl
  have hsign : ∀ s : UnpackedFloat.Sign, .positive * s = s := fun s => by cases s <;> rfl
  refine eq_of_unpack_eq hmul ?_
  rw [hone, Reading.unpack_eq]
  cases hread : Reading.ofFloat c with
  | nan => rfl
  | infinite negative =>
    rw [Reading.unpacked, UnpackedFloat.mul, hsign]
  | finite negative d =>
    have hd := Reading.canonical_of_ofFloat hread
    rw [Reading.unpacked]
    by_cases hpos : 0 < d.mantissa
    · rw [dif_pos hpos, UnpackedFloat.mul, hsign, Nat.mul_comm, Int.add_comm]
      exact Reading.roundWithAccuracy_canonical hd hpos 52 _
    · rw [dif_neg hpos, UnpackedFloat.mul, hsign]

/-- Doubles have the laws of the two units. -/
theorem unitLaws_double : Formula.UnitLaws Float where
  zero_beq_zero := by decide +kernel
  one_beq_one := by decide +kernel
  one_beq_zero := by decide +kernel
  zero_add _ := zero_add_double
  one_mul := one_mul_double

end SphereLab
