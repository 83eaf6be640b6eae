import Mathlib
import SphereLab.Decimal.Dyadic

/-!
# Readings of doubles

A reading of a double says everything that its bits say.  The operations on doubles are defined
on numbers that are unpacked from bits and packed again, and this module relates the two views:
a reading unpacks to a number, and the numbers that come from doubles are exactly those with a
canonical magnitude.

* `Dyadic.Canonical`: the magnitudes of finite doubles.
* `unpack_eq`: the unpacked number of a double is that of its reading.
* `ofFloat_pack`: a canonical number is packed to a double with its reading.
* `eq_of_ofFloat_eq`: a finite double is told by its reading.
* `ofFloat_neg`, `ofFloat_abs`, `ofFloat_neg_one_mul`: readings of negatives and absolute values.
-/

namespace SphereLab

open Float.Model

/-! ## Canonical magnitudes -/

/-- The magnitude of a finite double: the mantissa has at most fifty-three binary digits, and fewer
only at the smallest exponent. -/
structure Dyadic.Canonical (d : Dyadic) : Prop where
  mantissa_lt : d.mantissa < 2 ^ 53
  le_exponent : -1074 ≤ d.exponent
  exponent_le : d.exponent ≤ 971
  normal : 2 ^ 52 ≤ d.mantissa ∨ d.exponent = -1074

namespace Reading

/-! ## Fields -/

/-- The sign bit of sixty-four bits. -/
def signBit (bits : UInt64) : Nat := bits.toNat / 2 ^ 63

/-- The exponent field of sixty-four bits. -/
def field (bits : UInt64) : Nat := bits.toNat / 2 ^ 52 % 2 ^ 11

/-- The fraction field of sixty-four bits. -/
def fraction (bits : UInt64) : Nat := bits.toNat % 2 ^ 52

theorem signBit_lt (bits : UInt64) : signBit bits < 2 := by
  have h := bits.toNat_lt
  rw [signBit]
  omega

theorem field_lt (bits : UInt64) : field bits < 2 ^ 11 := Nat.mod_lt _ (by decide)

theorem fraction_lt (bits : UInt64) : fraction bits < 2 ^ 52 := Nat.mod_lt _ (by decide)

/-- The bits are made of their fields. -/
theorem toNat_eq (bits : UInt64) :
    bits.toNat = signBit bits * 2 ^ 63 + field bits * 2 ^ 52 + fraction bits := by
  have h := bits.toNat_lt
  simp only [signBit, field, fraction]
  omega

theorem ofBits_eq (bits : UInt64) :
    ofBits bits =
      if field bits = 2047 then
        if fraction bits = 0 then .infinite (signBit bits == 1) else .nan
      else if field bits = 0 then .finite (signBit bits == 1) ⟨fraction bits, -1074⟩
      else .finite (signBit bits == 1) ⟨2 ^ 52 + fraction bits, (field bits : Int) - 1075⟩ := by
  have hfield : ((bits >>> 52) &&& 0x7FF).toNat = field bits := by
    rw [UInt64.toNat_and, UInt64.toNat_shiftRight, show (52 : UInt64).toNat % 64 = 52 from rfl,
      show (0x7FF : UInt64).toNat = 2 ^ 11 - 1 from rfl, Nat.and_two_pow_sub_one_eq_mod,
      Nat.shiftRight_eq_div_pow, field]
  have hfraction : (bits &&& 0xFFFFFFFFFFFFF).toNat = fraction bits := by
    rw [UInt64.toNat_and]
    exact Nat.and_two_pow_sub_one_eq_mod bits.toNat 52
  have hsign : (bits >>> 63 == 1) = (signBit bits == 1) := by
    have hshift : (bits >>> 63).toNat = signBit bits := by
      rw [UInt64.toNat_shiftRight, signBit]
      exact Nat.shiftRight_eq_div_pow _ _
    rw [Bool.eq_iff_iff, beq_iff_eq, beq_iff_eq, ← UInt64.toNat_inj, hshift]
    rfl
  rw [ofBits, hfield, hfraction, hsign]
  rfl

/-! ## Unpacking -/

theorem toNat_unpackExponent (bits : UInt64) :
    (@UnpackedFloat.unpackExponent .binary64 bits.toBitVec).toNat = field bits := by
  rw [UnpackedFloat.unpackExponent, BitVec.toNat_cast, BitVec.extractLsb_toNat, field,
    Nat.shiftRight_eq_div_pow]
  rfl

theorem toNat_unpackMantissa (bits : UInt64) :
    (@UnpackedFloat.unpackMantissa .binary64 bits.toBitVec).toNat = fraction bits := by
  rw [UnpackedFloat.unpackMantissa, BitVec.toNat_cast, BitVec.extractLsb_toNat, fraction,
    Nat.shiftRight_zero]
  rfl

theorem toNat_unpackSign (bits : UInt64) :
    (@UnpackedFloat.unpackSign .binary64 bits.toBitVec).toNat = signBit bits := by
  rw [UnpackedFloat.unpackSign, BitVec.toNat_cast, BitVec.extractLsb_toNat,
    Nat.shiftRight_eq_div_pow]
  have h := signBit_lt bits
  exact Nat.mod_eq_of_lt h

/-- The sign of a number that is negative or not. -/
def sign (negative : Bool) : UnpackedFloat.Sign := if negative then .negative else .positive

/-- The number that a reading unpacks to. -/
def unpacked : Reading → UnpackedFloat
  | .nan => .notANumber
  | .infinite negative => .infinity (sign negative)
  | .finite negative d =>
    if h : 0 < d.mantissa then .finite (sign negative) d.mantissa d.exponent h
    else .zero (sign negative)

theorem ofBitVec_unpackSign (bits : UInt64) :
    UnpackedFloat.Sign.ofBitVec (@UnpackedFloat.unpackSign .binary64 bits.toBitVec) =
      sign (signBit bits == 1) := by
  have h := toNat_unpackSign bits
  have hlt := signBit_lt bits
  rw [UnpackedFloat.Sign.ofBitVec, sign]
  by_cases hzero : signBit bits = 0
  · have hbits : @UnpackedFloat.unpackSign .binary64 bits.toBitVec = 0#1 := by
      rw [← BitVec.toNat_inj, h, hzero]
      rfl
    rw [if_pos hbits, hzero]
    rfl
  · have hone : signBit bits = 1 := by omega
    have hbits : @UnpackedFloat.unpackSign .binary64 bits.toBitVec ≠ 0#1 := by
      rw [Ne, ← BitVec.toNat_inj, h, hone]
      decide
    rw [if_neg hbits, hone]
    rfl

theorem finite_congr {s s' : UnpackedFloat.Sign} {m m' : Nat} {e e' : Int} {h : 0 < m}
    {h' : 0 < m'} (hs : s = s') (hm : m = m') (he : e = e') :
    UnpackedFloat.finite s m e h = .finite s' m' e' h' := by
  subst hs hm he
  rfl

theorem toNat_one_append (mantissa : BitVec 52) :
    (1#1 ++ mantissa).toNat = 2 ^ 52 + mantissa.toNat := by
  rw [BitVec.toNat_append, ← Nat.shiftLeft_add_eq_or_of_lt mantissa.isLt, Nat.shiftLeft_eq]
  rfl

theorem unpack_ofBits (bits : UInt64) :
    UnpackedFloat.unpack .binary64 bits.toBitVec = unpacked (ofBits bits) := by
  have hexponent := toNat_unpackExponent bits
  have hmantissa := toNat_unpackMantissa bits
  have hfull : @UnpackedFloat.unpackExponent .binary64 bits.toBitVec = -1#_ ↔
      field bits = 2047 := by
    rw [← hexponent, ← BitVec.toNat_inj]
    rfl
  have hempty : @UnpackedFloat.unpackExponent .binary64 bits.toBitVec = 0#_ ↔
      field bits = 0 := by
    rw [← hexponent, ← BitVec.toNat_inj]
    rfl
  have hzero : @UnpackedFloat.unpackMantissa .binary64 bits.toBitVec = 0#_ ↔
      fraction bits = 0 := by
    rw [← hmantissa, ← BitVec.toNat_inj]
    rfl
  rw [UnpackedFloat.unpack, ofBitVec_unpackSign, ofBits_eq]
  by_cases h2047 : field bits = 2047
  · rw [if_pos (hfull.mpr h2047), if_pos h2047]
    by_cases h0 : fraction bits = 0
    · rw [if_pos (hzero.mpr h0), if_pos h0]
      rfl
    · rw [if_neg (mt hzero.mp h0), if_neg h0]
      rfl
  · rw [if_neg (mt hfull.mp h2047), if_neg h2047]
    by_cases hfield : field bits = 0
    · rw [if_pos (hempty.mpr hfield), if_pos hfield, unpacked]
      by_cases h0 : fraction bits = 0
      · rw [dif_pos (hzero.mpr h0), dif_neg (by simp [h0])]
      · rw [dif_neg (mt hzero.mp h0), dif_pos (Nat.pos_of_ne_zero h0)]
        refine finite_congr rfl hmantissa ?_
        rw [hexponent, hfield]
        rfl
    · rw [if_neg (mt hempty.mp hfield), if_neg hfield, unpacked, dif_pos (by simp)]
      refine finite_congr rfl ?_ ?_
      · rw [← hmantissa]
        exact toNat_one_append _
      · rw [hexponent]
        rfl

/-- A double unpacks to the number of its reading. -/
theorem unpack_eq (x : Float) : x.toModel.unpack = unpacked (ofFloat x) :=
  unpack_ofBits x.toModel.toBits

/-- The magnitude of a finite double is canonical. -/
theorem canonical_of_ofFloat {x : Float} {negative : Bool} {d : Dyadic}
    (h : ofFloat x = .finite negative d) : d.Canonical := by
  have hfraction := fraction_lt x.toBits
  have hfield := field_lt x.toBits
  rw [ofFloat, ofBits_eq] at h
  split at h
  · split at h
    · exact absurd h (by simp)
    · exact absurd h (by simp)
  · split at h
    · cases h
      exact ⟨by dsimp only; omega, le_rfl, by dsimp only; omega, Or.inr rfl⟩
    · cases h
      exact ⟨by dsimp only; omega, by dsimp only; omega, by dsimp only; omega,
        Or.inl (by dsimp only; omega)⟩

end Reading

/-! ## Packing -/

/-- The bits of a canonical magnitude, as a natural number.  Magnitudes are in the order of their
bits. -/
def Dyadic.ordinal (d : Dyadic) : Nat := (d.exponent + 1074).toNat * 2 ^ 52 + d.mantissa

namespace Reading

theorem ofBits_of_toNat {d : Dyadic} (hd : d.Canonical) {negative : Bool} {bits : UInt64}
    (h : bits.toNat = negative.toNat * 2 ^ 63 + d.ordinal) :
    ofBits bits = .finite negative d := by
  obtain ⟨hlt, hle, hmax, hnormal⟩ := hd
  obtain ⟨m, e⟩ := d
  simp only [Dyadic.ordinal] at h hlt hle hmax hnormal
  obtain ⟨k, hk⟩ : ∃ k : Nat, e = (k : Int) - 1074 := ⟨(e + 1074).toNat, by omega⟩
  have hkmax : k ≤ 2045 := by omega
  have hsum : (e + 1074).toNat = k := by omega
  rw [hsum] at h
  have hbool : negative.toNat ≤ 1 := Bool.toNat_le negative
  have hsign : signBit bits = negative.toNat := by
    rw [signBit]
    omega
  have hsign' : (signBit bits == 1) = negative := by
    rw [hsign]
    cases negative <;> rfl
  rw [ofBits_eq, hsign']
  by_cases hhidden : 2 ^ 52 ≤ m
  · have hfield : field bits = k + 1 := by
      rw [field]
      omega
    have hfraction : fraction bits = m - 2 ^ 52 := by
      rw [fraction]
      omega
    have hmantissa : 2 ^ 52 + (m - 2 ^ 52) = m := by omega
    have hexponent : ((k + 1 : Nat) : Int) - 1075 = e := by omega
    rw [if_neg (by omega), if_neg (by omega), hfield, hfraction, hmantissa, hexponent]
  · have hzero : k = 0 := by
      rcases hnormal with hnormal | hnormal
      · exact absurd hnormal hhidden
      · omega
    have hfield : field bits = 0 := by
      rw [field]
      omega
    have hfraction : fraction bits = m := by
      rw [fraction]
      omega
    have hexponent : -1074 = e := by omega
    rw [if_neg (by omega), if_pos hfield, hfraction, hexponent]

theorem toNat_packComponents (negative : Bool) (exponent : BitVec 11) (mantissa : BitVec 52) :
    (UnpackedFloat.packComponents .binary64 (sign negative) exponent mantissa).toNat =
      negative.toNat * 2 ^ 63 + (exponent.toNat * 2 ^ 52 + mantissa.toNat) := by
  have hsign : (sign negative).toBitVec.toNat = negative.toNat := by
    cases negative <;> rfl
  have happend : UnpackedFloat.packComponents .binary64 (sign negative) exponent mantissa =
      (sign negative).toBitVec ++ exponent ++ mantissa := rfl
  rw [happend, BitVec.toNat_append, BitVec.toNat_append,
    ← Nat.shiftLeft_add_eq_or_of_lt exponent.isLt, ← Nat.shiftLeft_add_eq_or_of_lt mantissa.isLt,
    Nat.shiftLeft_eq, Nat.shiftLeft_eq, hsign]
  omega

/-- A mantissa has fifty-three binary digits exactly if it has a hidden bit. -/
theorem log2_add_one_eq_iff {m : Nat} (hpos : 0 < m) (hlt : m < 2 ^ 53) :
    m.log2 + 1 = 53 ↔ 2 ^ 52 ≤ m := by
  have hle : 52 ≤ m.log2 ↔ 2 ^ 52 ≤ m := Nat.le_log2 (by omega)
  have hmax : m.log2 < 53 := (Nat.log2_lt (by omega)).mpr hlt
  rw [← hle]
  omega

theorem toNat_pack {d : Dyadic} (hd : d.Canonical) (negative : Bool) :
    (UnpackedFloat.pack .binary64 (unpacked (.finite negative d))).toNat =
      negative.toNat * 2 ^ 63 + d.ordinal := by
  obtain ⟨hlt, hle, hmax, hnormal⟩ := hd
  obtain ⟨m, e⟩ := d
  simp only [Dyadic.ordinal] at hlt hle hmax hnormal ⊢
  rw [unpacked]
  by_cases hpos : 0 < m
  · rw [dif_pos hpos]
    have hbiased : (e + (Format.binary64.exponentBias : Int) +
        (Format.binary64.mantissaBitsWithoutImplicit : Int)).toNat = (e + 1075).toNat := by
      have hbias : (Format.binary64.exponentBias : Int) +
        (Format.binary64.mantissaBitsWithoutImplicit : Int) = 1075 := rfl
      rw [Int.add_assoc, hbias]
    have hpack : UnpackedFloat.pack .binary64 (.finite (sign negative) m e hpos) =
        if 2 ^ 11 ≤ (e + 1075).toNat + 1 then
          UnpackedFloat.packedInfinity .binary64 (sign negative)
        else if m.log2 + 1 = 53 then
          UnpackedFloat.packComponents .binary64 (sign negative)
            (BitVec.ofNat 11 (e + 1075).toNat) (BitVec.ofNat 52 m)
        else UnpackedFloat.packComponents .binary64 (sign negative) 0#11 (BitVec.ofNat 52 m) := by
      rw [← hbiased]
      rfl
    rw [hpack, if_neg (by omega)]
    by_cases hhidden : 2 ^ 52 ≤ m
    · rw [if_pos ((log2_add_one_eq_iff hpos hlt).mpr hhidden), toNat_packComponents,
        BitVec.toNat_ofNat, BitVec.toNat_ofNat]
      omega
    · rw [if_neg (mt (log2_add_one_eq_iff hpos hlt).mp hhidden), toNat_packComponents,
        BitVec.toNat_ofNat, BitVec.toNat_ofNat]
      omega
  · rw [dif_neg hpos]
    have hpack : UnpackedFloat.pack .binary64 (.zero (sign negative)) =
        UnpackedFloat.packComponents .binary64 (sign negative) 0#11 0#52 := rfl
    rw [hpack, toNat_packComponents, BitVec.toNat_ofNat, BitVec.toNat_ofNat]
    omega

/-- A canonical number is packed to a double with its reading. -/
theorem ofFloat_pack {d : Dyadic} (hd : d.Canonical) (negative : Bool) :
    ofFloat (.ofModel (.pack (unpacked (.finite negative d)))) = .finite negative d := by
  refine ofBits_of_toNat hd ?_
  rw [← toNat_pack hd negative]
  rfl

/-- The double of given bits has the reading of these bits, if it is finite. -/
theorem ofFloat_ofBits {bits : UInt64} {d : Dyadic} {negative : Bool} (hd : d.Canonical)
    (h : bits.toNat = negative.toNat * 2 ^ 63 + d.ordinal) :
    ofFloat (.ofBits bits) = .finite negative d := by
  rw [← ofFloat_pack hd negative, ← ofBits_of_toNat hd h, ← unpack_ofBits]
  rfl

theorem toNat_of_ofBits {bits : UInt64} {negative : Bool} {d : Dyadic}
    (h : ofBits bits = .finite negative d) :
    bits.toNat = negative.toNat * 2 ^ 63 + d.ordinal := by
  have htotal := toNat_eq bits
  have hsign := signBit_lt bits
  have hbool : (signBit bits == 1).toNat = signBit bits := by
    rcases Nat.lt_or_ge (signBit bits) 1 with hlt | hge
    · rw [show signBit bits = 0 by omega]
      rfl
    · rw [show signBit bits = 1 by omega]
      rfl
  rw [ofBits_eq] at h
  split at h
  · split at h
    · exact absurd h (by simp)
    · exact absurd h (by simp)
  · split at h
    · rename_i hzero
      rw [Reading.finite.injEq] at h
      have hordinal : d.ordinal = fraction bits := by
        rw [← h.2, Dyadic.ordinal]
        simp
      rw [hordinal, ← h.1, hbool, htotal, hzero]
      omega
    · rw [Reading.finite.injEq] at h
      have hexponent : ((field bits : Int) - 1075 + 1074).toNat = field bits - 1 := by omega
      have hordinal : d.ordinal = (field bits - 1) * 2 ^ 52 + (2 ^ 52 + fraction bits) := by
        rw [← h.2, Dyadic.ordinal, hexponent]
      rw [hordinal, ← h.1, hbool, htotal]
      omega

/-- A finite double is told by its reading. -/
theorem eq_of_ofFloat_eq {x y : Float} {negative : Bool} {d : Dyadic}
    (hx : ofFloat x = .finite negative d) (hy : ofFloat y = .finite negative d) : x = y := by
  have hbits : x.toModel.toBits = y.toModel.toBits := by
    rw [← UInt64.toNat_inj]
    exact (toNat_of_ofBits hx).trans (toNat_of_ofBits hy).symm
  obtain ⟨⟨bits, hvalid⟩⟩ := x
  obtain ⟨⟨bits', hvalid'⟩⟩ := y
  dsimp only at hbits
  subst hbits
  rfl

/-! ## Operations that only touch the sign -/

theorem isFinite_iff {x : Float} :
    x.isFinite = true ↔ ∃ negative d, ofFloat x = .finite negative d := by
  have hfinite : x.isFinite = (unpacked (ofFloat x)).isFinite := by
    rw [← unpack_eq]
    rfl
  rw [hfinite]
  cases ofFloat x with
  | nan => exact ⟨fun h => absurd h (by decide), fun ⟨_, _, h⟩ => absurd h (by simp)⟩
  | infinite negative => exact ⟨fun h => absurd h (by simp [unpacked, UnpackedFloat.isFinite]),
      fun ⟨_, _, h⟩ => absurd h (by simp)⟩
  | finite negative d =>
    refine ⟨fun _ => ⟨negative, d, rfl⟩, ?_⟩
    intro _
    rw [unpacked]
    split
    · rfl
    · rfl

theorem neg_unpacked (negative : Bool) (d : Dyadic) :
    (unpacked (.finite negative d)).neg = unpacked (.finite (!negative) d) := by
  rw [unpacked, unpacked]
  split
  · cases negative <;> rfl
  · cases negative <;> rfl

theorem abs_unpacked (negative : Bool) (d : Dyadic) :
    (unpacked (.finite negative d)).abs = unpacked (.finite false d) := by
  rw [unpacked, unpacked]
  split
  · rfl
  · rfl

theorem ofFloat_neg {x : Float} {negative : Bool} {d : Dyadic}
    (h : ofFloat x = .finite negative d) : ofFloat (-x) = .finite (!negative) d := by
  have hneg : -x = .ofModel (.pack x.toModel.unpack.neg) := rfl
  rw [hneg, unpack_eq, h, neg_unpacked]
  exact ofFloat_pack (canonical_of_ofFloat h) _

theorem ofFloat_abs {x : Float} {negative : Bool} {d : Dyadic}
    (h : ofFloat x = .finite negative d) : ofFloat x.abs = .finite false d := by
  have habs : x.abs = .ofModel (.pack x.toModel.unpack.abs) := rfl
  rw [habs, unpack_eq, h, abs_unpacked]
  exact ofFloat_pack (canonical_of_ofFloat h) _

/-! ## Products with minus one -/

/-- Shifting out digits that are all zero. -/
theorem repeat_shiftRightOne (m k : Nat) :
    Nat.repeat UnpackedFloat.ExtendedMantissa.shiftRightOne k ⟨m * 2 ^ k, false, false⟩ =
      ⟨m, false, false⟩ := by
  induction k generalizing m with
  | zero => simp [Nat.repeat]
  | succ k ih =>
    have hshift : m * 2 ^ (k + 1) = m * 2 * 2 ^ k := by ring
    rw [Nat.repeat, hshift, ih, UnpackedFloat.ExtendedMantissa.shiftRightOne]
    simp

/-- The exponent of a canonical magnitude is the one that rounding aims at. -/
theorem targetExponent_canonical {d : Dyadic} (hd : d.Canonical) (hpos : 0 < d.mantissa) :
    Format.binary64.targetExponent (totalExponent d.mantissa d.exponent) = d.exponent := by
  obtain ⟨hlt, hle, hmax, hnormal⟩ := hd
  have htarget : Format.binary64.targetExponent (totalExponent d.mantissa d.exponent) =
      max ((d.mantissa.log2 : Int) + 1 + d.exponent - 53) (-1074) := rfl
  have hlog : d.mantissa.log2 < 53 := (Nat.log2_lt (by omega)).mpr hlt
  rw [htarget]
  rcases hnormal with hnormal | hnormal
  · have hlog' : 52 ≤ d.mantissa.log2 := (Nat.le_log2 (by omega)).mpr hnormal
    omega
  · omega

theorem log2_mul_two_pow {m : Nat} (hm : m ≠ 0) (k : Nat) : (m * 2 ^ k).log2 = m.log2 + k := by
  have hpow : 0 < 2 ^ k := Nat.two_pow_pos k
  rw [Nat.log2_eq_iff (Nat.mul_ne_zero hm (by omega))]
  constructor
  · rw [Nat.pow_add]
    exact Nat.mul_le_mul_right _ (Nat.log2_self_le hm)
  · rw [Nat.add_right_comm, Nat.pow_add]
    exact Nat.mul_lt_mul_of_pos_right Nat.lt_log2_self hpow

/-- A canonical magnitude with zeros behind it is rounded to itself. -/
theorem shiftToTargetExponent_canonical {d : Dyadic} (hd : d.Canonical) (hpos : 0 < d.mantissa)
    (k : Nat) :
    UnpackedFloat.shiftToTargetExponent .binary64 (d.mantissa * 2 ^ k) (d.exponent - k) .exact =
      (⟨d.mantissa, false, false⟩, d.exponent) := by
  have htotal : totalExponent (d.mantissa * 2 ^ k) (d.exponent - k) =
      totalExponent d.mantissa d.exponent := by
    rw [totalExponent, totalExponent, log2_mul_two_pow (by omega)]
    omega
  have hshift : (d.exponent - (d.exponent - k)).toNat = k := by omega
  have hrepeat := repeat_shiftRightOne d.mantissa k
  rw [UnpackedFloat.shiftToTargetExponent, htotal, targetExponent_canonical hd hpos,
    UnpackedFloat.shiftToExponent, hshift]
  rw [Prod.mk.injEq]
  exact ⟨hrepeat, by omega⟩

theorem roundWithAccuracy_canonical {d : Dyadic} (hd : d.Canonical) (hpos : 0 < d.mantissa)
    (k : Nat) (s : UnpackedFloat.Sign) :
    UnpackedFloat.roundWithAccuracy .binary64 s (d.mantissa * 2 ^ k) (d.exponent - k) .exact =
      .finite s d.mantissa d.exponent hpos := by
  have hagain := shiftToTargetExponent_canonical hd hpos 0
  rw [Nat.pow_zero, Nat.mul_one, Int.natCast_zero, Int.sub_zero] at hagain
  have hrounded : (⟨d.mantissa, false, false⟩ :
      UnpackedFloat.ExtendedMantissa).roundedMantissa = d.mantissa := rfl
  rw [UnpackedFloat.roundWithAccuracy, shiftToTargetExponent_canonical hd hpos k]
  dsimp only
  rw [hrounded, hagain]
  exact dif_neg (Nat.pos_iff_ne_zero.mp hpos)

/-- Multiplying by minus one is exact. -/
theorem ofFloat_neg_one_mul {x : Float} {negative : Bool} {d : Dyadic}
    (h : ofFloat x = .finite negative d) : ofFloat (-1 * x) = .finite (!negative) d := by
  have hd := canonical_of_ofFloat h
  have hone : (-1 : Float).toModel.unpack = .finite .negative (2 ^ 52) (-52) (by decide) := by
    rw [unpack_eq, show ofFloat (-1) = .finite true ⟨2 ^ 52, -52⟩ by decide +kernel]
    rfl
  have hsign : UnpackedFloat.Sign.negative * sign negative = sign (!negative) := by
    cases negative <;> rfl
  have hmul : -1 * x = .ofModel (.pack (UnpackedFloat.mul .binary64 (-1 : Float).toModel.unpack
      x.toModel.unpack)) := rfl
  have hproduct : UnpackedFloat.mul .binary64 (.finite .negative (2 ^ 52) (-52) (by decide))
      (unpacked (.finite negative d)) = unpacked (.finite (!negative) d) := by
    rw [unpacked, unpacked]
    by_cases hpos : 0 < d.mantissa
    · rw [dif_pos hpos, dif_pos hpos, UnpackedFloat.mul, hsign, Nat.mul_comm, Int.add_comm]
      exact roundWithAccuracy_canonical hd hpos 52 _
    · rw [dif_neg hpos, dif_neg hpos, UnpackedFloat.mul, hsign]
  rw [hmul, hone, unpack_eq, h, hproduct]
  exact ofFloat_pack hd _

end Reading

end SphereLab
