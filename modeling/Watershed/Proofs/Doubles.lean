import Mathlib

/-!
# Adding to the negative zero

A number of the format `binary64` can be taken apart into its sign, its exponent and its mantissa,
and put together from them again without loss. So an operation that hands on what an operand was
taken apart into hands on the operand. Addition does so where one operand is the negative zero, the
number that sums start from.
-/

set_option autoImplicit false

namespace Watershed

open Float.Model (Format UnpackedFloat)
open Float.Model.UnpackedFloat (packComponents unpackSign unpackExponent unpackMantissa)

/-! ## Taking numbers apart -/

/-- A number is put together again from its sign bit, its exponent bits and its mantissa bits. -/
theorem packComponents_unpacked (b : BitVec Format.binary64.numBits) :
    packComponents .binary64 (UnpackedFloat.Sign.ofBitVec (unpackSign b)) (unpackExponent b)
      (unpackMantissa b) = b := by
  have hsign : ∀ v : BitVec 1, (UnpackedFloat.Sign.ofBitVec v).toBitVec = v := by decide
  rw [packComponents, hsign]
  ext i hi
  simp only [unpackSign, unpackExponent, unpackMantissa]
  grind

/-- The mantissa of a normal number has a leading bit that is not written. -/
theorem toNat_leadingBit_append (m : BitVec 52) : (1#1 ++ m).toNat = 1 <<< 52 + m.toNat := by
  rw [BitVec.toNat_append, ← Nat.shiftLeft_add_eq_or_of_lt m.isLt]
  rfl

/-- With its leading bit, the mantissa of a normal number has fifty-three bits. -/
theorem log2_leadingBit_append (m : BitVec 52) : (1#1 ++ m).toNat.log2 = 52 := by
  have hm := m.isLt
  rw [Nat.log2_eq_iff (by rw [toNat_leadingBit_append]; omega), toNat_leadingBit_append]
  omega

/-! ## Putting numbers together -/

/-- A number with the least exponent and a mantissa without a leading bit is stored with no exponent
bit set. -/
theorem pack_subnormal (s : UnpackedFloat.Sign) (m : BitVec 52) (hm : 0 < m.toNat) :
    UnpackedFloat.pack .binary64 (.finite s m.toNat (-1074) hm) =
      packComponents .binary64 s 0#11 m := by
  have hlog : m.toNat.log2 < 52 := (Nat.log2_lt (Nat.ne_of_gt hm)).2 m.isLt
  have hbits : ¬m.toNat.log2 + 1 = Format.binary64.mantissaBits := by
    show ¬m.toNat.log2 + 1 = 53
    omega
  have hsmall : ¬2 ^ Format.binary64.exponentBits ≤ ((-1074 : Int) + Format.binary64.exponentBias +
      Format.binary64.mantissaBitsWithoutImplicit).toNat + 1 := by
    decide
  simp only [UnpackedFloat.pack, if_neg hsmall, if_neg hbits, BitVec.ofNat_toNat,
    BitVec.setWidth_eq]

/-- A number with a leading bit is stored without it, and with its exponent shifted. -/
theorem pack_normal (s : UnpackedFloat.Sign) (e : BitVec 11) (m : BitVec 52) (hones : e ≠ -1#11)
    (hm : 0 < (1#1 ++ m).toNat) :
    UnpackedFloat.pack .binary64 (.finite s (1#1 ++ m).toNat ((e.toNat : Int) - 1075) hm) =
      packComponents .binary64 s e m := by
  have hbits : (1#1 ++ m).toNat.log2 + 1 = Format.binary64.mantissaBits := by
    rw [log2_leadingBit_append]
    rfl
  have hexponent : ((e.toNat : Int) - 1075 + Format.binary64.exponentBias +
      Format.binary64.mantissaBitsWithoutImplicit).toNat = e.toNat := by
    show ((e.toNat : Int) - 1075 + (1023 : Nat) + (52 : Nat)).toNat = e.toNat
    omega
  have hsmall : ¬2 ^ Format.binary64.exponentBits ≤ e.toNat + 1 := by
    have hlt := e.isLt
    have hne : e.toNat ≠ 2047 := fun h => hones (BitVec.eq_of_toNat_eq h)
    show ¬2 ^ 11 ≤ e.toNat + 1
    omega
  have hmantissa : BitVec.ofNat 52 (1#1 ++ m).toNat = m := by
    apply BitVec.eq_of_toNat_eq
    have hlt := m.isLt
    rw [BitVec.toNat_ofNat, toNat_leadingBit_append]
    omega
  simp only [UnpackedFloat.pack, hexponent, if_neg hsmall, if_pos hbits]
  rw [BitVec.ofNat_toNat, BitVec.setWidth_eq, hmantissa]

/-- Valid bits are put together again from what they are taken apart into. -/
theorem pack_unpack_of_valid {b : BitVec Format.binary64.numBits}
    (hvalid : Format.binary64.Valid b) :
    UnpackedFloat.pack .binary64 (UnpackedFloat.unpack .binary64 b) = b := by
  have hparts := packComponents_unpacked b
  rw [UnpackedFloat.unpack]
  split
  · -- Infinities, and the one NaN that is valid.
    rename_i hones
    split
    · rename_i hmantissa
      rw [hones, hmantissa] at hparts
      exact hparts
    · rename_i hmantissa
      exact (hvalid.eq_packedNaN hones hmantissa).symm
  · rename_i hones
    split
    · rename_i hexponent
      rw [hexponent] at hparts ⊢
      split
      · rename_i hmantissa
        rw [hmantissa] at hparts
        exact hparts
      · rename_i hmantissa
        have hpos : 0 < (unpackMantissa b).toNat := by
          rw [Nat.pos_iff_ne_zero]
          exact fun h => hmantissa (BitVec.eq_of_toNat_eq h)
        exact (pack_subnormal _ _ hpos).trans hparts
    · exact (pack_normal _ _ _ hones _).trans hparts

/-- A number is put together again from what it was taken apart into. -/
theorem pack_unpack (x : Float.Model) : Float.Model.pack x.unpack = x := by
  obtain ⟨bits, hvalid⟩ := x
  have hbits : UnpackedFloat.pack .binary64 (UnpackedFloat.unpack .binary64 bits.toBitVec) =
      bits.toBitVec := pack_unpack_of_valid hvalid
  simp only [Float.Model.pack, Float.Model.unpack, hbits]

/-- Any number added to the negative zero stays as it is. -/
theorem negZero_add (x : Float) : -0.0 + x = x := by
  have hzero : (-0.0 : Float).toModel.unpack = .zero .negative := rfl
  have hadd : ∀ a : UnpackedFloat, UnpackedFloat.add .binary64 (.zero .negative) a = a := by
    intro a
    cases a with
    | zero s => cases s <;> rfl
    | _ => rfl
  show Float.ofModel (Float.Model.pack
    (UnpackedFloat.add .binary64 (-0.0 : Float).toModel.unpack x.toModel.unpack)) = x
  rw [hzero, hadd, pack_unpack]

end Watershed
