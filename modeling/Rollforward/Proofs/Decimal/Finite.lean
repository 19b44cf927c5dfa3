import Mathlib
import Rollforward.Decimal.Binary

/-!
# `Rollforward.Proofs.Decimal.Finite`: which doubles are finite

The low 63 bits of a double are its rank, and the doubles below the rank of infinity are the finite
ones (`isFinite_ofRank_iff`). A sign makes no difference (`isFinite_neg`).

The arithmetic of doubles unpacks its operands and packs its result. Packing makes an infinity of a
finite number whose exponent is too large for the format, so `Fits` says that it is not; what comes
from a double always fits.
-/

set_option autoImplicit false

namespace Rollforward.Decimal

open Float.Model (UnpackedFloat)
open Float.Model.UnpackedFloat (unpackExponent unpackMantissa)

/-- The format of a double. -/
abbrev double : Float.Model.Format := .binary64

/-! ### Packing and unpacking -/

/-- A finite number whose exponent the format has room for, or no finite number. -/
def Fits : UnpackedFloat → Prop
  | .finite _ _ e _ => e ≤ 971
  | _ => True

/-- A double is finite unless its exponent is all ones. -/
theorem isFinite_unpack_iff (b : BitVec double.numBits) :
    (UnpackedFloat.unpack double b).isFinite = true ↔ unpackExponent b ≠ BitVec.allOnes 11 := by
  have ones : (-1#11 : BitVec 11) = BitVec.allOnes 11 := by decide
  unfold UnpackedFloat.unpack
  dsimp only
  rw [ones]
  split
  · next all =>
    split <;> simp only [UnpackedFloat.isFinite, all, ne_eq, not_true, Bool.false_eq_true]
  · next notAll =>
    split
    · split <;> simp only [UnpackedFloat.isFinite, notAll, ne_eq, not_false_eq_true]
    · simp only [UnpackedFloat.isFinite, notAll, ne_eq, not_false_eq_true]

/-- Whatever is stored fits. -/
theorem fits_unpack (b : BitVec double.numBits) : Fits (UnpackedFloat.unpack double b) := by
  have bounded : (unpackExponent b).toNat < 2 ^ 11 := (unpackExponent b).isLt
  have ones : (-1#11 : BitVec 11).toNat = 2047 := by decide
  unfold UnpackedFloat.unpack
  dsimp only
  split
  · split <;> exact True.intro
  · next notAll =>
    have below : (unpackExponent b).toNat ≠ 2047 := by
      intro all
      exact notAll (BitVec.eq_of_toNat_eq (all.trans ones.symm))
    split
    · next zero =>
      split
      · exact True.intro
      · show _ ≤ _
        rw [zero]
        decide
    · show _ ≤ _
      simp only [Float.Model.Format.exponentBias]
      omega

/-- A sign takes no room. -/
theorem fits_neg {u : UnpackedFloat} (h : Fits u) : Fits u.neg := by
  cases u with
  | finite s m e positive => exact h
  | _ => exact True.intro

/-- Packing keeps what fits finite, and makes nothing finite that is not. -/
theorem isFinite_unpack_pack {u : UnpackedFloat} (h : Fits u) :
    (UnpackedFloat.unpack double (UnpackedFloat.pack double u)).isFinite = u.isFinite := by
  have ones : (-1#11 : BitVec 11) = BitVec.allOnes 11 := by decide
  have zeros : (0#11 : BitVec 11) ≠ BitVec.allOnes 11 := by decide
  rw [Bool.eq_iff_iff, isFinite_unpack_iff]
  cases u with
  | notANumber | infinity s =>
      simp [UnpackedFloat.pack, Float.Model.UnpackedFloat.packedNaN,
        Float.Model.UnpackedFloat.packedInfinity, UnpackedFloat.isFinite, ones]
  | zero s =>
      simp [UnpackedFloat.pack, Float.Model.UnpackedFloat.packedZero, UnpackedFloat.isFinite]
  | finite s m e positive =>
      have small : e ≤ 971 := h
      have bias : double.exponentBias = 1023 := by decide
      simp only [UnpackedFloat.pack, UnpackedFloat.isFinite, iff_true, bias]
      rw [if_neg (by omega)]
      split
      · rw [Float.Model.UnpackedFloat.unpackExponent_packComponents]
        intro all
        have all := congrArg BitVec.toNat all
        rw [BitVec.toNat_ofNat, BitVec.toNat_allOnes] at all
        omega
      · rw [Float.Model.UnpackedFloat.unpackExponent_packComponents]
        exact zeros

/-! ### Signs -/

/-- A sign makes nothing finite or infinite. -/
theorem isFinite_neg (x : Float) : (-x).isFinite = x.isFinite := by
  have fits : Fits x.toModel.unpack.neg := fits_neg (fits_unpack _)
  have same (u : UnpackedFloat) : u.neg.isFinite = u.isFinite := by cases u <;> rfl
  exact (isFinite_unpack_pack fits).trans (same x.toModel.unpack)

/-! ### Ranks -/

/-- The exponent of a double, as the digits of its bit pattern above the 52 of the significand. -/
theorem toNat_unpackExponent (b : BitVec double.numBits) :
    (unpackExponent b).toNat = b.toNat / 2 ^ 52 % 2 ^ 11 := by
  show (b.extractLsb 62 52).toNat = _
  rw [BitVec.extractLsb_toNat, Nat.shiftRight_eq_div_pow]

/-- The exponent is all ones from the rank of infinity on. -/
theorem unpackExponent_ne_allOnes_iff (b : BitVec double.numBits) :
    unpackExponent b ≠ BitVec.allOnes 11 ↔ b.toNat % power 2 63 < infinityRank := by
  have ones : (BitVec.allOnes 11).toNat = 2047 := by decide
  have same := toNat_unpackExponent b
  have top : power 2 63 = 2 ^ 63 := rfl
  rw [ne_eq, ← BitVec.toNat_inj, ones, same, top, infinityRank]
  omega

/-- The double of a rank is finite below the rank of infinity. -/
theorem isFinite_ofRank_iff {rank : Nat} (h : rank ≤ infinityRank) :
    (ofRank rank).isFinite = true ↔ rank < infinityRank := by
  have top : power 2 63 = 2 ^ 63 := rfl
  have finite : (ofRank rank).isFinite =
      (UnpackedFloat.unpack double (UInt64.ofNat rank).toBitVec).isFinite :=
    isFinite_unpack_pack (fits_unpack _)
  rw [finite, isFinite_unpack_iff, unpackExponent_ne_allOnes_iff, UInt64.toNat_toBitVec,
    UInt64.toNat_ofNat', top]
  rw [infinityRank] at h ⊢
  omega

end Rollforward.Decimal
