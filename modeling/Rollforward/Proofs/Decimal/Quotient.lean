import Rollforward.Proofs.Decimal.Rounding

/-!
# `Rollforward.Proofs.Decimal.Quotient`: quotients that stay finite

A finite double divided by one that is two or more is finite (`isFinite_div_nearest`). Leading bits
decide this: the leading bit of a quotient is that of the dividend less that of the divisor, or the
one below it, and rounding carries by one bit at most. So the quotient does not reach the first
binade that the format has no room for.
-/

set_option autoImplicit false

namespace Rollforward.Decimal

open Float.Model (UnpackedFloat totalExponent)
open Float.Model.UnpackedFloat (ExtendedMantissa Accuracy Sign shiftToExponent
  shiftToTargetExponent roundWithAccuracy divCore accuracyOfFraction unpackExponent unpackMantissa
  unpackSign unpackExponent_packComponents)

/-! ### Rounding -/

/-- The bits behind the mantissa are lost by shifting, whatever is remembered of them. -/
theorem mantissa_shiftRight (m : ExtendedMantissa) (n : Nat) :
    (m >>> n).mantissa = m.mantissa / 2 ^ n := by
  induction n with
  | zero => exact (Nat.div_one _).symm
  | succ n ih =>
      show (m >>> n).mantissa / 2 = _
      rw [ih, Nat.div_div_eq_div_mul, Nat.pow_succ]

/-- Rounding adds one at most. -/
theorem roundedMantissa_le (m : ExtendedMantissa) : m.roundedMantissa ≤ m.mantissa + 1 := by
  obtain ⟨n, half, sticky⟩ := m
  cases half <;> cases sticky <;>
    simp only [ExtendedMantissa.roundedMantissa, ExtendedMantissa.accuracy,
      Accuracy.roundToNearestEven] <;> omega

/-- The bits that the format has no room for are dropped, and no others. -/
theorem shiftToTargetExponent_eq (m : Nat) (e : Int) (a : Accuracy) :
    ∃ k : Nat, (k : Int) = max 0 (max (totalExponent m e - 53) (-1074) - e) ∧
      (shiftToTargetExponent double m e a).1.mantissa = m / 2 ^ k ∧
      (shiftToTargetExponent double m e a).2 = e + k := by
  have least : double.minExponent = -1074 := by decide
  have whole : (ExtendedMantissa.ofMantissaAndAccuracy m a).mantissa = m := by
    unfold ExtendedMantissa.ofMantissaAndAccuracy
    split <;> rfl
  refine ⟨(max (totalExponent m e - 53) (-1074) - e).toNat, by omega, ?_, ?_⟩
  · rw [shiftToTargetExponent, shiftToExponent, mantissa_shiftRight, whole,
      Float.Model.Format.targetExponent, least]
    rfl
  · rw [shiftToTargetExponent, shiftToExponent, Float.Model.Format.targetExponent, least]
    rfl

/-- A number of `k + 1` bits has its leading bit at `k` or below. -/
theorem log2_le_of_lt_two_pow {n k : Nat} (h : n < 2 ^ (k + 1)) : n.log2 ≤ k := by
  by_cases zero : n = 0
  · rw [zero]
    exact Nat.zero_le k
  · exact Nat.le_of_lt_succ ((Nat.log2_lt zero).2 h)

/-- Rounding by itself does not overflow. The exponent of its result may be too large for the
format, and that it is not is what `Fits` says. -/
theorem isFinite_roundWithAccuracy (s : Sign) (m : Nat) (e : Int) (a : Accuracy) :
    (roundWithAccuracy double s m e a).isFinite = true := by
  unfold roundWithAccuracy
  dsimp only
  split <;> rfl

/-- Rounding carries by one bit at most, so there is room for what leaves one bit free. -/
theorem fits_roundWithAccuracy (s : Sign) {m : Nat} {e : Int} (a : Accuracy)
    (room : totalExponent m e ≤ 1023) (low : e ≤ 970) :
    Fits (roundWithAccuracy double s m e a) := by
  obtain ⟨k, dropped, mantissa, exponent⟩ := shiftToTargetExponent_eq m e a
  unfold roundWithAccuracy
  generalize shiftToTargetExponent double m e a = first at mantissa exponent
  obtain ⟨extended, e₁⟩ := first
  simp only at mantissa exponent
  -- After the first shift rounding may carry to a power of two, one bit more than before.
  have rounded : extended.roundedMantissa ≤ 2 ^ (m.log2 + 1 - k) := by
    have small : m / 2 ^ k < 2 ^ (m.log2 + 1 - k) := by
      refine Nat.div_lt_of_lt_mul (Nat.lt_of_lt_of_le Nat.lt_log2_self ?_)
      rw [← Nat.pow_add]
      exact Nat.pow_le_pow_right Nat.two_pos (by omega)
    have carried := roundedMantissa_le extended
    omega
  have leading : extended.roundedMantissa.log2 ≤ m.log2 + 1 - k :=
    log2_le_of_lt_two_pow (Nat.lt_of_le_of_lt rounded
      (Nat.pow_lt_pow_right (by decide) (Nat.lt_succ_self _)))
  obtain ⟨k', dropped', mantissa', exponent'⟩ :=
    shiftToTargetExponent_eq extended.roundedMantissa e₁ .exact
  dsimp only
  split
  · exact True.intro
  · show _ ≤ _
    rw [exponent']
    simp only [totalExponent] at room dropped dropped'
    omega

/-! ### Division -/

/-- There is room for a quotient by what is two or more: its leading bit is that of the dividend
less that of the divisor, or the one below. -/
theorem fits_divCore (s : Sign) {m₁ m₂ : Nat} {e₁ e₂ : Int} (positive : 0 < m₂)
    (dividend : totalExponent m₁ e₁ ≤ 1024) (divisor : 2 ≤ totalExponent m₂ e₂) :
    let (m, e, a) := divCore double m₁ e₁ m₂ e₂
    Fits (roundWithAccuracy double s m e a) := by
  have bits : double.mantissaBits = 53 := by decide
  have least : double.minExponent = -1074 := by decide
  obtain ⟨e, he⟩ : ∃ e : Int,
      e = min (e₁ - e₂) (max (totalExponent m₁ e₁ - totalExponent m₂ e₂ - 53) (-1074)) := ⟨_, rfl⟩
  obtain ⟨k, hk⟩ : ∃ k : Nat, (k : Int) = e₁ - e₂ - e := ⟨(e₁ - e₂ - e).toNat, by omega⟩
  have core : divCore double m₁ e₁ m₂ e₂ = (m₁ <<< k / m₂, e,
      accuracyOfFraction (m₁ <<< k % m₂) m₂) := by
    rw [divCore, Float.Model.Format.targetExponent, bits, least]
    simp only [Nat.cast_ofNat, ← he, ← hk, Int.toNat_natCast]
  -- The dividend is shifted by `k` bits, so that the quotient has all the bits it needs.
  have quotient : (m₁ <<< k / m₂).log2 ≤ m₁.log2 + k - m₂.log2 := by
    refine log2_le_of_lt_two_pow (Nat.div_lt_of_lt_mul ?_)
    calc m₁ <<< k = m₁ * 2 ^ k := Nat.shiftLeft_eq m₁ k
      _ < 2 ^ (m₁.log2 + 1) * 2 ^ k :=
          Nat.mul_lt_mul_of_pos_right Nat.lt_log2_self (Nat.two_pow_pos k)
      _ = 2 ^ (m₁.log2 + 1 + k) := (Nat.pow_add 2 _ _).symm
      _ ≤ 2 ^ (m₂.log2 + (m₁.log2 + k - m₂.log2 + 1)) :=
          Nat.pow_le_pow_right Nat.two_pos (by omega)
      _ = 2 ^ m₂.log2 * 2 ^ (m₁.log2 + k - m₂.log2 + 1) := Nat.pow_add 2 _ _
      _ ≤ m₂ * 2 ^ (m₁.log2 + k - m₂.log2 + 1) :=
          Nat.mul_le_mul_right _ (Nat.log2_self_le (Nat.ne_of_gt positive))
  rw [core]
  refine fits_roundWithAccuracy s _ ?_ ?_
  · simp only [totalExponent] at dividend divisor he ⊢
    omega
  · omega

/-- A quotient of finite numbers is finite, and there is room for it in the format. -/
theorem div_finite {u : UnpackedFloat} (finite : u.isFinite = true)
    (dividend : ∀ {s m e positive}, u = .finite s m e positive → totalExponent m e ≤ 1024)
    {m : Nat} {e : Int} (positive : 0 < m) (divisor : 2 ≤ totalExponent m e) (s : Sign) :
    Fits (u.div double (.finite s m e positive)) ∧
      (u.div double (.finite s m e positive)).isFinite = true := by
  cases u with
  | notANumber | infinity _ => cases finite
  | zero _ => exact ⟨True.intro, rfl⟩
  | finite s₁ m₁ e₁ positive₁ =>
      exact ⟨fits_divCore (s₁ / s) positive (dividend rfl) divisor,
        isFinite_roundWithAccuracy (s₁ / s) _ _ _⟩

/-! ### Operands -/

/-- A significand with its leading one. -/
theorem le_one_append (m : BitVec 52) : 2 ^ 52 ≤ (1#1 ++ m).toNat := by
  rw [BitVec.toNat_append]
  exact Nat.left_le_or

/-- The mantissa of a normal double has its leading bit. -/
theorem one_append_pos (m : BitVec 52) : 0 < (1#1 ++ m).toNat :=
  Nat.lt_of_lt_of_le (Nat.two_pow_pos 52) (le_one_append m)

/-- And it is the bit in front of the 52 that are stored. -/
theorem log2_one_append (m : BitVec 52) : (1#1 ++ m).toNat.log2 = 52 :=
  (Nat.log2_eq_iff (Nat.ne_of_gt (one_append_pos m))).2 ⟨le_one_append m, (1#1 ++ m).isLt⟩

/-- A double has 53 bits, and the last binade begins at `2 ^ 1023`. -/
theorem totalExponent_unpack {b : BitVec double.numBits} {s : Sign} {m : Nat} {e : Int}
    {positive : 0 < m} (h : UnpackedFloat.unpack double b = .finite s m e positive) :
    totalExponent m e ≤ 1024 := by
  have fits : e ≤ 971 := by
    have fits := fits_unpack b
    rwa [h] at fits
  have bits : m.log2 ≤ 52 := by
    unfold UnpackedFloat.unpack at h
    dsimp only at h
    split at h
    · split at h <;> cases h
    · split at h
      -- In the lowest binade the significand has no leading one.
      · split at h
        · cases h
        · obtain ⟨-, rfl, -⟩ := UnpackedFloat.finite.inj h
          exact log2_le_of_lt_two_pow (Nat.lt_trans (unpackMantissa b).isLt (by decide))
      · obtain ⟨-, rfl, -⟩ := UnpackedFloat.finite.inj h
        exact Nat.le_of_eq (log2_one_append _)
  simp only [totalExponent]
  omega

/-- A finite double whose exponent is large is two or more. -/
theorem two_le_totalExponent_unpack {b : BitVec double.numBits}
    (finite : (UnpackedFloat.unpack double b).isFinite = true)
    (large : 1024 ≤ (unpackExponent b).toNat) :
    ∃ s m e positive, UnpackedFloat.unpack double b = .finite s m e positive ∧
      2 ≤ totalExponent m e := by
  have notZero : unpackExponent b ≠ 0#11 := by
    intro zero
    rw [zero] at large
    exact absurd large (by decide)
  have notAll : unpackExponent b ≠ -1#11 := (isFinite_unpack_iff b).1 finite
  have bias : (double.exponentBias : Int) + 52 = 1075 := by decide
  have unpacked : UnpackedFloat.unpack double b = .finite (Sign.ofBitVec (unpackSign b))
      (1#1 ++ unpackMantissa b).toNat ((unpackExponent b).toNat - (double.exponentBias + 52) : Int)
      (one_append_pos _) := by
    unfold UnpackedFloat.unpack
    dsimp only
    rw [if_neg notAll, if_neg notZero]
    rfl
  refine ⟨_, _, _, _, unpacked, ?_⟩
  rw [totalExponent, log2_one_append, bias]
  omega

/-- The exponent survives in the bit pattern. -/
theorem unpackExponent_pack_unpack (b : BitVec double.numBits) :
    unpackExponent (UnpackedFloat.pack double (UnpackedFloat.unpack double b)) =
      unpackExponent b := by
  rw [Float.Model.UnpackedFloat.pack_unpack b (by decide)]
  split
  · next nan =>
    -- Of the patterns for what is no number only one is kept, and it has the same exponent.
    obtain ⟨all, -⟩ := of_decide_eq_true nan
    rw [Float.Model.UnpackedFloat.packedNaN, unpackExponent_packComponents, all]
  · rfl

/-! ### Divisors -/

/-- A number that is two or more is rounded into a high binade. -/
theorem le_nearestRank {num den : Nat} (hd : 0 < den) (h : 2 * den ≤ num) :
    1024 * 2 ^ 52 ≤ nearestRank num den := by
  have hn : 0 < num := by omega
  have denPos : (0 : ℚ) < den := by exact_mod_cast hd
  have two : (2 : ℚ) ≤ num / den := by
    rw [le_div_iff₀ denPos]
    exact_mod_cast h
  obtain ⟨e, s, rounds, rank⟩ := exists_roundsTo hn hd
  have high : 1 < e + 53 := by
    rw [← zpow_lt_zpow_iff_right₀ (one_lt_two (α := ℚ)), zpow_one]
    exact two.trans_lt rounds.upper
  obtain ⟨-, least⟩ := rounds.lower.resolve_left (by omega)
  rw [rank, infinityRank]
  omega

/-- The exponent of a double that is two or more is large. -/
theorem le_unpackExponent_nearest {num den : Nat} (hd : 0 < den) (h : 2 * den ≤ num) :
    1024 ≤ (@unpackExponent double (nearest num den).toModel.toBits.toBitVec).toNat := by
  have low := le_nearestRank hd h
  have high := nearestRank_le num den
  have large : 1024 ≤
      (@unpackExponent double (UInt64.ofNat (nearestRank num den)).toBitVec).toNat := by
    rw [toNat_unpackExponent, UInt64.toNat_toBitVec, UInt64.toNat_ofNat']
    rw [infinityRank] at high
    omega
  rw [← unpackExponent_pack_unpack] at large
  exact large

/-- A finite double divided by one that is two or more is finite. -/
theorem isFinite_div_nearest {x : Float} (finite : x.isFinite = true) {num den : Nat}
    (hd : 0 < den) (h : 2 * den ≤ num) (divisor : (nearest num den).isFinite = true) :
    (x / nearest num den).isFinite = true := by
  obtain ⟨s, m, e, positive, unpacked, two⟩ :=
    two_le_totalExponent_unpack divisor (le_unpackExponent_nearest hd h)
  have quotient := div_finite finite totalExponent_unpack positive two s
  rw [← unpacked] at quotient
  exact (isFinite_unpack_pack quotient.1).trans quotient.2

end Rollforward.Decimal
