import Rollforward.Json.Quantity
import Rollforward.Proofs.Decimal.Quotient
import Rollforward.Proofs.Json.Field

/-!
# `Rollforward.Proofs.Json.Quantity`: numbers written and read

Integers are read as they are written (`encodes_int`). The text of a double is one that the reader
takes, but the reader does not always answer the nearest double to a decimal fraction: it rounds the
digits first and scales what it got. So `ReadsBack` names the doubles that come back, and what is
proved of documents asks it of the doubles in them.

Every double that is read is finite (`isFinite_of_toFloat?`): scaling up answers none when it
overflows, and a quotient by a power of ten is finite.
-/

set_option autoImplicit false

namespace Rollforward.Json

open Decimal (nearest power overflow)

/-! ### Integers -/

/-- An integer in the range of the reader comes back. The reader refuses a zero with a sign, and the
writer puts none before it. -/
theorem encodes_int {low high i : Int} (h : low ≤ i ∧ i ≤ high) :
    Encodes (.int i) (toIntWithin? low high) i := by
  refine ⟨_, isRead_number (Decimal.isNumeral_toDigits i.natAbs none), ?_⟩
  have sign : ¬(decide (i < 0) = true ∧ (i.natAbs : Int) = 0) := by
    rw [decide_eq_true_eq]
    omega
  rw [toIntWithin?, Decimal.digitsValue_toDigits]
  simp only [ite_neg_natAbs]
  exact if_pos ⟨h.1, h.2, sign⟩

/-! ### Doubles -/

/-- The text of the double is read as the same double. -/
def ReadsBack (x : Float) : Prop := (read (float x).toText).bind toFloat? = some x

/-- The text of a double is read as the digits it was written with, and that of a double that is not
finite as `null`. -/
theorem isRead_float (x : Float) : IsRead (.float x) (.float x) := by
  unfold float
  split
  · exact isRead_number (Decimal.Layout.isNumeral_spell (by simp [numberLayout]) _)
  · exact isRead_null

/-- Which doubles come back can be computed without a text, from the spelling alone. -/
theorem readsBack_iff {x : Float} : ReadsBack x ↔ toFloat? (float x) = some x := by
  rw [ReadsBack, (isRead_float x).read_toText, Option.bind_some]

instance (x : Float) : Decidable (ReadsBack x) := decidable_of_iff _ readsBack_iff.symm

-- One divided by the double nearest to `10 ^ 23` is not the double nearest to `10 ^ (-23)`.
example : ReadsBack 1e-22 ∧ ¬ReadsBack 1e-23 := by decide +kernel

/-- The form in which documents use it: a double that comes back is encoded like any other value. -/
theorem ReadsBack.encodes {x : Float} (h : ReadsBack x) : Encodes (.float x) toFloat? x :=
  ⟨_, isRead_float x, readsBack_iff.1 h⟩

/-! ### What is read is finite -/

/-- Digits are taken up only while they fit, so the bound holds after each of them and in the end.
-/
theorem gather_le {n : Nat} (h : n ≤ largestGathered) (cs : List Char) :
    (gather n cs).1 ≤ largestGathered := by
  induction cs generalizing n with
  | nil => exact h
  | cons c cs ih =>
      unfold gather
      dsimp only
      split
      · next fits => exact ih fits
      · exact h

/-- One division by a power of ten. The power is at least two, so the quotient cannot round up past
the largest double. -/
theorem isFinite_div_powerOfTen {x : Float} (finite : x.isFinite = true) {n : Nat} (some : 0 < n)
    (small : n ≤ largestPower) : (x / powerOfTen n).isFinite = true := by
  have two : 2 * 1 ≤ power 10 n := by
    calc 2 * 1 ≤ 10 ^ 1 := by decide
      _ ≤ power 10 n := Nat.pow_le_pow_right (by decide) some
  have bounded : power 10 n < overflow * 1 := by
    calc power 10 n ≤ power 10 largestPower := Nat.pow_le_pow_right (by decide) small
      _ < overflow * 1 := by decide +kernel
  exact Decimal.isFinite_div_nearest finite Nat.one_pos two
    ((Decimal.isFinite_nearest_iff Nat.one_pos).2 bounded)

/-- Scaling down divides by the largest power of ten that there is until the rest fits. The
induction is on what is left of the power. -/
theorem isFinite_scaleDown {x : Float} (finite : x.isFinite = true) {n : Nat} (some : 0 < n) :
    (scaleDown x n).isFinite = true := by
  induction n using Nat.strongRecOn generalizing x with
  | ind n ih =>
      rw [scaleDown]
      split
      · exact finite
      split
      · next small => exact isFinite_div_powerOfTen finite some small
      · next large =>
        have positive : 0 < largestPower := by decide
        exact ih (n - largestPower) (by omega)
          (isFinite_div_powerOfTen finite positive (Nat.le_refl _)) (by omega)

/-- Scaling in either direction. Up, the result is checked and nothing has to be shown. -/
theorem isFinite_of_scale? {x y : Float} (finite : x.isFinite = true) {power : Int}
    (h : scale? x power = some y) : y.isFinite = true := by
  unfold scale? at h
  split at h
  · obtain rfl := Option.some.inj h
    exact isFinite_scaleDown finite (by omega)
  split at h
  · obtain rfl := Option.some.inj h
    exact finite
  split at h
  · dsimp only at h
    split at h
    · next checked =>
      obtain rfl := Option.some.inj h
      exact checked
    · cases h
  · cases h

/-- Every double that is read is finite. -/
theorem isFinite_of_toFloat? {v : Json} {x : Float} (h : toFloat? v = some x) :
    x.isFinite = true := by
  cases v with
  | number n =>
      have gathered : (gather (gather 0 n.spelling.whole).1 n.spelling.fraction).1 ≤
          largestGathered := gather_le (gather_le (Nat.zero_le _) _) _
      have finite :
          (nearest (gather (gather 0 n.spelling.whole).1 n.spelling.fraction).1 1).isFinite =
            true := by
        refine (Decimal.isFinite_nearest_iff Nat.one_pos).2 (Nat.lt_of_le_of_lt gathered ?_)
        decide +kernel
      rw [toFloat?, Number.toFloat?] at h
      dsimp only at h
      split at h
      · cases h
      · next y scaled =>
        have scaled := isFinite_of_scale? finite scaled
        obtain rfl := Option.some.inj h
        split
        · rwa [Decimal.isFinite_neg]
        · exact scaled
  | _ => cases h

end Rollforward.Json
