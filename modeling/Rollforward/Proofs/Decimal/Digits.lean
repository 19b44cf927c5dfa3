import Rollforward.Decimal.Numeral
import Rollforward.Proofs.Text.Run

/-!
# `Rollforward.Proofs.Decimal.Digits`: numbers written out in digits

The digits of a natural number are digits, there is one at least, and read as a number they are the
number again. In front of anything but a further digit they can be told from what follows.
-/

set_option autoImplicit false

namespace Rollforward.Decimal

/-- The text begins with no digit. -/
def StopsDigits (cs : List Char) : Prop := ∀ c ∈ cs.head?, c.isDigit = false

/-- What the writer puts down for a natural number are digits. -/
theorem isDigit_of_mem_toDigits {n : Nat} : ∀ c ∈ Nat.toDigits 10 n, c.isDigit = true :=
  fun _ h => Nat.isDigit_of_mem_toDigits (by decide) (by decide) h

/-- Digits that are written are read as the same number. -/
theorem digitsValue_toDigits (n : Nat) : digitsValue 0 (Nat.toDigits 10 n) = n :=
  Nat.ofDigitChars_ten_toDigits

/-- The digits of a natural number are a numeral of it. -/
theorem ofParts_toDigits (n : Nat) : Numeral.ofParts (Nat.toDigits 10 n) [] = ⟨n, 0⟩ := by
  rw [Numeral.ofParts, digitsValue_toDigits]
  rfl

/-- The digits of a number are taken to the last one, where they stop. -/
theorem takeWhile_isDigit_append {digits rest : List Char}
    (h : ∀ c ∈ digits, c.isDigit = true) (stops : StopsDigits rest) :
    (digits ++ rest).takeWhile Char.isDigit = digits :=
  Text.EndsRun.takeWhile_append stops h

/-- What is left behind them is what followed. -/
theorem dropWhile_isDigit_append {digits rest : List Char}
    (h : ∀ c ∈ digits, c.isDigit = true) (stops : StopsDigits rest) :
    (digits ++ rest).dropWhile Char.isDigit = rest :=
  Text.EndsRun.dropWhile_append stops h

/-- There are no blanks to trim around digits. -/
theorem trim_digits {cs : List Char} (h : ∀ c ∈ cs, c.isDigit = true) :
    Text.trim (String.ofList cs) = String.ofList cs := by
  refine Text.trim_eq_self fun c hc => ?_
  have digit : c.isDigit = true := h c (by rwa [String.toList_ofList] at hc)
  have range : 48 ≤ c.toNat ∧ c.toNat ≤ 57 := by
    simpa [Char.isDigit, UInt32.le_iff_toNat_le] using digit
  rw [← Bool.not_eq_true]
  simp only [Text.isBlank, Bool.or_eq_true, Bool.and_eq_true, decide_eq_true_eq, beq_iff_eq]
  omega

end Rollforward.Decimal
