import Rollforward.Decimal.Binary

/-!
# `Rollforward.Decimal.Numeral`: decimal numerals without sign

A numeral is written as digits with at most one point among them. It stands for the exact number
`digits / 10 ^ places`; as a quantity it is the nearest double, and as a count it is that double
when the double is a natural number.
-/

set_option autoImplicit false

namespace Rollforward.Decimal

/-- The value of a decimal digit. -/
def digitValue (c : Char) : Nat := c.toNat - '0'.toNat

/-- The number that a row of decimal digits writes, after the digits read as `start`. -/
def digitsValue (start : Nat) (cs : List Char) : Nat :=
  cs.foldl (fun n c => 10 * n + digitValue c) start

/-- The exact number `digits / 10 ^ places`. -/
structure Numeral where
  digits : Nat
  places : Nat
  deriving Repr, DecidableEq

namespace Numeral

/-- The numeral with these digits before and after its point. -/
def ofParts (whole fraction : List Char) : Numeral :=
  ⟨digitsValue (digitsValue 0 whole) fraction, fraction.length⟩

/-- The rank of the nearest double. -/
def rank (n : Numeral) : Nat := nearestRank n.digits (power 10 n.places)

/-- The nearest double. -/
def toFloat (n : Numeral) : Float := ofRank n.rank

/-- The natural number that the nearest double is, if it is one. -/
def toNat? (n : Numeral) : Option Nat :=
  if n.rank < infinityRank then (Dyadic.ofRank n.rank).toNat? else none

end Numeral

end Rollforward.Decimal
