import Rollforward.Decimal.Numeral
import Rollforward.Json.Value

/-!
# `Rollforward.Json.Quantity`: numbers of JSON as quantities

A double is written with the fewest digits that read back, and as `null` when it is not finite. It
is read in two steps: up to nineteen or twenty digits make a natural number, which is rounded to a
double and then scaled by a power of ten.
-/

set_option autoImplicit false

namespace Rollforward.Json

/-- Numbers have a point, or a power of ten when they reach `10 ^ 16` or stay below `10 ^ (-5)`. -/
def numberLayout : Decimal.Layout := ⟨.toEven, some (-5), some 16, ['0']⟩

/-- A double as a value. -/
def float (x : Float) : Json :=
  match Decimal.shapeOf x with
  | .finite negative d => .number ⟨negative, numberLayout.spell d⟩
  | _ => .null

/-- The largest natural number that digits are gathered into. -/
def largestGathered : Nat := Decimal.power 2 64 - 1

/-- Gathers digits behind `n` while the number fits, and answers the digits left. -/
def gather (n : Nat) : List Char → Nat × List Char
  | [] => (n, [])
  | c :: cs =>
    let next := 10 * n + Decimal.digitValue c
    if next ≤ largestGathered then gather next cs else (n, c :: cs)

/-- The largest power of ten that a double holds. -/
def largestPower : Nat := 308

/-- The double nearest to a power of ten. -/
def powerOfTen (n : Nat) : Float := Decimal.nearest (Decimal.power 10 n) 1

/-- `f` divided by `10 ^ n`, at most `largestPower` at a time. -/
def scaleDown (f : Float) (n : Nat) : Float :=
  if f == 0.0 then f
  else if n ≤ largestPower then f / powerOfTen n
  else scaleDown (f / powerOfTen largestPower) (n - largestPower)
termination_by n
decreasing_by
  simp only [largestPower] at *
  omega

/-- `f` scaled by `10 ^ power`, if that is a double. -/
def scale? (f : Float) (power : Int) : Option Float :=
  if power < 0 then some (scaleDown f (-power).toNat)
  else if f == 0.0 then some f
  else if power.toNat ≤ largestPower then
    let x := f * powerOfTen power.toNat
    if x.isFinite then some x else none
  else none

/-- The double that a written number stands for. Digits of the whole part that no longer fit still
count in the power of ten; such digits behind the point are dropped. -/
def Number.toFloat? (n : Number) : Option Float :=
  -- The fraction goes on gathering where the whole part stopped, should its digits fit again.
  let (whole, wholeLeft) := gather 0 n.spelling.whole
  let (gathered, fractionLeft) := gather whole n.spelling.fraction
  let places := n.spelling.fraction.length - fractionLeft.length
  let power := (wholeLeft.length : Int) - (places : Int) + n.spelling.power.getD 0
  match scale? (Decimal.nearest gathered 1) power with
  | none => none
  | some x => some (if n.negative then -x else x)

/-- The number of a value. -/
def toFloat? : Json → Option Float
  | .number n => n.toFloat?
  | _ => none

/-- The integer of a value: digits alone, perhaps behind a minus, between `low` and `high`. Zero has
no minus. -/
def toIntWithin? (low high : Int) : Json → Option Int
  | .number ⟨negative, ⟨whole, [], none⟩⟩ =>
    let m : Int := Decimal.digitsValue 0 whole
    let i := if negative then -m else m
    if low ≤ i ∧ i ≤ high ∧ ¬(negative = true ∧ m = 0) then some i else none
  | _ => none

end Rollforward.Json
