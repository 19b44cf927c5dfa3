import Rollforward.Decimal.Shortest

/-!
# `Rollforward.Decimal.Text`: numbers in running text

A number is written with the fewest digits that read back (`plain`) or with a fixed number of
decimal places (`fixed`), and in neither case with an exponent. For the second the exact binary
value is rounded, a half going to the even digit, and a negative number keeps its sign when it
rounds to zero.
-/

set_option autoImplicit false

namespace Rollforward.Decimal

/-! ### The fewest digits -/

/-- The fewest digits that read back, never with a power of ten; whole numbers have no point. -/
def plainLayout : Layout := ⟨.up, none, none, []⟩

/-- `x` in running text. -/
def plain (x : Float) : String :=
  match shapeOf x with
  | .nan => "NaN"
  | .infinite negative => if negative then "-inf" else "inf"
  | .finite negative d =>
    (if negative then "-" else "") ++ String.ofList (plainLayout.spell d).chars

/-! ### A fixed number of places -/

/-- Writes `n / 10 ^ places` with all its places. -/
def pointed (n places : Nat) : String :=
  let digits := Nat.toDigits 10 n
  let padded := List.replicate (places + 1 - digits.length) '0' ++ digits
  let split := padded.length - places
  if places = 0 then String.ofList padded
  else String.ofList (padded.take split ++ '.' :: padded.drop split)

/-- `x` with `places` decimal places. -/
def fixed (places : Nat) (x : Float) : String :=
  match shapeOf x with
  | .nan => "NaN"
  | .infinite negative => if negative then "-inf" else "inf"
  | .finite negative d =>
    let (num, den) := d.ratio
    (if negative then "-" else "") ++ pointed (roundHalfEven (num * power 10 places) den) places

end Rollforward.Decimal
