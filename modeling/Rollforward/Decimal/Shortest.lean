import Rollforward.Decimal.Binary

/-!
# `Rollforward.Decimal.Shortest`: the fewest digits that read back

The reals that round to a double form an interval around it, whose ends belong to it when the
significand is even. `shortest` takes the coarsest decimal grid with a point in that interval and,
of its points there, the nearest to the double. A `Layout` says how the digits are set out.
-/

set_option autoImplicit false

namespace Rollforward.Decimal

/-- The number `digits * 10 ^ exponent`. -/
structure Scientific where
  digits : Nat
  exponent : Int
  deriving Repr, DecidableEq

/-- How many digits `n` is written with; none for zero. -/
def digitCount (n : Nat) : Nat :=
  if n = 0 then 0 else (Nat.toDigits 10 n).length

/-- The `d` with `10 ^ (d - 1) ≤ num / den < 10 ^ d`, for a positive ratio. -/
def decimalExponent (num den : Nat) : Int :=
  if den ≤ num then digitCount (num / den) else 1 - (digitCount ((den - 1) / num) : Int)

/-- The reals that round to a double, as numerators over one denominator. -/
structure Interval where
  low : Nat
  value : Nat
  high : Nat
  den : Nat
  /-- Whether the ends round to the double too. -/
  closed : Bool

/-- The interval of a positive finite double. The gap below a power of two is half as wide, except
in the lowest binade. -/
def Interval.ofDyadic (d : Dyadic) : Interval :=
  let narrow := d.significand = power 2 52 ∧ -1074 < d.exponent
  -- In quarters of the last bit every bound is a whole number.
  let (num, den) := Dyadic.ratio ⟨1, d.exponent - 2⟩
  let m := d.significand
  ⟨(4 * m - if narrow then 1 else 2) * num, 4 * m * num, (4 * m + 2) * num, den, m % 2 == 0⟩

/-- The interval with every bound divided by `10 ^ e`. -/
def Interval.scale (i : Interval) (e : Int) : Interval :=
  if 0 ≤ e then { i with den := i.den * power 10 e.toNat }
  else
    let f := power 10 (-e).toNat
    { i with low := i.low * f, value := i.value * f, high := i.high * f }

/-- Whether the natural number `n` lies in the interval. -/
def Interval.holds (i : Interval) (n : Nat) : Bool :=
  if i.closed then decide (i.low ≤ n * i.den ∧ n * i.den ≤ i.high)
  else decide (i.low < n * i.den ∧ n * i.den < i.high)

/-- Which of two points equally near wins. -/
inductive Tie where
  | toEven
  | up
  deriving Repr, DecidableEq

/-- The natural number in the interval that is nearest to its value. Only the two neighbours of the
value need a look: if any natural number lies in the interval, so does one of them. -/
def Interval.nearestPoint (i : Interval) (tie : Tie) : Option Nat :=
  let below := i.value / i.den
  let above := below + 1
  match i.holds below, i.holds above with
  | true, true =>
    -- Both neighbours read back, so the nearer is taken and a tie is for the layout.
    let left := i.value - below * i.den
    let right := above * i.den - i.value
    if left < right then some below
    else if right < left then some above
    else match tie with
      | .toEven => some (if below % 2 == 0 then below else above)
      | .up => some above
  | true, false => some below
  | false, true => some above
  | false, false => none

/-- The first grid of `count`, `count + 1`, … digits with a point in the interval. `fuel` bounds how
many grids are tried. -/
def firstGrid (i : Interval) (tie : Tie) (d : Int) : (fuel count : Nat) → Scientific
  | 0, count => ⟨i.value / i.den, d - count⟩
  | fuel + 1, count =>
    match (i.scale (d - count)).nearestPoint tie with
    | some n => ⟨n, d - count⟩
    | none => firstGrid i tie d fuel (count + 1)

/-- Moves trailing zeros of the digits into the exponent. -/
def Scientific.trim (s : Scientific) : Scientific :=
  if h : s.digits ≠ 0 ∧ s.digits % 10 = 0 then Scientific.trim ⟨s.digits / 10, s.exponent + 1⟩
  else s
termination_by s.digits
decreasing_by omega

/-- The shortest decimal that reads back as the double, nearest to it among those. Seventeen digits
always suffice. -/
def shortest (tie : Tie) (d : Dyadic) : Scientific :=
  if d.significand = 0 then ⟨0, 0⟩
  else
    let i := Interval.ofDyadic d
    (firstGrid i tie (decimalExponent i.value i.den) 17 1).trim

/-- A number as it is spelt: the digits before and behind the point, and a power of ten. -/
structure Spelling where
  whole : List Char
  /-- The digits behind the point; without any, no point is written. -/
  fraction : List Char
  power : Option Int
  deriving Repr, DecidableEq

/-- The spelling in print. A power always has its sign. -/
def Spelling.chars (s : Spelling) : List Char :=
  s.whole ++ (if s.fraction.isEmpty then [] else '.' :: s.fraction)
    ++ match s.power with
      | none => []
      | some p => 'e' :: (if p < 0 then '-' else '+') :: Nat.toDigits 10 p.natAbs

/-- How the digits of a number are set out. -/
structure Layout where
  tie : Tie
  /-- Numbers below `10 ^ lowest` get a power. -/
  lowest : Option Int
  /-- Numbers from `10 ^ highest` on get a power. -/
  highest : Option Int
  /-- The digits behind the point of a whole number without a power. -/
  wholeFraction : List Char

/-- `digits * 10 ^ exponent` without a power. -/
def positional (wholeFraction : List Char) (s : Scientific) : Spelling :=
  let digits := Nat.toDigits 10 s.digits
  if 0 ≤ s.exponent then ⟨digits ++ List.replicate s.exponent.toNat '0', wholeFraction, none⟩
  else
    let places := (-s.exponent).toNat
    -- One zero at least stands before the point.
    let padded := List.replicate (places + 1 - digits.length) '0' ++ digits
    let split := padded.length - places
    ⟨padded.take split, padded.drop split, none⟩

/-- `digits * 10 ^ exponent` with one digit before the point and a power. -/
def withPower (s : Scientific) : Spelling :=
  let digits := Nat.toDigits 10 s.digits
  ⟨digits.take 1, digits.drop 1, some (s.exponent + (digits.length : Int) - 1)⟩

/-- Spells a magnitude. Zero never gets a power. -/
def Layout.spell (l : Layout) (d : Dyadic) : Spelling :=
  let s := shortest l.tie d
  let reach := s.exponent + (digitCount s.digits : Int)
  -- The number lies between `10 ^ (reach - 1)` and `10 ^ reach`.
  let low := l.lowest.all fun e => decide (e < reach)
  let high := l.highest.all fun e => decide (reach ≤ e)
  if s.digits = 0 ∨ (low = true ∧ high = true) then positional l.wholeFraction s else withPower s

end Rollforward.Decimal
