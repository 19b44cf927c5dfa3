/-!
# `Rollforward.Decimal.Binary`: binary doubles as exact numbers

A finite double is `significand * 2 ^ exponent`. The non-negative doubles are numbered in their
order, from zero to infinity: the number is the *rank*, and it is also the bit pattern.

* `shapeOf` takes a double apart.
* `nearestRank` rounds a ratio of naturals to the nearest double, a tie going to the even
  significand; what is too large becomes infinity.
-/

set_option autoImplicit false

namespace Rollforward.Decimal

/-- A power of naturals. The power is the core library's own, whatever others are in sight. -/
def power (base n : Nat) : Nat := @HPow.hPow Nat Nat Nat (@instHPow Nat Nat instPowNat) base n

/-- The non-negative number `significand * 2 ^ exponent`. -/
structure Dyadic where
  significand : Nat
  exponent : Int
  deriving Repr, DecidableEq

/-- What a double stands for. -/
inductive Shape where
  | nan
  | infinite (negative : Bool)
  | finite (negative : Bool) (magnitude : Dyadic)
  deriving Repr, DecidableEq

/-- The rank of infinity. Every smaller rank belongs to a finite double. -/
def infinityRank : Nat := 0x7FF0000000000000

/-- The finite double of a rank: the low 52 bits are the significand's, the others number the
binade; the lowest binade has no leading one. -/
def Dyadic.ofRank (rank : Nat) : Dyadic :=
  let binade : Nat := rank / power 2 52
  -- The lowest binade has the exponent of the one above it, and no leading one.
  if binade = 0 then ⟨rank, -1074⟩
  else ⟨rank % power 2 52 + power 2 52, (binade : Int) - 1075⟩

/-- The number as a ratio of naturals. -/
def Dyadic.ratio (d : Dyadic) : Nat × Nat :=
  if 0 ≤ d.exponent then (d.significand * power 2 d.exponent.toNat, 1)
  else (d.significand, power 2 (-d.exponent).toNat)

/-- The number itself, when it is a natural number. -/
def Dyadic.toNat? (d : Dyadic) : Option Nat :=
  let (num, den) := d.ratio
  if num % den = 0 then some (num / den) else none

/-- A double taken apart. -/
def shapeOf (x : Float) : Shape :=
  let bits := x.toBits.toNat
  let negative := decide (power 2 63 ≤ bits)
  let rank := bits % power 2 63
  if rank < infinityRank then .finite negative (.ofRank rank)
  else if rank = infinityRank then .infinite negative
  else .nan

/-- The natural number nearest to `num / den`; a half goes to the even neighbour. -/
def roundHalfEven (num den : Nat) : Nat :=
  let q := num / den
  let r := num % den
  if 2 * r < den then q else if den < 2 * r then q + 1 else q + q % 2

/-- The exponent of the last bit that a double near `num / den` holds: 53 bits from the leading one
down, but none below `2 ^ -1074`. -/
def lastBit (num den : Nat) : Int :=
  -- The leading bit of the ratio is `lead` or the one below it.
  let lead : Int := (num.log2 : Int) - (den.log2 : Int)
  let reached :=
    if 0 ≤ lead then den * power 2 lead.toNat ≤ num
    else den ≤ num * power 2 (-lead).toNat
  max (if reached then lead - 52 else lead - 53) (-1074)

/-- The rank of the double nearest to `num / den`. Adding the rounded significand to the ranks below
its binade carries into the next binade by itself, up to infinity. -/
def nearestRank (num den : Nat) : Nat :=
  if num = 0 then 0
  else
    let e := lastBit num den
    -- Rounding may carry to `2 ^ 53`, which is where the next binade begins.
    let s :=
      if 0 ≤ e then roundHalfEven num (den * power 2 e.toNat)
      else roundHalfEven (num * power 2 (-e).toNat) den
    min ((e + 1074).toNat * power 2 52 + s) infinityRank

/-- The non-negative double of a rank. -/
def ofRank (rank : Nat) : Float :=
  Float.ofBits (UInt64.ofNat rank)

/-- The double nearest to `num / den`. -/
def nearest (num den : Nat) : Float :=
  ofRank (nearestRank num den)

end Rollforward.Decimal
