import Rollforward.Decimal.Shortest
import Rollforward.Proofs.Decimal.Digits

/-!
# `Rollforward.Proofs.Decimal.Spelling`: numbers are spelt as numerals

A spelling is a numeral when its parts are digits and no zero leads its whole part (`IsNumeral`).
Every layout spells numerals as long as the digits of whole numbers do (`isNumeral_spell`).

A zero could lead only where zeros follow the digits, that is in the positional spelling of zero
with a positive power of ten. The search for digits never ends there: a point of a grid is above the
lower bound of the interval, which is positive, and what is not found on any grid is below one
(`shortest_whole`).
-/

set_option autoImplicit false

namespace Rollforward.Decimal

/-- The parts of the spelling are digits, and no zero leads. -/
structure Spelling.IsNumeral (s : Spelling) : Prop where
  whole_ne_nil : s.whole ≠ []
  whole_digits : ∀ c ∈ s.whole, c.isDigit = true
  zero_alone : s.whole.head? = some '0' → s.whole.length = 1
  fraction_digits : ∀ c ∈ s.fraction, c.isDigit = true

/-! ### Digits of natural numbers -/

/-- No zero leads the digits of a number that is not zero. -/
theorem head?_toDigits_ne_zero {n : Nat} (h : n ≠ 0) : (Nat.toDigits 10 n).head? ≠ some '0' := by
  induction n using Nat.strongRecOn with
  | ind n ih =>
      by_cases small : n < 10
      · rw [Nat.toDigits_of_lt_base small]
        have chars : ∀ m < 10, m ≠ 0 → [m.digitChar].head? ≠ some '0' := by decide
        exact chars n small h
      · have large : 10 ≤ n := Nat.le_of_not_lt small
        have nonempty : Nat.toDigits 10 (n / 10) ≠ [] := Nat.toDigits_ne_nil
        rw [Nat.toDigits_of_base_le (by decide) large, List.head?_append,
          Option.or_of_isSome (List.isSome_head?.2 nonempty)]
        exact ih (n / 10) (by omega) (by omega)

/-- The digits of a natural number, with any power of ten, are a numeral. Integers are written so.
-/
theorem isNumeral_toDigits (n : Nat) (power : Option Int) :
    Spelling.IsNumeral ⟨Nat.toDigits 10 n, [], power⟩ where
  whole_ne_nil := Nat.toDigits_ne_nil
  whole_digits := isDigit_of_mem_toDigits
  zero_alone leading := by
    have zero : n = 0 := Decidable.byContradiction fun other =>
      head?_toDigits_ne_zero other leading
    rw [zero]
    rfl
  fraction_digits := nofun

/-! ### The search for digits -/

/-- The digits are not zero, or they have no zeros behind them. -/
def Scientific.Whole (s : Scientific) : Prop := s.digits ≠ 0 ∨ s.exponent ≤ 0

/-- A grid point inside an interval of positive numbers is not zero. -/
theorem Interval.nearestPoint_ne_zero {i : Interval} (positive : 0 < i.low) {tie : Tie} {n : Nat}
    (h : i.nearestPoint tie = some n) : n ≠ 0 := by
  have outside : i.holds 0 = false := by
    unfold holds
    split
    · simp
      omega
    · simp
  rintro rfl
  unfold nearestPoint at h
  dsimp only at h
  -- Zero could only be the neighbour below, which lies in the interval where it is chosen.
  cases below : i.value / i.den with
  | zero =>
      rw [below, outside] at h
      split at h <;> simp_all
  | succ m =>
      rw [below] at h
      split at h <;> grind

/-- Going over to another grid keeps the interval positive. -/
theorem Interval.low_scale_pos {i : Interval} (positive : 0 < i.low) (e : Int) :
    0 < (i.scale e).low := by
  unfold scale
  split
  · exact positive
  · exact Nat.mul_pos positive (Nat.pow_pos (by decide))

/-- A dyadic number other than zero is a quotient of positive numbers. -/
theorem Dyadic.ratio_pos {d : Dyadic} (h : d.significand ≠ 0) : 0 < d.ratio.1 ∧ 0 < d.ratio.2 := by
  have two (n : Nat) : 0 < power 2 n := Nat.pow_pos (by decide)
  unfold ratio
  split
  · exact ⟨Nat.mul_pos (Nat.pos_of_ne_zero h) (two _), Nat.one_pos⟩
  · exact ⟨Nat.pos_of_ne_zero h, two _⟩

/-- The interval around a double that is not zero lies above zero. Its lower end is at most half a
unit below the significand, which is at least one. -/
theorem Interval.low_ofDyadic_pos {d : Dyadic} (h : d.significand ≠ 0) : 0 < (ofDyadic d).low := by
  have unit := (Dyadic.ratio_pos (d := ⟨1, d.exponent - 2⟩) Nat.one_ne_zero).1
  have room : 0 < 4 * d.significand -
      if d.significand = power 2 52 ∧ -1074 < d.exponent then 1 else 2 := by
    split <;> omega
  exact Nat.mul_pos room unit

/-- The common denominator of an interval is never zero. -/
theorem Interval.den_ofDyadic_pos (d : Dyadic) : 0 < (ofDyadic d).den :=
  (Dyadic.ratio_pos (d := ⟨1, d.exponent - 2⟩) Nat.one_ne_zero).2

/-- A number below one has no digit before the point. So where the search gives up on it, no zeros
are put behind its digits. -/
theorem decimalExponent_le_one {num den : Nat} (below : num < den) :
    decimalExponent num den ≤ 1 := by
  unfold decimalExponent
  rw [if_neg (by omega)]
  omega

/-- The search from grid to grid. It ends on a point of a grid, which is not zero, or it runs out of
fuel. What it answers then is zero for numbers below one only, and these get no zeros behind their
digits. -/
theorem firstGrid_whole {i : Interval} (positive : 0 < i.low) (bounded : 0 < i.den) (tie : Tie)
    (fuel : Nat) {count : Nat} (some : 1 ≤ count) :
    (firstGrid i tie (decimalExponent i.value i.den) fuel count).Whole := by
  induction fuel generalizing count with
  | zero =>
      unfold firstGrid Scientific.Whole
      by_cases below : i.value < i.den
      · have least := decimalExponent_le_one below
        exact Or.inr (by dsimp only; omega)
      · exact Or.inl (Nat.ne_of_gt (Nat.div_pos (Nat.le_of_not_lt below) bounded))
  | succ fuel ih =>
      unfold firstGrid
      split
      · next n found =>
        exact Or.inl (Interval.nearestPoint_ne_zero (i.low_scale_pos positive _) found)
      · exact ih (by omega)

/-- Zeros are trimmed from digits that are not zero, and what is left is not zero either. -/
theorem Scientific.Whole.trim {s : Scientific} (h : s.Whole) : s.trim.Whole := by
  induction s using Scientific.trim.induct with
  | case1 s trailing ih =>
      rw [Scientific.trim, dif_pos trailing]
      exact ih (Or.inl (by dsimp only; omega))
  | case2 s done =>
      rw [Scientific.trim, dif_neg done]
      exact h

/-- The shortest digits of a double meet what every layout asks for. -/
theorem shortest_whole (tie : Tie) (d : Dyadic) : (shortest tie d).Whole := by
  unfold shortest
  split
  · exact Or.inr (Int.le_refl 0)
  · next some =>
    exact (firstGrid_whole (Interval.low_ofDyadic_pos some) (Interval.den_ofDyadic_pos d) tie 17
      (Nat.le_refl 1)).trim

/-! ### Layouts -/

/-- Padding consists of digits. -/
theorem isDigit_of_mem_zeros {n : Nat} : ∀ c ∈ List.replicate n '0', c.isDigit = true := by
  intro c hc
  rw [List.eq_of_mem_replicate hc]
  rfl

/-- Digits behind digits are digits. -/
theorem isDigit_of_mem_append {cs ds : List Char} (hc : ∀ c ∈ cs, c.isDigit = true)
    (hd : ∀ c ∈ ds, c.isDigit = true) : ∀ c ∈ cs ++ ds, c.isDigit = true :=
  fun c h => (List.mem_append.1 h).elim (hc c) (hd c)

/-- A positional spelling has zeros behind its digits, or a point among them, or zeros between the
point and them. Only the first could make a zero lead, and `Scientific.Whole` rules it out. -/
theorem isNumeral_positional {wholeFraction : List Char}
    (fraction : ∀ c ∈ wholeFraction, c.isDigit = true) {s : Scientific} (h : s.Whole) :
    (positional wholeFraction s).IsNumeral := by
  have leading (zero : (Nat.toDigits 10 s.digits).head? = some '0') : s.digits = 0 :=
    Decidable.byContradiction fun other => head?_toDigits_ne_zero other zero
  have nonempty : 0 < (Nat.toDigits 10 s.digits).length := Nat.length_toDigits_pos
  unfold positional
  dsimp only
  split
  · next natural =>
    refine ⟨by simp [Nat.toDigits_ne_nil],
      isDigit_of_mem_append isDigit_of_mem_toDigits isDigit_of_mem_zeros, ?_, fraction⟩
    -- A zero in front means that the number is zero, and then no zeros are written behind it.
    intro zero
    rw [List.head?_append,
      Option.or_of_isSome (List.isSome_head?.2 Nat.toDigits_ne_nil)] at zero
    have zero := leading zero
    have noZeros : s.exponent.toNat = 0 := by
      have := h.resolve_left (not_not_intro zero)
      omega
    simp [zero, noZeros]
  · next fractional =>
    have some : 0 < (-s.exponent).toNat := by omega
    generalize (-s.exponent).toNat = places at some
    have digits := isDigit_of_mem_append (isDigit_of_mem_zeros (n := places + 1 -
      (Nat.toDigits 10 s.digits).length)) (isDigit_of_mem_toDigits (n := s.digits))
    refine ⟨?_, fun c hc => digits c (List.mem_of_mem_take hc), ?_,
      fun c hc => digits c (List.mem_of_mem_drop hc)⟩
    · refine List.ne_nil_of_length_pos ?_
      simp only [List.length_take, List.length_append, List.length_replicate]
      omega
    · intro zero
      by_cases long : places < (Nat.toDigits 10 s.digits).length
      · -- The digits fill the places, so the first of them leads.
        have none : places + 1 - (Nat.toDigits 10 s.digits).length = 0 := by omega
        simp only [none, List.replicate_zero, List.nil_append] at zero
        rw [List.head?_take, if_neg (by omega)] at zero
        have single : (Nat.toDigits 10 s.digits).length = 1 := by
          rw [leading zero]
          rfl
        omega
      -- The whole part is a single digit then, and that may be a zero.
      · simp only [List.length_take, List.length_append, List.length_replicate]
        omega

/-- With a power of ten there is one digit before the point, so it may well be zero. -/
theorem isNumeral_withPower (s : Scientific) : (withPower s).IsNumeral := by
  have nonempty : 0 < (Nat.toDigits 10 s.digits).length := Nat.length_toDigits_pos
  have single : ((Nat.toDigits 10 s.digits).take 1).length = 1 := by
    rw [List.length_take]
    omega
  exact {
    whole_ne_nil := List.ne_nil_of_length_pos (by rw [withPower, single]; exact Nat.one_pos)
    whole_digits := fun c hc => isDigit_of_mem_toDigits c (List.mem_of_mem_take hc)
    zero_alone := fun _ => single
    fraction_digits := fun c hc => isDigit_of_mem_toDigits c (List.mem_of_mem_drop hc) }

/-- A layout spells every magnitude as a numeral. -/
theorem Layout.isNumeral_spell {l : Layout}
    (fraction : ∀ c ∈ l.wholeFraction, c.isDigit = true) (d : Dyadic) :
    (l.spell d).IsNumeral := by
  unfold spell
  dsimp only
  split
  · exact isNumeral_positional fraction (shortest_whole l.tie d)
  · exact isNumeral_withPower _

end Rollforward.Decimal
