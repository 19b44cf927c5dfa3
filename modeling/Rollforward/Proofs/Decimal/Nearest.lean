import Rollforward.Proofs.Decimal.Rounding

/-!
# `Rollforward.Proofs.Decimal.Nearest`: the nearest double, and the numbers that are counted

`nearestRank` rounds in units of the last bit. Other doubles may be finer than that, but those lie
below the binade of the number, and the beginning of the binade is nearer. So no double at all is
nearer than the one of that rank (`NearestUnits.isNearest`), and one that is as near is an odd
number of units away from zero (`NearestUnits.tie`).

A natural number below `2 ^ 52` is an even number of units wherever the units are finer than one. So
it wins every tie, and a numeral counts it just where no double is nearer
(`Numeral.toNat?_eq_some_iff`). What is counted need not be the number that the numeral writes: it
may be half a unit away (`IsNearest.abs_sub_le`). A numeral with few enough digits behind its point
cannot come that near without being the number (`Numeral.value_eq_of_abs_sub_lt`).
-/

set_option autoImplicit false

namespace Rollforward.Decimal

/-! ### The nearest natural number -/

/-- What is rounded is less than a half away. Or it is just a half away, and the result is even. -/
theorem abs_sub_roundHalfEven (num : Nat) {den : Nat} (hd : 0 < den) :
    |(num : ℚ) / den - roundHalfEven num den| < 1 / 2 ∨
      |(num : ℚ) / den - roundHalfEven num den| = 1 / 2 ∧ Even (roundHalfEven num den) := by
  have denPos : (0 : ℚ) < den := by exact_mod_cast hd
  obtain ⟨q, hq⟩ : ∃ q, q = num / den := ⟨_, rfl⟩
  obtain ⟨r, hr⟩ : ∃ r, r = num % den := ⟨_, rfl⟩
  -- With `q` and `r` as variables the goals are linear, and the quotient is not unfolded again.
  have parts : (num : ℚ) / den = q + r / den := by
    rw [div_eq_iff denPos.ne', add_mul, div_mul_cancel₀ _ denPos.ne', hq, hr]
    exact_mod_cast (Nat.div_add_mod' num den).symm
  have nonneg : (0 : ℚ) ≤ r / den := by positivity
  have rest : (r : ℚ) / den < 1 := by
    rw [div_lt_one denPos]
    exact_mod_cast hr ▸ Nat.mod_lt num hd
  rw [parts]
  unfold roundHalfEven
  dsimp only
  rw [← hq, ← hr]
  split
  · next below =>
    have below : (2 * r : ℚ) < den := by exact_mod_cast below
    have small : (r : ℚ) / den < 1 / 2 := by
      rw [div_lt_iff₀ denPos]
      linarith
    rw [add_sub_cancel_left, abs_of_nonneg nonneg]
    exact Or.inl small
  split
  · next above =>
    have above : (den : ℚ) < 2 * r := by exact_mod_cast above
    have large : 1 / 2 < (r : ℚ) / den := by
      rw [lt_div_iff₀ denPos]
      linarith
    left
    rw [abs_lt]
    push_cast
    constructor <;> linarith
  -- On a tie the rest is a half, and adding it or not depends on the parity of `q` alone.
  · have tie : 2 * r = den := by omega
    have half : (r : ℚ) / den = 1 / 2 := by
      rw [div_eq_iff denPos.ne', ← tie]
      push_cast
      ring
    right
    rw [half]
    cases Nat.even_or_odd q with
    | inl even =>
        rw [Nat.even_iff.1 even, Nat.add_zero, add_sub_cancel_left, abs_of_pos one_half_pos]
        exact ⟨rfl, even⟩
    | inr odd =>
        have up : (q : ℚ) + 1 / 2 - (q + 1 : Nat) = -(1 / 2) := by
          push_cast
          ring
        rw [Nat.odd_iff.1 odd, up, abs_neg, abs_of_pos one_half_pos]
        exact ⟨rfl, odd.add_one⟩

/-- No natural number is nearer than the rounded one, and only an odd one can be as near. -/
theorem roundHalfEven_nearest (num : Nat) {den : Nat} (hd : 0 < den) (j : Nat) :
    |(num : ℚ) / den - roundHalfEven num den| ≤ |(num : ℚ) / den - j| ∧
      (|(num : ℚ) / den - j| ≤ |(num : ℚ) / den - roundHalfEven num den| →
        j = roundHalfEven num den ∨ Odd j) := by
  have rounded := abs_sub_roundHalfEven num hd
  generalize roundHalfEven num den = s at rounded
  generalize (num : ℚ) / den = x at rounded
  by_cases same : j = s
  · rw [same]
    exact ⟨le_rfl, fun _ => Or.inl rfl⟩
  have apart : (1 : ℚ) ≤ |(j : ℚ) - s| := by
    have apart : (1 : Int) ≤ |(j : Int) - s| := Int.one_le_abs (by omega)
    exact_mod_cast apart
  have triangle : |(j : ℚ) - s| ≤ |x - j| + |x - s| := by
    rw [abs_sub_comm x j]
    exact abs_sub_le _ _ _
  obtain near | ⟨half, even⟩ := rounded
  · constructor
    · linarith
    · intro reached
      linarith
  · refine ⟨by linarith, fun reached => Or.inr ?_⟩
    -- The two are a half away on either side, so they are neighbours.
    have one : |(j : ℚ) - s| = 1 := le_antisymm (by linarith) apart
    have one : |(j : Int) - s| = 1 := by exact_mod_cast one
    obtain ⟨k, rfl⟩ := even
    rw [Nat.odd_iff]
    cases abs_cases ((j : Int) - (k + k : Nat)) <;> omega

/-! ### The numbers that are doubles -/

namespace Dyadic

/-- The number that a double stands for. -/
def value (d : Dyadic) : ℚ := d.significand * 2 ^ d.exponent

/-- A double is taken as a natural number when it is one. -/
theorem toNat?_eq_some_iff {d : Dyadic} {m : Nat} : d.toNat? = some m ↔ d.value = m := by
  obtain ⟨s, e⟩ := d
  unfold toNat? ratio value
  dsimp only
  split
  · next nonneg =>
    obtain ⟨k, rfl⟩ := Int.eq_ofNat_of_zero_le nonneg
    simp only [Int.toNat_natCast, power_eq, Nat.mod_one, if_true, Nat.div_one, Option.some.injEq,
      zpow_natCast]
    exact_mod_cast Iff.rfl
  · next negative =>
    obtain ⟨k, hk⟩ := Int.eq_ofNat_of_zero_le (show 0 ≤ -e by omega)
    obtain rfl : e = -k := by omega
    have unit : (0 : ℚ) < 2 ^ k := by positivity
    simp only [neg_neg, Int.toNat_natCast, power_eq, zpow_neg, zpow_natCast,
      Option.ite_none_right_eq_some, Option.some.injEq]
    rw [mul_inv_eq_iff_eq_mul₀ unit.ne']
    constructor
    · rintro ⟨whole, rfl⟩
      exact_mod_cast (Nat.div_mul_cancel (Nat.dvd_of_mod_eq_zero whole)).symm
    · intro same
      have same : s = m * 2 ^ k := by exact_mod_cast same
      rw [same]
      exact ⟨Nat.mul_mod_left _ _, Nat.mul_div_cancel m (Nat.two_pow_pos k)⟩

/-- Every rank is that of a double in the range of the format. -/
theorem ofRank_bounds (rank : Nat) :
    (ofRank rank).significand < 2 ^ 53 ∧ -1074 ≤ (ofRank rank).exponent := by
  unfold ofRank
  dsimp only
  rw [power_eq]
  split
  · exact ⟨by dsimp only; omega, Int.le_refl _⟩
  · exact ⟨by dsimp only; omega, by dsimp only; omega⟩

/-- A row of 53 bits in units of `2 ^ e`, by its rank. -/
theorem ofRank_significand {binade s : Nat} (least : 2 ^ 52 ≤ s) (most : s < 2 ^ 53) :
    ofRank (binade * 2 ^ 52 + s) = ⟨s, (binade : Int) - 1074⟩ := by
  have quotient : (binade * 2 ^ 52 + s) / power 2 52 = binade + 1 := by
    rw [power_eq]
    omega
  have rest : (binade * 2 ^ 52 + s) % power 2 52 + power 2 52 = s := by
    rw [power_eq]
    omega
  unfold ofRank
  rw [quotient, rest]
  simp only [Nat.succ_ne_zero, if_false, Dyadic.mk.injEq, true_and]
  omega

/-- The number of a rank, in units of its binade. A carry leads to the same number as the rank does
in the next binade. -/
theorem value_ofRank {binade s : Nat} (least : binade = 0 ∨ 2 ^ 52 ≤ s) (most : s ≤ 2 ^ 53) :
    (ofRank (binade * 2 ^ 52 + s)).value = s * 2 ^ ((binade : Int) - 1074) := by
  by_cases low : s < 2 ^ 52
  · -- Only the lowest binade has so few units.
    obtain rfl := least.resolve_right (by omega)
    have lowest : s / power 2 52 = 0 := by
      rw [power_eq]
      omega
    rw [Nat.zero_mul, Nat.zero_add, ofRank, lowest]
    rfl
  cases Nat.lt_or_eq_of_le most with
  | inl short => rw [ofRank_significand (by omega) short, value]
  | inr carried =>
      have rank : binade * 2 ^ 52 + s = (binade + 1) * 2 ^ 52 + 2 ^ 52 := by omega
      have next : ((binade + 1 : Nat) : Int) - 1074 = (binade - 1074 : Int) + 1 := by omega
      rw [rank, ofRank_significand (Nat.le_refl _) (by decide), value, carried]
      dsimp only
      rw [next, zpow_add_one₀ two_ne_zero]
      push_cast
      ring

/-- A double is a whole number of units, or it lies below the binade that has these units. -/
theorem exists_units (rank : Nat) (e : Int) :
    (∃ j : Nat, (ofRank rank).value = j * 2 ^ e) ∨
      -1074 < e ∧ (ofRank rank).value < 2 ^ (e + 52) := by
  obtain ⟨short, lowest⟩ := ofRank_bounds rank
  generalize ofRank rank = d at short lowest
  obtain ⟨s, e'⟩ := d
  unfold value
  dsimp only at short lowest ⊢
  cases lt_or_ge e' e with
  | inl finer =>
      refine Or.inr ⟨by omega, ?_⟩
      calc (s : ℚ) * 2 ^ e' < 2 ^ 53 * 2 ^ e' :=
            mul_lt_mul_of_pos_right (by exact_mod_cast short) (by positivity)
        _ = 2 ^ (e' + 53) := by rw [zpow_add₀ two_ne_zero, mul_comm, zpow_ofNat 2 53]
        _ ≤ 2 ^ (e + 52) := zpow_le_zpow_right₀ one_le_two (by omega)
  | inr coarser =>
      obtain ⟨k, rfl⟩ := Int.le.dest coarser
      refine Or.inl ⟨s * 2 ^ k, ?_⟩
      rw [zpow_add₀ two_ne_zero, zpow_natCast]
      push_cast
      ring

/-- A positive number of at most 53 bits, moved to the left until it has 53. -/
theorem exists_shift {k : Nat} (pos : 0 < k) (short : k < 2 ^ 53) :
    ∃ shift ≤ 52, 2 ^ 52 ≤ k * 2 ^ shift ∧ k * 2 ^ shift < 2 ^ 53 := by
  have low : 2 ^ k.log2 ≤ k := Nat.log2_self_le (Nat.ne_of_gt pos)
  have high : k < 2 ^ (k.log2 + 1) := Nat.lt_log2_self
  have bits : k.log2 ≤ 52 := by
    by_contra long
    have : 2 ^ 53 ≤ 2 ^ k.log2 := Nat.pow_le_pow_right (by decide) (by omega)
    omega
  obtain ⟨shift, split⟩ := Nat.exists_eq_add_of_le bits
  refine ⟨shift, by omega, ?_, ?_⟩
  · rw [split, Nat.pow_add]
    exact Nat.mul_le_mul_right _ low
  · have whole : 53 = k.log2 + 1 + shift := by omega
    rw [whole, Nat.pow_add]
    exact Nat.mul_lt_mul_of_pos_right high (Nat.two_pow_pos shift)

/-- Any 53 bits in units that are not too fine are a double. -/
theorem exists_rank {k : Nat} (short : k < 2 ^ 53) {e : Int} (least : -1022 ≤ e) (most : e ≤ 0) :
    ∃ rank < infinityRank, (ofRank rank).value = k * 2 ^ e := by
  cases Nat.eq_zero_or_pos k with
  | inl zero =>
      refine ⟨0, by decide, ?_⟩
      rw [zero]
      simp [ofRank, value, power_eq]
  | inr pos =>
      obtain ⟨shift, bits, low, high⟩ := exists_shift pos short
      have binade : (((e - shift + 1074).toNat : Nat) : Int) - 1074 = e - shift := by omega
      refine ⟨(e - shift + 1074).toNat * 2 ^ 52 + k * 2 ^ shift, ?_, ?_⟩
      · rw [infinityRank]
        omega
      · rw [value_ofRank (Or.inr low) (Nat.le_of_lt high), binade, zpow_sub₀ two_ne_zero,
          zpow_natCast]
        push_cast
        field_simp

/-- A natural number of at most 53 bits is a double. -/
theorem exists_rank_natCast {m : Nat} (short : m < 2 ^ 53) :
    ∃ rank < infinityRank, (ofRank rank).value = m := by
  obtain ⟨rank, finite, value⟩ := exists_rank short (e := 0) (by decide) (Int.le_refl 0)
  exact ⟨rank, finite, by rw [value, zpow_zero, mul_one]⟩

end Dyadic

/-! ### The nearest double -/

/-- No double is nearer to `q` than `x`. -/
def IsNearest (x q : ℚ) : Prop :=
  ∀ rank < infinityRank, |q - x| ≤ |q - (Dyadic.ofRank rank).value|

/-- No number of units is nearer to `q` than `s`, and only an odd one can be as near. The units are
those of the binade of `q`. -/
structure NearestUnits (q : ℚ) (e : Int) (s : Nat) : Prop where
  lower : e = -1074 ∨ 2 ^ 52 * 2 ^ e ≤ q
  nearest : ∀ j : Nat, |q - s * 2 ^ e| ≤ |q - j * 2 ^ e|
  tie : ∀ j : Nat, |q - j * 2 ^ e| ≤ |q - s * 2 ^ e| → j = s ∨ Odd j

/-- The nearest number of units, from the nearest natural number to what they count. -/
theorem nearestUnits_of_nearest {q : ℚ} {e : Int} {s : Nat} (lower : e = -1074 ∨ 2 ^ 52 * 2 ^ e ≤ q)
    (nearest : ∀ j : Nat, |q / 2 ^ e - s| ≤ |q / 2 ^ e - j| ∧
      (|q / 2 ^ e - j| ≤ |q / 2 ^ e - s| → j = s ∨ Odd j)) : NearestUnits q e s := by
  have unit : (0 : ℚ) < 2 ^ e := by positivity
  have scale (j : Nat) : |q - j * 2 ^ e| = |q / 2 ^ e - j| * 2 ^ e := by
    rw [← abs_of_pos unit, ← abs_mul, abs_of_pos unit, sub_mul, div_mul_cancel₀ _ unit.ne']
  refine ⟨lower, fun j => ?_, fun j near => ?_⟩
  · rw [scale, scale]
    exact mul_le_mul_of_nonneg_right (nearest j).1 unit.le
  · rw [scale, scale] at near
    exact (nearest j).2 (le_of_mul_le_mul_right near unit)

/-- A finite double that a ratio is rounded to is the nearest number of units. -/
theorem exists_nearestUnits {num den : Nat} (hd : 0 < den)
    (finite : nearestRank num den < infinityRank) :
    ∃ e s, NearestUnits (num / den) e s ∧
      (Dyadic.ofRank (nearestRank num den)).value = s * 2 ^ e := by
  cases Nat.eq_zero_or_pos num with
  | inl zero =>
      -- Zero has no last bit, so it is counted in the smallest units there are.
      have rank : nearestRank num den = 0 := if_pos zero
      refine ⟨-1074, 0, nearestUnits_of_nearest (Or.inl rfl) fun j => ?_, ?_⟩
      · rw [zero, Nat.cast_zero, zero_div, zero_div, sub_zero, abs_zero, zero_sub, abs_neg]
        refine ⟨abs_nonneg _, fun none => Or.inl ?_⟩
        exact_mod_cast abs_nonpos_iff.1 none
      · rw [rank]
        simp [Dyadic.ofRank, Dyadic.value, power_eq]
  | inr hn =>
      obtain ⟨lowest, upper, lower⟩ := lastBit_bounds hn hd
      have rank := nearestRank_eq hn den
      generalize lastBit num den = e at lowest upper lower rank
      obtain ⟨most, least⟩ := roundHalfEven_bounds (inUnits_snd_pos num hd e) (inUnits_lt hd upper)
      -- The ratio is rounded when it is counted in units, and the nearest count is the nearest
      -- number.
      have nearest := roundHalfEven_nearest (inUnits num den e).1 (inUnits_snd_pos num hd e)
      rw [inUnits_ratio] at nearest
      generalize roundHalfEven (inUnits num den e).1 (inUnits num den e).2 = s
        at most least nearest rank
      rw [zpow_add₀ two_ne_zero, mul_comm, zpow_ofNat 2 52] at lower
      refine ⟨e, s, nearestUnits_of_nearest lower nearest, ?_⟩
      rw [rank] at finite ⊢
      have binade : (((e + 1074).toNat : Nat) : Int) - 1074 = e := by omega
      rw [min_eq_left (by omega), Dyadic.value_ofRank ?_ most, binade]
      refine lower.imp (fun bounded => by omega) fun reached => least ?_
      rw [inUnits_le_iff hd]
      exact_mod_cast reached

namespace NearestUnits

variable {q : ℚ} {e : Int} {s : Nat}

/-- What lies below the binade is farther away, since the beginning of the binade is not. -/
theorem lt_of_below (h : NearestUnits q e s) (least : -1074 < e) {x : ℚ}
    (below : x < 2 ^ (e + 52)) : |q - s * 2 ^ e| < |q - x| := by
  have lower := h.lower.resolve_left (by omega)
  have first := h.nearest (2 ^ 52)
  rw [zpow_add₀ two_ne_zero, mul_comm, zpow_ofNat 2 52] at below
  rw [Nat.cast_pow, Nat.cast_ofNat, abs_of_nonneg (sub_nonneg.2 lower)] at first
  calc |q - s * 2 ^ e| ≤ q - 2 ^ 52 * 2 ^ e := first
    _ < q - x := by linarith
    _ ≤ |q - x| := le_abs_self _

/-- Then no double is nearer at all. -/
theorem isNearest (h : NearestUnits q e s) : IsNearest (s * 2 ^ e) q := by
  intro rank _
  obtain ⟨j, units⟩ | ⟨least, below⟩ := Dyadic.exists_units rank e
  · rw [units]
    exact h.nearest j
  · exact (h.lt_of_below least below).le

/-- A natural number that is a double wins all ties where the units are finer than one. -/
theorem eq_of_abs_sub_le (h : NearestUnits q e s) (fine : e < 0) {m rank : Nat}
    (double : (Dyadic.ofRank rank).value = m) (near : |q - m| ≤ |q - s * 2 ^ e|) :
    (m : ℚ) = s * 2 ^ e := by
  obtain ⟨j, units⟩ | ⟨least, below⟩ := Dyadic.exists_units rank e
  · rw [← double, units] at near
    obtain rfl | odd := h.tie j near
    · rw [← double, units]
    · -- There are two units or more in one, so the number is an even number of units.
      obtain ⟨k, hk⟩ := Int.eq_ofNat_of_zero_le (show 0 ≤ -e - 1 by omega)
      obtain rfl : e = -((k + 1 : Nat) : Int) := by omega
      have unit : (0 : ℚ) < 2 ^ (k + 1) := by positivity
      rw [double, zpow_neg, zpow_natCast, eq_mul_inv_iff_mul_eq₀ unit.ne'] at units
      have even : m * 2 ^ (k + 1) = j := by exact_mod_cast units
      rw [← even, pow_succ, ← mul_assoc] at odd
      exact absurd (even_two.mul_left _) (Nat.not_even_iff_odd.2 odd)
  · rw [double] at below
    exact absurd near (not_le.2 (h.lt_of_below least below))

end NearestUnits

namespace IsNearest

variable {q : ℚ} {m : Nat}

/-- Nothing is nearer to a number than the number itself. -/
theorem self (x : ℚ) : IsNearest x x := by
  intro rank _
  rw [sub_self, abs_zero]
  exact abs_nonneg _

/-- The natural number behind the nearest one is a double too, and it is not reached. -/
theorem lt_succ (h : IsNearest m q) (short : m + 1 < 2 ^ 53) : q < m + 1 := by
  obtain ⟨rank, finite, value⟩ := Dyadic.exists_rank_natCast short
  have near := h rank finite
  rw [value] at near
  push_cast at near
  by_contra reached
  rw [abs_of_nonneg (by linarith), abs_of_nonneg (by linarith)] at near
  linarith

/-- A natural number is nearest to itself only. -/
theorem eq_of_natCast {k : Nat} (h : IsNearest m k) (short : m + 1 < 2 ^ 53) : k = m := by
  have below : k < m + 1 := by exact_mod_cast h.lt_succ short
  obtain ⟨rank, finite, value⟩ := Dyadic.exists_rank_natCast (Nat.lt_trans below short)
  have near := h rank finite
  rw [value, sub_self, abs_zero] at near
  exact_mod_cast sub_eq_zero.1 (abs_nonpos_iff.1 near)

/-- A natural number of `b` bits has doubles on both sides at a distance of `2 ^ (b - 53)`. So it is
nearest only to what is at most half of that away. -/
theorem abs_sub_le (h : IsNearest m q) (nonneg : 0 ≤ q) {b : Nat} (bits : m < 2 ^ b)
    (few : b ≤ 52) : |q - m| ≤ 2 ^ ((b : Int) - 54) := by
  obtain ⟨w, width⟩ := Nat.exists_eq_add_of_le (Nat.le_succ_of_le few)
  have whole : m * 2 ^ w + 2 ≤ 2 ^ 53 := by
    have two : 2 ^ 1 ≤ 2 ^ w := Nat.pow_le_pow_right Nat.two_pos (by omega)
    calc m * 2 ^ w + 2 ≤ (m + 1) * 2 ^ w := by rw [Nat.add_mul, Nat.one_mul]; omega
      _ ≤ 2 ^ b * 2 ^ w := Nat.mul_le_mul_right _ bits
      _ = 2 ^ 53 := by rw [← Nat.pow_add, ← width]
  obtain ⟨u, hu⟩ : ∃ u : ℚ, u = 2 ^ (-(w : Int)) := ⟨_, rfl⟩
  have unit : 0 < u := hu ▸ by positivity
  have one : 2 ^ w * u = 1 := by
    rw [hu, zpow_neg, zpow_natCast, mul_inv_cancel₀ (by positivity)]
  have half : (2 : ℚ) ^ ((b : Int) - 54) = u / 2 := by
    have exponent : (b : Int) - 54 = -w - 1 := by omega
    rw [exponent, zpow_sub_one₀ two_ne_zero, hu, div_eq_mul_inv]
  -- One unit ahead and one unit back there are doubles too.
  have near {k : Nat} (short : k < 2 ^ 53) : |q - m| ≤ |q - k * u| := by
    obtain ⟨rank, finite, value⟩ := Dyadic.exists_rank short (e := -w) (by omega) (by omega)
    have near := h rank finite
    rwa [value, ← hu] at near
  rw [half, abs_le]
  constructor
  · by_contra far
    have some : 0 < m := by
      by_contra none
      rw [Nat.eq_zero_of_not_pos none, Nat.cast_zero] at far
      linarith
    have near := near (k := m * 2 ^ w - 1) (by omega)
    rw [Nat.cast_sub (Nat.mul_pos some (Nat.two_pow_pos w))] at near
    push_cast at near
    rw [sub_mul, mul_assoc, one, mul_one, one_mul, abs_of_nonpos (by linarith)] at near
    cases abs_cases (q - (m - u)) <;> linarith
  · by_contra far
    have near := near (k := m * 2 ^ w + 1) (by omega)
    push_cast at near
    rw [add_mul, mul_assoc, one, mul_one, one_mul, abs_of_nonneg (by linarith)] at near
    cases abs_cases (q - (m + u)) <;> linarith

end IsNearest

/-! ### Numerals -/

namespace Numeral

variable {n : Numeral} {m : Nat}

/-- The exact number that a numeral stands for. -/
def value (n : Numeral) : ℚ := n.digits / 10 ^ n.places

/-- What stands in front of the point is counted in ones, and what stands behind it in units of the
last place. -/
theorem value_ofParts (whole fraction : List Char) :
    (ofParts whole fraction).value = Nat.ofDigitChars 10 whole 0 +
      Nat.ofDigitChars 10 fraction 0 / 10 ^ fraction.length := by
  have digits : (ofParts whole fraction).digits =
      10 ^ fraction.length * Nat.ofDigitChars 10 whole 0 + Nat.ofDigitChars 10 fraction 0 :=
    Nat.ofDigitChars_eq_ofDigitChars_zero
  rw [value, digits]
  dsimp only [ofParts]
  push_cast
  rw [add_div, mul_div_cancel_left₀ _ (by positivity)]

/-- A numeral counts a natural number just where no double is nearer to what it stands for. -/
theorem toNat?_eq_some_iff (short : m < 2 ^ 52) : n.toNat? = some m ↔ IsNearest m n.value := by
  have den : 0 < power 10 n.places := Nat.pow_pos (by decide)
  have ratio : n.value = n.digits / (power 10 n.places : Nat) := by
    rw [value, power_eq, Nat.cast_pow, Nat.cast_ofNat]
  rw [ratio, toNat?, Option.ite_none_right_eq_some, Dyadic.toNat?_eq_some_iff]
  constructor
  · rintro ⟨finite, double⟩
    obtain ⟨e, s, units, value⟩ := exists_nearestUnits den finite
    rw [← double, rank, value]
    exact units.isNearest
  · intro nearest
    have below := nearest.lt_succ (by omega)
    have finite : n.rank < infinityRank := by
      refine Nat.lt_of_le_of_ne (nearestRank_le _ _) fun infinite => ?_
      have large := (nearestRank_eq_infinityRank_iff den).1 infinite
      have denPos : (0 : ℚ) < (power 10 n.places : Nat) := by exact_mod_cast den
      rw [div_lt_iff₀ denPos] at below
      have below : n.digits < (m + 1) * power 10 n.places := by exact_mod_cast below
      have least : m + 1 ≤ overflow := Nat.le_trans short (show 2 ^ 52 ≤ overflow by decide +kernel)
      have bound := Nat.mul_le_mul_right (power 10 n.places) least
      omega
    obtain ⟨e, s, units, value⟩ := exists_nearestUnits den finite
    -- In a binade with coarser units the number would not be below `2 ^ 52`.
    have fine : e < 0 := by
      by_contra coarse
      have lower := units.lower.resolve_left (by omega)
      have unit : (1 : ℚ) ≤ 2 ^ e := one_le_zpow₀ one_le_two (by omega)
      have bound : (m : ℚ) + 1 ≤ 2 ^ 52 := by exact_mod_cast short
      linarith
    obtain ⟨rank, -, double⟩ := Dyadic.exists_rank_natCast (m := m) (by omega)
    refine ⟨finite, value.trans (units.eq_of_abs_sub_le fine double ?_).symm⟩
    rw [← value]
    exact nearest _ finite

/-- The digits of a natural number are a numeral that counts it. -/
theorem toNat?_whole (short : m < 2 ^ 52) : toNat? ⟨m, 0⟩ = some m := by
  have value : value ⟨m, 0⟩ = m := by simp [value]
  rw [toNat?_eq_some_iff short, value]
  exact .self _

/-- A numeral that is less than one in its last digit away from a natural number is that number. -/
theorem value_eq_of_abs_sub_lt (near : |n.value - m| * 10 ^ n.places < 1) : n.value = m := by
  have unit : (0 : ℚ) < 10 ^ n.places := by positivity
  have scale : |(n.digits : ℚ) - m * 10 ^ n.places| = |n.value - m| * 10 ^ n.places := by
    rw [← abs_of_pos unit, ← abs_mul, abs_of_pos unit, sub_mul, value, div_mul_cancel₀ _ unit.ne']
  rw [← scale] at near
  have near : |(n.digits : Int) - m * 10 ^ n.places| < 1 := by exact_mod_cast near
  have same : (n.digits : Int) = m * 10 ^ n.places := sub_eq_zero.1 (Int.abs_lt_one_iff.1 near)
  rw [value, div_eq_iff unit.ne']
  exact_mod_cast same

end Numeral

end Rollforward.Decimal
