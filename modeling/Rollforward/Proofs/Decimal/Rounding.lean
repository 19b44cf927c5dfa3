import Rollforward.Decimal.Numeral
import Rollforward.Proofs.Decimal.Finite

/-!
# `Rollforward.Proofs.Decimal.Rounding`: from where on the nearest double is infinite

The largest double is `(2 ^ 53 - 1) * 2 ^ 971`, and the next one would be `2 ^ 1024`. What is nearer
to the largest double is rounded to it; the half-way point goes to the even neighbour, which is the
one that does not exist. So a ratio is rounded to infinity from `overflow` on
(`nearestRank_eq_infinityRank_iff`).

* `lastBit_bounds`: rounding keeps 53 bits from the leading one on, fewer only in the lowest binade.
* `roundHalfEven_carries_iff`: it carries into the next binade when half a unit or less is missing.
* `exists_roundsTo`: how the rank of the nearest double comes from the two.
-/

set_option autoImplicit false

namespace Rollforward.Decimal

/-- The computed power is the power that lemmas are about. -/
theorem power_eq (base n : Nat) : power base n = base ^ n := rfl

/-- The least number that is rounded to infinity: half-way between the largest double and the power
of two behind it. -/
def overflow : Nat := (power 2 54 - 1) * power 2 970

/-! ### The place of the last bit -/

/-- The leading bit of a positive natural number. -/
theorem log2_bounds {n : Nat} (h : 0 < n) :
    (2 : ℚ) ^ (n.log2 : Int) ≤ n ∧ (n : ℚ) < 2 ^ ((n.log2 : Int) + 1) := by
  constructor
  · have lower : 2 ^ n.log2 ≤ n := Nat.log2_self_le (Nat.ne_of_gt h)
    exact_mod_cast lower
  · have upper : n < 2 ^ (n.log2 + 1) := Nat.lt_log2_self
    exact_mod_cast upper

/-- A ratio as one of natural numbers, in units of the bit `e`. -/
def inUnits (num den : Nat) (e : Int) : Nat × Nat :=
  if 0 ≤ e then (num, den * power 2 e.toNat) else (num * power 2 (-e).toNat, den)

/-- Counting in other units keeps the denominator positive. -/
theorem inUnits_snd_pos (num : Nat) {den : Nat} (hd : 0 < den) (e : Int) :
    0 < (inUnits num den e).2 := by
  unfold inUnits
  split
  · exact Nat.mul_pos hd (Nat.two_pow_pos _)
  · exact hd

/-- The ratio is the same number, in units of `2 ^ e`. -/
theorem inUnits_ratio {num den : Nat} (e : Int) :
    ((inUnits num den e).1 : ℚ) / (inUnits num den e).2 = num / den / 2 ^ e := by
  unfold inUnits
  split
  · next h =>
    obtain ⟨k, rfl⟩ := Int.eq_ofNat_of_zero_le h
    rw [Int.toNat_natCast, power_eq, zpow_natCast, Nat.cast_mul, Nat.cast_pow, Nat.cast_ofNat,
      div_div]
  · next h =>
    obtain ⟨k, hk⟩ := Int.eq_ofNat_of_zero_le (show 0 ≤ -e by omega)
    obtain rfl : e = -k := by omega
    rw [neg_neg, Int.toNat_natCast, power_eq, zpow_neg, zpow_natCast, Nat.cast_mul, Nat.cast_pow,
      Nat.cast_ofNat, div_inv_eq_mul, div_mul_eq_mul_div]

/-- A multiple of the unit is reached by the ratio of natural numbers where the ratio reaches it. -/
theorem inUnits_le_iff {num den : Nat} (hd : 0 < den) (e : Int) (k : Nat) :
    k * (inUnits num den e).2 ≤ (inUnits num den e).1 ↔ (k : ℚ) * 2 ^ e ≤ num / den := by
  have unit : (0 : ℚ) < 2 ^ e := by positivity
  have below : (0 : ℚ) < (inUnits num den e).2 := by exact_mod_cast inUnits_snd_pos _ hd e
  rw [← le_div_iff₀ unit, ← inUnits_ratio, le_div_iff₀ below]
  exact_mod_cast Iff.rfl

/-- What is less than 53 bits long in units of a bit. -/
theorem inUnits_lt {num den : Nat} (hd : 0 < den) {e : Int}
    (h : (num : ℚ) / den < 2 ^ (e + 53)) :
    (inUnits num den e).1 < 2 ^ 53 * (inUnits num den e).2 := by
  rw [zpow_add₀ two_ne_zero, mul_comm] at h
  rw [← not_le, inUnits_le_iff hd, not_le]
  exact_mod_cast h

/-- The last bit of a ratio is 52 places behind its leading bit, unless it is the last bit of
all. -/
theorem lastBit_bounds {num den : Nat} (hn : 0 < num) (hd : 0 < den) :
    -1074 ≤ lastBit num den ∧ (num : ℚ) / den < 2 ^ (lastBit num den + 53) ∧
      (lastBit num den = -1074 ∨ (2 : ℚ) ^ (lastBit num den + 52) ≤ num / den) := by
  obtain ⟨numLow, numHigh⟩ := log2_bounds hn
  obtain ⟨denLow, denHigh⟩ := log2_bounds hd
  have denPos : (0 : ℚ) < den := by exact_mod_cast hd
  obtain ⟨lead, hlead⟩ : ∃ lead : Int, lead = num.log2 - den.log2 := ⟨_, rfl⟩
  -- The leading bit of the ratio is `lead` or the one below it.
  have low : (2 : ℚ) ^ (lead - 1) ≤ num / den := by
    rw [le_div_iff₀ denPos]
    calc (2 : ℚ) ^ (lead - 1) * den
        ≤ 2 ^ (lead - 1) * 2 ^ ((den.log2 : Int) + 1) := by gcongr
      _ = 2 ^ (num.log2 : Int) := by rw [← zpow_add₀ two_ne_zero, hlead]; congr 1; ring
      _ ≤ num := numLow
  have high : (num : ℚ) / den < 2 ^ (lead + 1) := by
    rw [div_lt_iff₀ denPos]
    calc (num : ℚ) < 2 ^ ((num.log2 : Int) + 1) := numHigh
      _ = 2 ^ (lead + 1) * 2 ^ (den.log2 : Int) := by
          rw [← zpow_add₀ two_ne_zero, hlead]; congr 1; ring
      _ ≤ 2 ^ (lead + 1) * den := by gcongr
  have reached_iff : (if 0 ≤ lead then den * power 2 lead.toNat ≤ num
      else den ≤ num * power 2 (-lead).toNat) ↔ (2 : ℚ) ^ lead ≤ num / den := by
    rw [← one_mul ((2 : ℚ) ^ lead), ← Nat.cast_one, ← inUnits_le_iff hd, inUnits, one_mul]
    split <;> exact Iff.rfl
  have found : ∃ e : Int, lastBit num den = max e (-1074) ∧
      (2 : ℚ) ^ (e + 52) ≤ num / den ∧ (num : ℚ) / den < 2 ^ (e + 53) := by
    unfold lastBit
    dsimp only
    rw [← hlead]
    simp only [reached_iff]
    split
    · next reached =>
      exact ⟨lead - 52, rfl, by rwa [show lead - 52 + 52 = lead by ring],
        by rwa [show lead - 52 + 53 = lead + 1 by ring]⟩
    · next below =>
      exact ⟨lead - 53, rfl, by rwa [show lead - 53 + 52 = lead - 1 by ring],
        by rw [show lead - 53 + 53 = lead by ring]; exact not_le.1 below⟩
  obtain ⟨e, last, lower, upper⟩ := found
  rw [last]
  refine ⟨le_max_right _ _, upper.trans_le ?_, ?_⟩
  · exact zpow_le_zpow_right₀ one_le_two (by have := le_max_left e (-1074); omega)
  · cases max_choice e (-1074) with
    | inl unbounded => exact Or.inr (by rwa [unbounded])
    | inr bounded => exact Or.inl bounded

/-! ### Rounding to a significand -/

/-- A ratio below `2 ^ 53` is rounded to `2 ^ 53` at most, and one from `2 ^ 52` on to no less. -/
theorem roundHalfEven_bounds {num den : Nat} (hd : 0 < den) (h : num < 2 ^ 53 * den) :
    roundHalfEven num den ≤ 2 ^ 53 ∧ (2 ^ 52 * den ≤ num → 2 ^ 52 ≤ roundHalfEven num den) := by
  have high : num / den < 2 ^ 53 := (Nat.div_lt_iff_lt_mul hd).2 h
  have low : 2 ^ 52 * den ≤ num → 2 ^ 52 ≤ num / den := (Nat.le_div_iff_mul_le hd).2
  unfold roundHalfEven
  grind

/-- A ratio below `2 ^ 53` is rounded to it where half of one is missing at most. -/
theorem roundHalfEven_carries_iff {num den : Nat} (hd : 0 < den) (h : num < 2 ^ 53 * den) :
    roundHalfEven num den = 2 ^ 53 ↔ 2 ^ 54 * den ≤ 2 * num + den := by
  have high : num / den < 2 ^ 53 := (Nat.div_lt_iff_lt_mul hd).2 h
  have parts : den * (num / den) + num % den = num := Nat.div_add_mod num den
  have rest : num % den < den := Nat.mod_lt num hd
  cases Nat.lt_or_ge (num / den) (2 ^ 53 - 1) with
  | inl small =>
      -- The significand does not carry even when it is rounded up.
      have less : den * (num / den) ≤ den * (2 ^ 53 - 2) := Nat.mul_le_mul_left den (by omega)
      have noCarry : roundHalfEven num den < 2 ^ 53 := by
        unfold roundHalfEven
        grind
      constructor
      · intro carried
        exact absurd carried (Nat.ne_of_lt noCarry)
      · intro reached
        omega
  | inr last =>
      have last : num / den = 2 ^ 53 - 1 := by omega
      rw [last] at parts
      unfold roundHalfEven
      rw [last]
      grind

/-- Rounding carries out of a binade where half a unit or less is missing to the next. -/
theorem roundHalfEven_inUnits_iff {num den : Nat} (hd : 0 < den) {e : Int}
    (h : (num : ℚ) / den < 2 ^ (e + 53)) :
    roundHalfEven (inUnits num den e).1 (inUnits num den e).2 = 2 ^ 53 ↔
      (2 ^ 54 - 1) * (2 : ℚ) ^ (e - 1) ≤ num / den := by
  have unit : (0 : ℚ) < 2 ^ e := by positivity
  have denPos := inUnits_snd_pos num hd e
  have below : (0 : ℚ) < (inUnits num den e).2 := by exact_mod_cast denPos
  have half : (2 : ℚ) ^ (e - 1) = 2 ^ e / 2 := zpow_sub_one₀ two_ne_zero e
  rw [roundHalfEven_carries_iff denPos (inUnits_lt hd h), half]
  calc 2 ^ 54 * (inUnits num den e).2 ≤ 2 * (inUnits num den e).1 + (inUnits num den e).2
      ↔ 2 ^ 54 * ((inUnits num den e).2 : ℚ) ≤
          2 * (inUnits num den e).1 + (inUnits num den e).2 := by exact_mod_cast Iff.rfl
    _ ↔ (2 ^ 54 - 1) / 2 * ((inUnits num den e).2 : ℚ) ≤ (inUnits num den e).1 := by
        constructor <;> intro h <;> linarith
    _ ↔ (2 ^ 54 - 1) / 2 ≤ ((inUnits num den e).1 : ℚ) / (inUnits num den e).2 :=
        (le_div_iff₀ below).symm
    _ ↔ (2 ^ 54 - 1) * ((2 : ℚ) ^ e / 2) ≤ num / den := by
        rw [inUnits_ratio, le_div_iff₀ unit, mul_div_assoc', div_mul_eq_mul_div]

/-! ### The nearest double -/

/-- `q` is rounded to `s` units of the bit `e`: to 53 bits, or fewer in the lowest binade, or to
the number that begins the next binade. -/
structure RoundsTo (q : ℚ) (e : Int) (s : Nat) : Prop where
  lowest : -1074 ≤ e
  upper : q < 2 ^ (e + 53)
  lower : e = -1074 ∨ 2 ^ (e + 52) ≤ q ∧ 2 ^ 52 ≤ s
  most : s ≤ 2 ^ 53
  carries : s = 2 ^ 53 ↔ (2 ^ 54 - 1) * 2 ^ (e - 1) ≤ q

/-- The rank of the nearest double, by the rounding of the ratio in units of its last bit. -/
theorem nearestRank_eq {num : Nat} (hn : 0 < num) (den : Nat) :
    nearestRank num den = min ((lastBit num den + 1074).toNat * 2 ^ 52 +
      roundHalfEven (inUnits num den (lastBit num den)).1 (inUnits num den (lastBit num den)).2)
        infinityRank := by
  unfold nearestRank
  rw [if_neg (Nat.ne_of_gt hn), inUnits]
  dsimp only
  split <;> rfl

/-- The rank of the nearest double, but for the largest rank that there is, is that of its binade
and of its place in it. -/
theorem exists_roundsTo {num den : Nat} (hn : 0 < num) (hd : 0 < den) :
    ∃ e s, RoundsTo (num / den) e s ∧
      nearestRank num den = min ((e + 1074).toNat * 2 ^ 52 + s) infinityRank := by
  obtain ⟨lowest, upper, lower⟩ := lastBit_bounds hn hd
  obtain ⟨most, least⟩ := roundHalfEven_bounds (inUnits_snd_pos _ hd _) (inUnits_lt hd upper)
  refine ⟨lastBit num den, _, ⟨lowest, upper, ?_, most, roundHalfEven_inUnits_iff hd upper⟩,
    nearestRank_eq hn den⟩
  cases lower with
  | inl bounded => exact Or.inl bounded
  | inr lower =>
      refine Or.inr ⟨lower, least ?_⟩
      rw [inUnits_le_iff hd]
      rw [zpow_add₀ two_ne_zero, mul_comm] at lower
      exact_mod_cast lower

/-- The ranks from infinity on are those of numbers from `overflow` on. -/
theorem RoundsTo.infinityRank_le_iff {q : ℚ} {e : Int} {s : Nat} (h : RoundsTo q e s) :
    infinityRank ≤ (e + 1074).toNat * 2 ^ 52 + s ↔ (2 ^ 54 - 1) * 2 ^ (970 : Int) ≤ q := by
  have most := h.most
  rw [infinityRank]
  rcases lt_trichotomy e 971 with before | last | behind
  · -- Even a carry leads to the last binade at most.
    have finite : ¬(2 ^ 54 - 1) * (2 : ℚ) ^ (970 : Int) ≤ q := by
      refine not_le.2 (h.upper.trans_le ?_)
      calc (2 : ℚ) ^ (e + 53) ≤ 2 ^ (53 + 970 : Int) :=
            zpow_le_zpow_right₀ one_le_two (by omega)
        _ = 2 ^ 53 * 2 ^ (970 : Int) := by rw [zpow_add₀ two_ne_zero, zpow_ofNat 2 53]
        _ ≤ (2 ^ 54 - 1) * 2 ^ (970 : Int) :=
            mul_le_mul_of_nonneg_right (by norm_num) (by positivity)
    simp only [finite, iff_false]
    omega
  · -- In the last binade it depends on the carry.
    obtain ⟨-, least⟩ := h.lower.resolve_left (by omega)
    have carries := h.carries
    rw [last, show (971 : Int) - 1 = 970 from rfl] at carries
    rw [← carries]
    omega
  · -- What lies behind the last binade is rounded to no less than its beginning.
    obtain ⟨lower, least⟩ := h.lower.resolve_left (by omega)
    have infinite : (2 ^ 54 - 1) * (2 : ℚ) ^ (970 : Int) ≤ q := by
      refine le_trans ?_ lower
      calc (2 ^ 54 - 1) * (2 : ℚ) ^ (970 : Int) ≤ 2 ^ 54 * 2 ^ (970 : Int) :=
            mul_le_mul_of_nonneg_right (by norm_num) (by positivity)
        _ = 2 ^ (54 + 970 : Int) := by rw [zpow_add₀ two_ne_zero, zpow_ofNat 2 54]
        _ ≤ 2 ^ (e + 52) := zpow_le_zpow_right₀ one_le_two (by omega)
    simp only [infinite, iff_true]
    omega

/-- No rank is above that of infinity. -/
theorem nearestRank_le (num den : Nat) : nearestRank num den ≤ infinityRank := by
  unfold nearestRank
  split
  · exact Nat.zero_le _
  · exact Nat.min_le_right _ _

/-- A ratio is rounded to infinity from `overflow` on. -/
theorem nearestRank_eq_infinityRank_iff {num den : Nat} (hd : 0 < den) :
    nearestRank num den = infinityRank ↔ overflow * den ≤ num := by
  cases Nat.eq_zero_or_pos num with
  | inl zero =>
      have positive : 0 < overflow * den := Nat.mul_pos (by decide +kernel) hd
      have rank : nearestRank num den = 0 := if_pos zero
      rw [rank, zero]
      exact iff_of_false (by decide) (Nat.not_le.2 positive)
  | inr hn =>
      have denPos : (0 : ℚ) < den := by exact_mod_cast hd
      have bound : (overflow : ℚ) = (2 ^ 54 - 1) * 2 ^ (970 : Int) := by
        rw [overflow, power_eq, power_eq, Nat.cast_mul, Nat.cast_pow, zpow_ofNat 2 970]
        norm_num
      obtain ⟨e, s, rounds, rank⟩ := exists_roundsTo hn hd
      rw [rank, min_eq_right_iff, rounds.infinityRank_le_iff, le_div_iff₀ denPos, ← bound]
      exact_mod_cast Iff.rfl

/-- The nearest double to a ratio is finite below `overflow`. -/
theorem isFinite_nearest_iff {num den : Nat} (hd : 0 < den) :
    (nearest num den).isFinite = true ↔ num < overflow * den := by
  have bounded := nearestRank_le num den
  rw [nearest, isFinite_ofRank_iff bounded, bounded.lt_iff_ne, ne_eq,
    nearestRank_eq_infinityRank_iff hd, not_le]

/-- A numeral is a finite number below `overflow`. -/
theorem Numeral.isFinite_toFloat_iff (n : Numeral) :
    n.toFloat.isFinite = true ↔ n.digits < overflow * 10 ^ n.places :=
  isFinite_nearest_iff (Nat.pow_pos (by decide))

end Rollforward.Decimal
