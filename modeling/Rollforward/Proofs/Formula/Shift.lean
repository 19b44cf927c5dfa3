import Rollforward.Proofs.Decimal.Nearest
import Rollforward.Proofs.Formula.Alike
import Rollforward.Proofs.Formula.Print
import Rollforward.Proofs.Formula.References

/-!
# `Rollforward.Proofs.Formula.Shift`: which literals an offset takes

The literal of `X[t+d]` is rounded to a double before it is asked whether it is a natural number. So
the offsets are those literals that no double is nearer to than some natural number that is not too
large, and that number is the offset (`shift_reads_nearest`). A literal with a fraction can be among
them. It takes seven places behind the point, and for the largest offsets no more.

What a literal writes is said on its characters (`writtenBy`) and not on the numeral that the
tokenizer makes of it. `Spells.value_eq` is where the two meet. `WritesShift` says what a shift by
the literal looks like, and its tokens give the answers of the parser and of the scan
(`WritesShift.parse_eq`).
-/

set_option autoImplicit false

namespace Rollforward.Formula

open Decimal (IsNearest)
open Text (EndsRun endsRun_nil endsRun_cons)

/-! ### What a literal writes -/

/-- The digits of a literal behind its point. -/
def behindPoint (literal : List Char) : List Char := (literal.dropWhile (· != '.')).tail

/-- The number that a literal writes. -/
def writtenBy (literal : List Char) : ℚ :=
  Nat.ofDigitChars 10 (literal.takeWhile (· != '.')) 0 +
    Nat.ofDigitChars 10 (behindPoint literal) 0 / 10 ^ (behindPoint literal).length

/-- The numeral stands for the number that its literal writes, with as many places. -/
theorem Spells.value_eq {n : Decimal.Numeral} {word : List Char} (h : Spells (.numeral n) word) :
    n.value = writtenBy word ∧ n.places = (behindPoint word).length := by
  have digit {c : Char} (isDigit : c.isDigit = true) : (c != '.') = true := by
    rw [bne_iff_ne]
    rintro rfl
    cases isDigit
  cases h with
  | whole some all =>
      have ends : EndsRun (· != '.') [] := endsRun_nil
      have taken := ends.takeWhile_append fun c hc => digit (all c hc)
      have dropped := ends.dropWhile_append fun c hc => digit (all c hc)
      rw [List.append_nil] at taken dropped
      rw [Decimal.Numeral.value_ofParts, writtenBy, behindPoint, taken, dropped]
      exact ⟨rfl, rfl⟩
  | @pointed whole fraction some before behind =>
      have ends : EndsRun (· != '.') ('.' :: fraction) := endsRun_cons.2 (by decide)
      rw [Decimal.Numeral.value_ofParts, writtenBy, behindPoint,
        ends.takeWhile_append fun c hc => digit (before c hc),
        ends.dropWhile_append fun c hc => digit (before c hc)]
      exact ⟨rfl, rfl⟩
  | sign listed => simp [signs] at listed
  | doubled listed => simp [doubledSigns] at listed

/-- A text that is one numeral spells it. -/
theorem spells_of_tokenize {d : String} {n : Decimal.Numeral}
    (literal : tokenize d = .ok [⟨.numeral n, 0, d.toList⟩]) : Spells (.numeral n) d.toList :=
  ((laidOut_of_lexemes literal).exists_split List.mem_cons_self).1

/-- A numeral is taken as a magnitude when the double that it is read as is one: the exact value
only has to be nearest to it. -/
theorem magnitude?_numeral_eq_some_iff {n : Decimal.Numeral} {m : Nat} :
    magnitude? (.numeral n) = some m ↔ m ≤ largestOffset ∧ IsNearest m n.value := by
  rw [magnitude?_eq_some_iff]
  constructor
  · rintro ⟨_, ⟨⟩, whole, small⟩
    have short : m < 2 ^ 52 := Nat.lt_of_le_of_lt small (by decide)
    exact ⟨small, (Decimal.Numeral.toNat?_eq_some_iff short).1 whole⟩
  · rintro ⟨small, nearest⟩
    have short : m < 2 ^ 52 := Nat.lt_of_le_of_lt small (by decide)
    exact ⟨n, rfl, (Decimal.Numeral.toNat?_eq_some_iff short).2 nearest, small⟩

/-- The largest offsets are doubles of 31 bits, and 22 bits are left behind the point. -/
theorem abs_sub_le_of_isNearest {q : ℚ} (nonneg : 0 ≤ q) {m : Nat} (small : m ≤ largestOffset)
    (nearest : IsNearest m q) : |q - m| ≤ 2 ^ (-23 : Int) := by
  have bits : m < 2 ^ 31 := Nat.lt_of_le_of_lt small (by decide)
  exact nearest.abs_sub_le nonneg bits (by decide)

/-- Six places are too few for a number that is not natural to be taken for one. -/
theorem isNearest_iff_eq {n : Decimal.Numeral} {m : Nat} (small : m ≤ largestOffset)
    (exactly : n.places ≤ 6 ∨ ∃ k : Nat, n.value = k) : IsNearest m n.value ↔ n.value = m := by
  constructor
  · intro nearest
    obtain few | ⟨k, whole⟩ := exactly
    · have nonneg : 0 ≤ n.value := by
        rw [Decimal.Numeral.value]
        positivity
      refine Decimal.Numeral.value_eq_of_abs_sub_lt ?_
      calc |n.value - m| * 10 ^ n.places ≤ 2 ^ (-23 : Int) * 10 ^ 6 :=
            mul_le_mul (abs_sub_le_of_isNearest nonneg small nearest)
              (pow_le_pow_right₀ (by norm_num) few) (by positivity) (by positivity)
        _ < 1 := by norm_num
    · rw [whole] at nearest ⊢
      have short : m + 1 < 2 ^ 53 := Nat.lt_of_le_of_lt (Nat.succ_le_succ small) (by decide)
      rw [nearest.eq_of_natCast short]
  · intro same
    rw [same]
    exact .self _

/-! ### Shifts as they are written -/

/-- The number of periods that a sign and a magnitude make. -/
def UnaryOp.shift : UnaryOp → Nat → Int
  | .plus, m => m
  | .negate, m => -m

/-- The text is `code[t±d]`, with or without gaps between its tokens, and the literal `d` stands
behind `place` bytes. -/
inductive WritesShift (code : String) (sign : UnaryOp) (d formula : String) (place : Nat) :
    Prop where
  | intro {t : String} {before after : List Char} (isTime : IsTimeVariable t)
    (front : Loose [code.toList, ['['], t.toList, [sign.char]] before) (back : Loose [[']']] after)
    (text : formula.toList = before ++ (d.toList ++ after)) (behind : place = byteLength before)

/-- What stands in an offset behind the literal is read as the bracket. -/
theorem lexesBefore_end {after : List Char} (back : Loose [[']']] after) :
    LexesBefore [] after [.closeBracket] := by
  obtain ⟨_, _, isGap, ended, rfl⟩ := back.exists_of_cons
  exact .token isGap (.sign (by decide)) True.intro (.gap ended.isGap)

/-- Such a text has the tokens that it is written with. -/
theorem WritesShift.exists_tokenize {code d formula : String} {sign : UnaryOp} {place : Nat}
    (h : WritesShift code sign d formula place) (isName : IsName code.toList)
    {n : Decimal.Numeral} (spelt : Spells (.numeral n) d.toList) :
    ∃ t ts us, IsTimeVariable t ∧
      tokenize formula = .ok (ts ++ ⟨.numeral n, place, d.toList⟩ :: us) ∧
      ts.map Lexeme.token = [.name code, .openBracket, .name t, sign.token] ∧
      us.map Lexeme.token = [.closeBracket] := by
  obtain ⟨isTime, front, back, text, behind⟩ := h
  rename_i t before after
  have noColon : ':' ∉ d.toList ++ after := by
    simp [spelt.colon_not_mem_of_numeral, back.colon_not_mem (by decide)]
  have opening : LexesBefore (d.toList ++ after) before
      [.name code, .openBracket, .name t, sign.token] := by
    obtain ⟨_, rest, isGap, shifted, rfl⟩ := front.exists_of_cons
    have codeEnds : (Token.name code).EndsBefore (rest ++ (d.toList ++ after)) := by
      obtain ⟨_, _, isGap, _, rfl⟩ := shifted.exists_of_cons
      rw [List.append_assoc]
      exact (Token.endsBefore_openBracket code _).gap_append isGap
    exact .token isGap (spells_name isName) codeEnds (lexesBefore_literal isTime shifted noColon)
  have numeralEnds : (Token.numeral n).EndsBefore after := by
    obtain ⟨_, _, isGap, _, rfl⟩ := back.exists_of_cons
    exact Token.EndsBefore.gap_append isGap (endsRun_cons.2 (by decide))
  have nothing (start : Nat) : lexemes start [] = .ok [] := by rw [lexemes]
  obtain ⟨us, closed, closing⟩ := lexesBefore_end back _ [] (nothing _)
  rw [List.append_nil, List.append_nil] at closed
  obtain ⟨ts, read, tokens⟩ := opening 0 (⟨.numeral n, place, d.toList⟩ :: us) (by
    rw [lexemes_spelling spelt numeralEnds, Nat.zero_add, ← behind, closed]
    rfl)
  exact ⟨t, ts, us, isTime, by rw [tokenize, text, read], tokens, closing⟩

/-- A formula that begins with a name fails where the offset behind it does. -/
theorem parseLexemes_of_readOffset_error {stop : Nat} {code : String} {l : Lexeme}
    {ts : List Lexeme} {fault : SyntaxError} (named : l.token = .name code)
    (noCall : behind? .openParen ts = none) (bad : readOffset stop ts = .error fault) :
    parseLexemes stop (l :: ts) = .error fault := by
  have operand : reading (operand stop (l :: ts)) = .error fault := by
    rw [reading_operand]
    simp only [named, noCall, reading_readReference, bad]
  have power : reading (power stop (l :: ts)) = .error fault := by
    rw [reading_power, operand]
  have product : reading (product stop (l :: ts)) = .error fault := by
    rw [reading_product, power]
  have sum : reading (sum stop (l :: ts)) = .error fault := by
    rw [reading_sum, product]
  rw [parseLexemes_eq, reading_comparison, sum]
  rfl

/-- Such a text is a reference where the literal gives a magnitude. It is at fault there otherwise,
for the parser and for the scan. -/
theorem WritesShift.parse_eq {code d formula : String} {sign : UnaryOp} {place : Nat}
    (h : WritesShift code sign d formula place) (isName : IsName code.toList)
    {n : Decimal.Numeral} (spelt : Spells (.numeral n) d.toList) :
    (∀ m, magnitude? (.numeral n) = some m →
      parse formula = .ok (.reference ⟨none, code, sign.shift m⟩)) ∧
    (magnitude? (.numeral n) = none → parse formula = .error ⟨.badOffset, place⟩ ∧
      referencesOf formula = .error ⟨.badOffset, place⟩) := by
  obtain ⟨t, ts, us, isTime, read, front, back⟩ := h.exists_tokenize isName spelt
  constructor
  · intro m counted
    obtain ⟨_, ⟨⟩, whole, small⟩ := magnitude?_eq_some_iff.1 counted
    let form : OffsetForm := .shifted t isTime sign _ m whole small
    have value : form.value = sign.shift m := by cases sign <;> rfl
    rw [← value]
    refine parse_of_derivation read (Derivation.alone (.unqualified code form)) ?_
    simp [Derivation.tokens_alone, form, OffsetForm.tokens, front, back]
  · intro bad
    obtain ⟨start, spelling, ts, rfl, shifted⟩ := exists_lexeme front
    have failed (stop : Nat) : readOffset stop (ts ++ ⟨.numeral n, place, d.toList⟩ :: us) =
        .error ⟨.badOffset, place⟩ := readOffset_eq_badOffset isTime shifted bad
    have noCall : behind? .openParen (ts ++ ⟨.numeral n, place, d.toList⟩ :: us) = none := by
      rw [behind?_eq_none_iff]
      simp [shifted]
    rw [List.cons_append] at read
    constructor
    · rw [parse, read]
      exact parseLexemes_of_readOffset_error rfl noCall (failed _)
    · rw [referencesOf, read]
      simp only [scanReferences_unqualified noCall, scanBehindOffset, failed]

/-! ### The literals that are taken -/

/-- An offset takes just the literals that no double is nearer to than some natural number that is
not too large. That number is the offset, and any other literal is the place of the fault. The scan
for references takes the same literals for the same offsets.

Of a literal that writes a natural number, or that has no more than six places behind its point, the
natural number is the one that it writes. Of any other it is `2 ^ (-23)` away at most. -/
theorem shift_reads_nearest {code d formula : String} {sign : UnaryOp} {n : Decimal.Numeral}
    {place : Nat} (isName : IsName code.toList)
    (literal : tokenize d = .ok [⟨.numeral n, 0, d.toList⟩])
    (written : WritesShift code sign d formula place) :
    (∀ e, parse formula = .ok e ↔ ∃ m ≤ largestOffset, IsNearest m (writtenBy d.toList) ∧
      e = .reference ⟨none, code, sign.shift m⟩) ∧
    (∀ fault, parse formula = .error fault → fault = ⟨.badOffset, place⟩) ∧
    referencesOf formula = (parse formula).map Expr.references ∧
    ((behindPoint d.toList).length ≤ 6 ∨ (∃ k : Nat, writtenBy d.toList = k) →
      ∀ e, parse formula = .ok e ↔ ∃ m ≤ largestOffset, writtenBy d.toList = m ∧
        e = .reference ⟨none, code, sign.shift m⟩) ∧
    ∀ m ≤ largestOffset, IsNearest m (writtenBy d.toList) →
      |writtenBy d.toList - m| ≤ 2 ^ (-23 : Int) := by
  have spelt := spells_of_tokenize literal
  -- The numeral is what its text writes: nothing is lost before it is counted.
  obtain ⟨value, places⟩ := spelt.value_eq
  -- What the parser does depends on `magnitude?` alone, and so does the scan.
  obtain ⟨taken, refused⟩ := written.parse_eq isName spelt
  rw [← value, ← places]
  have accepts (e : Expr) : parse formula = .ok e ↔ ∃ m ≤ largestOffset, IsNearest m n.value ∧
      e = .reference ⟨none, code, sign.shift m⟩ := by
    constructor
    · intro parsed
      cases counted : magnitude? (.numeral n) with
      | none => cases parsed.symm.trans (refused counted).1
      | some m =>
          obtain ⟨small, nearest⟩ := magnitude?_numeral_eq_some_iff.1 counted
          exact ⟨m, small, nearest, Except.ok.inj (parsed.symm.trans (taken m counted))⟩
    · rintro ⟨m, small, nearest, rfl⟩
      exact taken m (magnitude?_numeral_eq_some_iff.2 ⟨small, nearest⟩)
  refine ⟨accepts, ?fault, ?scan, ?exactly, ?near⟩
  case fault =>
    intro fault failed
    cases counted : magnitude? (.numeral n) with
    | none => exact Except.error.inj (failed.symm.trans (refused counted).1)
    | some m => cases failed.symm.trans (taken m counted)
  case scan =>
    cases counted : magnitude? (.numeral n) with
    | none => rw [(refused counted).1, (refused counted).2]; rfl
    | some m => rw [referencesOf_of_parse (taken m counted), taken m counted]; rfl
  case exactly =>
    intro exactly e
    rw [accepts]
    refine exists_congr fun m => and_congr_right fun small => and_congr_left fun _ => ?_
    -- With so few places, what is nearest is what is written.
    exact isNearest_iff_eq small exactly
  case near =>
    intro m small nearest
    refine abs_sub_le_of_isNearest ?_ small nearest
    rw [Decimal.Numeral.value]
    positivity

/-- Gaps and zeros behind the point change nothing. -/
theorem shift_reads_nearest_apart :
    parse "X [ T - 12.000 ]" = .ok (.reference ⟨none, "X", -12⟩) ∧
      referencesOf "X [ T - 12.000 ]" = .ok [⟨none, "X", -12⟩] := by
  have literal : tokenize "12.000" = .ok [⟨.numeral ⟨12000, 3⟩, 0, "12.000".toList⟩] := by cbv
  have isName : IsName "X".toList := isName_singleton (by decide)
  have gap : IsGap [' '] := by decide
  have written : WritesShift "X" .negate "12.000" "X [ T - 12.000 ]" 8 :=
    .intro (.inr rfl) (.word .nil (.word gap (.word gap (.word gap (.gap gap)))))
      (.word gap (.gap .nil)) (by cbv) rfl
  have value : writtenBy "12.000".toList = (12 : Nat) := by
    rw [← (spells_of_tokenize literal).value_eq.1, Decimal.Numeral.value]
    norm_num
  have small : 12 ≤ largestOffset := by norm_num [largestOffset]
  obtain ⟨-, -, scan, exactly, -⟩ := shift_reads_nearest isName literal written
  have parsed := (exactly (.inr ⟨12, value⟩) _).2 ⟨12, small, value, rfl⟩
  exact ⟨parsed, by rw [scan, parsed]; rfl⟩

/-- With seven places a fraction is taken for the largest offset. -/
theorem shift_reads_nearest_seven_places :
    let d := "2147483646.9999999"
    let formula := "X[t+2147483646.9999999]"
    tokenize d = .ok [⟨.numeral ⟨21474836469999999, 7⟩, 0, d.toList⟩] ∧
      WritesShift "X" .plus d formula 4 ∧ (∀ k : Int, writtenBy d.toList ≠ k) ∧
      parse formula = .ok (.reference ⟨none, "X", 2147483647⟩) ∧
      referencesOf formula = .ok [⟨none, "X", 2147483647⟩] := by
  intro d formula
  have literal : tokenize d = .ok [⟨.numeral ⟨21474836469999999, 7⟩, 0, d.toList⟩] := by cbv
  have spelt := spells_of_tokenize literal
  have isName : IsName "X".toList := isName_singleton (by decide)
  have written : WritesShift "X" .plus d formula 4 :=
    .intro (.inl rfl) (.word .nil (.word .nil (.word .nil (.word .nil (.gap .nil)))))
      (.word .nil (.gap .nil)) (by cbv) rfl
  have fractional (k : Int) : writtenBy d.toList ≠ k := by
    rw [← spelt.value_eq.1, Decimal.Numeral.value, Ne, div_eq_iff (by positivity)]
    intro same
    have same : (21474836469999999 : Int) = k * 10 ^ 7 := by exact_mod_cast same
    omega
  have counted : magnitude? (.numeral ⟨21474836469999999, 7⟩) = some largestOffset := by
    decide +kernel
  have parsed := (written.parse_eq isName spelt).1 _ counted
  exact ⟨literal, written, fractional, parsed, referencesOf_of_parse parsed⟩

end Rollforward.Formula
