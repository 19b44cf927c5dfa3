import Rollforward.Proofs.Formula.Lookahead
import Rollforward.Proofs.Formula.Reading

/-!
# `Rollforward.Proofs.Formula.Viable`: what the parser has taken where it fails

Each category has a language, the rows that its derivations read. Each reader settles the language
of its category (`Settles`): where it fails, what it has taken begins a row of that language, and
no row that starts with the same tokens up to the one at which it fails is read.

The readers call on each other, so the last part is one block with the measure of
`Rollforward.Formula.Parser`. What a production adds is an inclusion: the languages of its parts,
one behind the other, lie in the language of the whole.
-/

set_option autoImplicit false

namespace Rollforward.Formula

variable {stop : Nat} {ts : List Lexeme}

/-! ### Offsets -/

/-- The ways to write an offset, as rows. -/
def offsets : Language Token := {row | ∃ form : OffsetForm, form.tokens = row}

/-- The magnitude of an offset and the closing bracket. -/
def magnitudes : Language Token :=
  {row | ∃ n m, n.toNat? = some m ∧ m ≤ largestOffset ∧ [.numeral n, .closeBracket] = row}

/-- The magnitude zero. -/
theorem zero_mem_magnitudes : [.numeral ⟨0, 0⟩, .closeBracket] ∈ magnitudes :=
  ⟨⟨0, 0⟩, 0, by decide +kernel, Nat.zero_le _, rfl⟩

/-- What follows the bracket and the time variable `t`. -/
abbrev shifts (t : String) : Language Token :=
  behindFirst (.name t) (behindFirst .openBracket offsets)

/-- An offset may be left out: every reference can end right behind its code. -/
theorem nil_mem_offsets : [] ∈ offsets := ⟨.omitted, rfl⟩

/-- The bracket can be closed behind the time variable. This row shows that a reader that got so far
can still succeed. -/
theorem closeBracket_mem_shifts {t : String} (isTime : IsTimeVariable t) :
    [.closeBracket] ∈ shifts t :=
  ⟨.now t isTime, rfl⟩

/-- A sign and a magnitude shift the time. -/
theorem singleton_mul_magnitudes_le {t : String} (isTime : IsTimeVariable t) (sign : UnaryOp) :
    {[sign.token]} * magnitudes ≤ shifts t := by
  rintro row ⟨front, rfl, rest, ⟨n, m, whole, small, rfl⟩, rfl⟩
  exact ⟨.shifted t isTime sign n m whole small, rfl⟩

/-- Behind a sign stand a number that is an integer in range and the closing bracket. A number out
of range is refused where it stands, not behind it, since no row of the language starts with it. -/
theorem settles_readMagnitude (sign : Int) :
    Settles stop magnitudes (readShift.readMagnitude stop sign) ts := by
  cases ts with
  | nil => exact .failing_nil .badOffset zero_mem_magnitudes rfl
  | cons number behind =>
      cases hm : magnitude? number.token with
      | none =>
          refine .failing_cons .badOffset zero_mem_magnitudes ?_
          intro us
          simp only [readShift.readMagnitude, hm]
      | some m =>
          obtain ⟨n, hn, whole, small⟩ := magnitude?_eq_some_iff.mp hm
          refine (Settles.expect .closeBracket .unclosedOffset (sign * m)).cons ?_ ?_
          · intro us
            simp only [readShift.readMagnitude, hm, Reader.expect]
            cases us with
            | nil => rfl
            | cons bracket rest =>
                obtain ⟨token, start, spelling⟩ := bracket
                cases token <;> rfl
          · rintro row ⟨front, rfl, rest, rfl, rfl⟩
            exact ⟨n, m, whole, small, by rw [hn]; rfl⟩

/-- Behind the time variable stands the closing bracket or a sign with its magnitude, and nothing
else can follow. -/
theorem settles_readShift {t : String} (isTime : IsTimeVariable t) :
    Settles stop (shifts t) (readShift stop) ts := by
  have nonempty := closeBracket_mem_shifts isTime
  cases ts with
  | nil => exact .failing_nil .unclosedOffset nonempty rfl
  | cons first behind =>
      obtain ⟨token, start, spelling⟩ := first
      cases token with
      | closeBracket =>
          refine (Settles.done 0).cons (fun _ => rfl) ?_
          rintro row ⟨front, rfl, rest, rfl, rfl⟩
          exact nonempty
      | plus =>
          exact (settles_readMagnitude 1).cons (fun _ => rfl)
            (singleton_mul_magnitudes_le isTime .plus)
      | minus =>
          exact (settles_readMagnitude (-1)).cons (fun _ => rfl)
            (singleton_mul_magnitudes_le isTime .negate)
      | _ => exact .failing_cons .unclosedOffset nonempty fun _ => rfl

/-- Behind the bracket stands the time variable. The reader is given the bracket together with the
row, as it looks at both at once. -/
theorem settles_behindBracket {bracket : Lexeme} (token : bracket.token = .openBracket) :
    Settles stop (behindFirst .openBracket offsets) (fun us => readOffset stop (bracket :: us))
      ts := by
  obtain ⟨_, start, spelling⟩ := bracket
  obtain rfl : _ = Token.openBracket := token
  -- Here `t` has to follow, and then the bracket can be closed.
  have nonempty : [.name "t", .closeBracket] ∈ behindFirst .openBracket offsets :=
    closeBracket_mem_shifts (.inl rfl)
  cases ts with
  | nil => exact .failing_nil .badTimeVariable nonempty rfl
  | cons time behind =>
      obtain ⟨token, start', spelling'⟩ := time
      cases token with
      | name t =>
          by_cases isTime : IsTimeVariable t
          · exact (settles_readShift isTime).cons (fun us => if_pos isTime)
              (singleton_mul_behindFirst_le _)
          · exact .failing_cons .badTimeVariable nonempty fun us => if_neg isTime
      | _ => exact .failing_cons .badTimeVariable nonempty fun _ => rfl

/-- The reader of offsets fails inside brackets only: in front of any other token the offset is left
out and nothing is taken. -/
theorem settles_readOffset : Settles stop offsets (readOffset stop) ts := by
  have omitted : (1 : Language Token) ≤ offsets := by
    rintro row rfl
    exact nil_mem_offsets
  cases ts with
  | nil =>
      refine ((Settles.done 0).mono omitted).look fun us same => ?_
      obtain rfl : us = [] := List.head?_eq_none_iff.mp same
      rfl
  | cons first behind =>
      by_cases token : first.token = .openBracket
      · refine (settles_behindBracket token).cons (fun _ => rfl) ?_
        rw [token]
        exact singleton_mul_behindFirst_le _
      -- Without a bracket there is no offset.
      · refine ((Settles.done 0).mono omitted).look fun us same => ?_
        obtain ⟨us, rfl⟩ := List.head?_eq_some_iff.mp same
        obtain ⟨t, start, spelling⟩ := first
        cases t <;> first | rfl | exact absurd rfl token

/-- A reference that has its code can go wrong in the offset and nowhere else. -/
theorem settles_readReference (source : Option Namespace) (code : String) :
    Settles stop offsets (fun us => reading (readReference stop source code us)) ts := by
  refine (settles_readOffset.map fun offset => .reference ⟨source, code, offset⟩).congr ?_
  intro us
  rw [reading_readReference, Reader.andThen]
  cases readOffset stop us <;> rfl

/-! ### The languages of the categories -/

/-- The rows that the derivations of a category read. -/
def Category.language (c : Category) : Language Token := {row | ∃ d : Derivation c, d.tokens = row}

open Category

/-- A sum, and at most one operator with a second sum behind it. -/
theorem mul_le_comparison :
    language .sum * (1 + operations .comparison * language .sum) ≤ language .comparison := by
  rintro row ⟨_, ⟨left, rfl⟩, _, rfl | ⟨_, ⟨op, loose, rfl⟩, _, ⟨right, rfl⟩, rfl⟩, rfl⟩
  · exact ⟨.uncompared left, (List.append_nil _).symm⟩
  · exact ⟨.compared op loose left right, rfl⟩

/-- A product and a tail. -/
theorem mul_le_sum : language .product * language .sumTail ≤ language .sum := by
  rintro row ⟨_, ⟨first, rfl⟩, _, ⟨rest, rfl⟩, rfl⟩
  exact ⟨.sum first rest, rfl⟩

/-- The tail of a sum may be empty, so a sum that is read so far is complete. -/
theorem nil_mem_sumTail : [] ∈ language .sumTail := ⟨.sumEnd, rfl⟩

/-- One round of the loop over sums, with the rounds that come after. -/
theorem add_le_sumTail :
    1 + operations .additive * (language .product * language .sumTail) ≤ language .sumTail := by
  rintro row (rfl | ⟨_, ⟨op, additive, rfl⟩, _, ⟨_, ⟨next, rfl⟩, _, ⟨rest, rfl⟩, rfl⟩, rfl⟩)
  · exact nil_mem_sumTail
  · exact ⟨.sumMore op additive next rest, rfl⟩

/-- A power and a tail. -/
theorem mul_le_product : language .power * language .productTail ≤ language .product := by
  rintro row ⟨_, ⟨first, rfl⟩, _, ⟨rest, rfl⟩, rfl⟩
  exact ⟨.product first rest, rfl⟩

/-- The tail of a product may be empty. -/
theorem nil_mem_productTail : [] ∈ language .productTail := ⟨.productEnd, rfl⟩

/-- One round of the loop over products, with the rounds that come after. -/
theorem add_le_productTail :
    1 + operations .multiplicative * (language .power * language .productTail) ≤
      language .productTail := by
  rintro row (rfl | ⟨_, ⟨op, multiplicative, rfl⟩, _, ⟨_, ⟨next, rfl⟩, _, ⟨rest, rfl⟩, rfl⟩, rfl⟩)
  · exact nil_mem_productTail
  · exact ⟨.productMore op multiplicative next rest, rfl⟩

/-- An operand, and at most one caret with another power behind it. -/
theorem mul_le_power :
    language .operand * (1 + {[.caret]} * language .power) ≤ language .power := by
  rintro row ⟨_, ⟨base, rfl⟩, _, rfl | ⟨_, rfl, _, ⟨exponent, rfl⟩, rfl⟩, rfl⟩
  · exact ⟨.unraised base, (List.append_nil _).symm⟩
  · exact ⟨.raised base exponent, rfl⟩

/-- A sign and an operand. -/
theorem signed_le_operand (op : UnaryOp) :
    {[op.token]} * language .operand ≤ language .operand := by
  rintro row ⟨_, rfl, _, ⟨operand, rfl⟩, rfl⟩
  exact ⟨.signed op operand, rfl⟩

/-- A text alone is an operand. Any operand would do to show that the language is not empty, and the
text "" is the one that is used. -/
theorem text_mem_operand (s : String) : [.text s] ∈ language .operand := ⟨.text s, rfl⟩

/-- A number alone is an operand. -/
theorem numeral_mem_operand (n : Decimal.Numeral) : [.numeral n] ∈ language .operand :=
  ⟨.numeral n, rfl⟩

/-- A comparison between parentheses. -/
theorem parenthesized_le_operand :
    {[.openParen]} * (language .comparison * {[.closeParen]}) ≤ language .operand := by
  rintro row ⟨_, rfl, _, ⟨_, ⟨inner, rfl⟩, _, rfl, rfl⟩, rfl⟩
  exact ⟨.parenthesized inner, rfl⟩

/-- Behind a prefix stand a code and an offset. The prefix itself is left out, as its reader has
taken it. -/
theorem qualified_le_operand (qualifier code : String) :
    {[.name code]} * offsets ≤ behindFirst (.qualifier qualifier) (language .operand) := by
  rintro row ⟨_, rfl, _, ⟨offset, rfl⟩, rfl⟩
  exact ⟨.qualified qualifier code offset, rfl⟩

/-- A name with an offset is a reference, one with arguments a call. -/
theorem named_le_operand (name : String) :
    {[.name name]} * (offsets + {[.openParen]} * (language .arguments * {[.closeParen]})) ≤
      language .operand := by
  rintro row ⟨_, rfl, _, ⟨offset, rfl⟩ | ⟨_, rfl, _, ⟨_, ⟨args, rfl⟩, _, rfl, rfl⟩, rfl⟩, rfl⟩
  · exact ⟨.unqualified name offset, rfl⟩
  · exact ⟨.call name args, rfl⟩

/-- The arguments of a call are read through the closing parenthesis. -/
theorem add_le_arguments :
    language .argumentList * {[.closeParen]} + {[.closeParen]} * 1 ≤
      language .arguments * {[.closeParen]} := by
  rintro row (⟨_, ⟨list, rfl⟩, _, rfl, rfl⟩ | ⟨_, rfl, _, rfl, rfl⟩)
  · exact ⟨_, ⟨.someArguments list, rfl⟩, _, rfl, rfl⟩
  · exact ⟨_, ⟨.noArguments, rfl⟩, _, rfl, rfl⟩

/-- One argument, and the closing parenthesis or a comma with the other arguments. The closing
parenthesis stands at the end of both sides: where it is missing, the fault shows in the list. -/
theorem mul_le_argumentList :
    language .comparison *
        ({[.closeParen]} + {[.comma]} * (language .argumentList * {[.closeParen]})) ≤
      language .argumentList * {[.closeParen]} := by
  rintro row ⟨_, ⟨first, rfl⟩, _, rfl | ⟨_, rfl, _, ⟨_, ⟨rest, rfl⟩, _, rfl, rfl⟩, rfl⟩, rfl⟩
  · exact ⟨_, ⟨.lastArgument first, rfl⟩, _, rfl, rfl⟩
  · exact ⟨_, ⟨.moreArguments first rest, rfl⟩, _, rfl, List.append_assoc _ _ _⟩

/-! ### The readers, put together -/

/-- The reader of comparisons from its parts. This equation and the ones below lead from the
equations of the parser, which split on results, to the few ways of putting readers together that
have a lemma in `Settles`. -/
theorem reading_comparison_eq_andThen : (fun us => reading (comparison stop us)) =
    Reader.andThen (fun us => reading (sum stop us)) fun left =>
      .ifOperator comparator?
        (fun op => Reader.andThen (fun us => reading (sum stop us)) fun right =>
          .done (.binary op left right))
        (.done left) := by
  funext us
  rw [reading_comparison, Reader.andThen]
  cases reading (sum stop us) with
  | error e => rfl
  | ok r =>
      simp only [Reader.ifOperator]
      cases operator? comparator? r.2 with
      | none => rfl
      | some found =>
          simp only [Reader.andThen]
          cases reading (sum stop found.2) <;> rfl

/-- The reader of sums: a product, then the loop. -/
theorem reading_sum_eq_andThen : (fun us => reading (sum stop us)) =
    Reader.andThen (fun us => reading (product stop us)) fun left us =>
      reading (sumFrom stop left us) := by
  funext us
  rw [reading_sum, Reader.andThen]
  cases reading (product stop us) <;> rfl

/-- One round of the loop over sums: with no additive operator in front it is over, and its result
is what was read before. -/
theorem reading_sumFrom_eq_ifOperator (left : Expr) :
    (fun us => reading (sumFrom stop left us)) =
      Reader.ifOperator additive?
        (fun op => Reader.andThen (fun us => reading (product stop us)) fun right us =>
          reading (sumFrom stop (.binary op left right) us))
        (.done left) := by
  funext us
  rw [reading_sumFrom, Reader.ifOperator]
  cases operator? additive? us with
  | none => rfl
  | some found =>
      simp only [Reader.andThen]
      cases reading (product stop found.2) <;> rfl

/-- The reader of products: a power, then the loop. -/
theorem reading_product_eq_andThen : (fun us => reading (product stop us)) =
    Reader.andThen (fun us => reading (power stop us)) fun left us =>
      reading (productFrom stop left us) := by
  funext us
  rw [reading_product, Reader.andThen]
  cases reading (power stop us) <;> rfl

/-- One round of the loop over products. -/
theorem reading_productFrom_eq_ifOperator (left : Expr) :
    (fun us => reading (productFrom stop left us)) =
      Reader.ifOperator multiplicative?
        (fun op => Reader.andThen (fun us => reading (power stop us)) fun right us =>
          reading (productFrom stop (.binary op left right) us))
        (.done left) := by
  funext us
  rw [reading_productFrom, Reader.ifOperator]
  cases operator? multiplicative? us with
  | none => rfl
  | some found =>
      simp only [Reader.andThen]
      cases reading (power stop found.2) <;> rfl

/-- The reader of powers: an operand, and behind a caret a power. -/
theorem reading_power_eq_andThen : (fun us => reading (power stop us)) =
    Reader.andThen (fun us => reading (operand stop us)) fun base =>
      .ifBehind .caret
        (Reader.andThen (fun us => reading (power stop us)) fun exponent =>
          .done (.binary .pow base exponent))
        (.done base) := by
  funext us
  rw [reading_power, Reader.andThen]
  cases reading (operand stop us) with
  | error e => rfl
  | ok r =>
      simp only [Reader.ifBehind]
      cases behind? .caret r.2 with
      | none => rfl
      | some behind =>
          simp only [Reader.andThen]
          cases reading (power stop behind) <;> rfl

/-- An operand behind a sign, for a first token that is known. -/
theorem reading_signed_eq_andThen (op : UnaryOp) (start : Nat) (spelling : List Char) :
    (fun us => reading (operand stop (⟨op.token, start, spelling⟩ :: us))) =
      Reader.andThen (fun us => reading (operand stop us)) fun e => .done (.unary op e) := by
  funext us
  rw [reading_operand, Reader.andThen]
  cases op <;> simp only [UnaryOp.token] <;> cases reading (operand stop us) <;> rfl

/-- A comparison behind an opening parenthesis, and the closing one. -/
theorem reading_parenthesized_eq_andThen (start : Nat) (spelling : List Char) :
    (fun us => reading (operand stop (⟨.openParen, start, spelling⟩ :: us))) =
      Reader.andThen (fun us => reading (comparison stop us)) fun e =>
        .expect stop .closeParen .unclosedParenthesis e := by
  funext us
  rw [reading_operand]
  simp only [Reader.andThen]
  cases reading (comparison stop us) with
  | error e => rfl
  | ok r =>
      cases closed : behind? .closeParen r.2 <;> simp only [Reader.expect, closed]

/-- Behind a name: the arguments of a call if there is a parenthesis, else the offset of a
reference. -/
theorem reading_named_eq_ifBehind (name : String) (start : Nat) (spelling : List Char) :
    (fun us => reading (operand stop (⟨.name name, start, spelling⟩ :: us))) =
      Reader.ifBehind .openParen
        (Reader.andThen (fun us => reading (arguments stop us)) fun args =>
          .done (.call name args))
        fun us => reading (readReference stop none name us) := by
  funext us
  rw [reading_operand]
  simp only [Reader.ifBehind]
  cases behind? .openParen us with
  | none => rfl
  | some inner =>
      simp only [Reader.andThen]
      cases reading (arguments stop inner) <;> rfl

/-- No arguments if the parenthesis is closed at once, else a list. -/
theorem reading_arguments_eq_ifBehind : (fun us => reading (arguments stop us)) =
    Reader.ifBehind .closeParen (.done []) fun us => reading (argumentList stop us) := by
  funext us
  rw [reading_arguments, Reader.ifBehind]
  cases behind? .closeParen us <;> rfl

/-- An argument, and behind a comma the others. -/
theorem reading_argumentList_eq_andThen : (fun us => reading (argumentList stop us)) =
    Reader.andThen (fun us => reading (comparison stop us)) fun e =>
      .ifBehind .comma
        (Reader.andThen (fun us => reading (argumentList stop us)) fun es => .done (e :: es))
        (.expect stop .closeParen .unclosedArguments [e]) := by
  funext us
  rw [reading_argumentList, Reader.andThen]
  cases reading (comparison stop us) with
  | error e => rfl
  | ok r =>
      simp only [Reader.ifBehind]
      cases behind? .comma r.2 with
      | some behind =>
          simp only [Reader.andThen]
          cases reading (argumentList stop behind) <;> rfl
      | none =>
          cases closed : behind? .closeParen r.2 <;> simp only [Reader.expect, closed]

/-! ### What the readers settle -/

/-- Behind a prefix a code must stand. The row of the prefix and any code shows that the prefix
alone begins an operand. -/
theorem settles_qualified (q : String) (start : Nat) (spelling : List Char) :
    Settles stop (behindFirst (.qualifier q) (language .operand))
      (fun us => reading (operand stop (⟨.qualifier q, start, spelling⟩ :: us))) ts := by
  have nonempty : [.name q] ∈ behindFirst (.qualifier q) (language .operand) :=
    ⟨.qualified q q .omitted, rfl⟩
  cases ts with
  | nil => exact .failing_nil (.missingCode q) nonempty (by rw [reading_operand])
  | cons code behind =>
      obtain ⟨token, start', spelling'⟩ := code
      cases token with
      | name code =>
          refine (settles_readReference (some (.ofName q)) code).cons ?_
            (qualified_le_operand q code)
          intro us
          rw [reading_operand]
      | _ =>
          refine .failing_cons (.missingCode q) nonempty ?_
          intro us
          rw [reading_operand]

/-- What is settled for an operand is settled with a sign before it. -/
theorem settles_signed (op : UnaryOp) (start : Nat) (spelling : List Char) {behind : List Lexeme}
    (h : Settles stop (language .operand) (fun us => reading (operand stop us)) behind) :
    Settles stop (language .operand) (fun us => reading (operand stop us))
      (⟨op.token, start, spelling⟩ :: behind) :=
  (h.map _).cons (congrFun (reading_signed_eq_andThen op start spelling)) (signed_le_operand op)

mutual

/-- The first sum may be all there is, which is why a comparison that ends behind it is complete. -/
theorem settles_comparison (ts : List Lexeme) :
    Settles stop (language .comparison) (fun us => reading (comparison stop us)) ts := by
  rw [reading_comparison_eq_andThen]
  refine ((settles_sum ts).andThen (.inl rfl) ?_).mono mul_le_comparison
  intro left after hleft
  have shorter := length_lt_of_reading hleft
  refine .ifOperator comparator?_eq_some_iff.mp left ?_
  intro op behind found
  have fewer := length_lt_of_operator? found
  exact (settles_sum behind).map _
termination_by 8 * ts.length + 5

/-- The loop behind the first product may end at once. -/
theorem settles_sum (ts : List Lexeme) :
    Settles stop (language .sum) (fun us => reading (sum stop us)) ts := by
  rw [reading_sum_eq_andThen]
  refine ((settles_product ts).andThen nil_mem_sumTail ?_).mono mul_le_sum
  intro left after hleft
  have shorter := length_lt_of_reading hleft
  exact settles_sumFrom left after
termination_by 8 * ts.length + 4

/-- The loop over sums, whose rounds get shorter rows. Its language does not depend on what was read
before. -/
theorem settles_sumFrom (left : Expr) (ts : List Lexeme) :
    Settles stop (language .sumTail) (fun us => reading (sumFrom stop left us)) ts := by
  rw [reading_sumFrom_eq_ifOperator]
  refine (Settles.ifOperator additive?_eq_some_iff.mp left ?_).mono add_le_sumTail
  intro op behind found
  have fewer := length_lt_of_operator? found
  refine (settles_product behind).andThen nil_mem_sumTail ?_
  intro right after hright
  have shorter := length_lt_of_reading hright
  exact settles_sumFrom (.binary op left right) after
termination_by 8 * ts.length + 4

/-- The loop behind the first power may end at once. -/
theorem settles_product (ts : List Lexeme) :
    Settles stop (language .product) (fun us => reading (product stop us)) ts := by
  rw [reading_product_eq_andThen]
  refine ((settles_power ts).andThen nil_mem_productTail ?_).mono mul_le_product
  intro left after hleft
  have shorter := length_lt_of_reading hleft
  exact settles_productFrom left after
termination_by 8 * ts.length + 3

/-- The loop over products. -/
theorem settles_productFrom (left : Expr) (ts : List Lexeme) :
    Settles stop (language .productTail) (fun us => reading (productFrom stop left us)) ts := by
  rw [reading_productFrom_eq_ifOperator]
  refine (Settles.ifOperator multiplicative?_eq_some_iff.mp left ?_).mono add_le_productTail
  intro op behind found
  have fewer := length_lt_of_operator? found
  refine (settles_power behind).andThen nil_mem_productTail ?_
  intro right after hright
  have shorter := length_lt_of_reading hright
  exact settles_productFrom (.binary op left right) after
termination_by 8 * ts.length + 3

/-- Behind a caret there must be a power, and without one the operand is complete. -/
theorem settles_power (ts : List Lexeme) :
    Settles stop (language .power) (fun us => reading (power stop us)) ts := by
  rw [reading_power_eq_andThen]
  refine ((settles_operand ts).andThen (.inl rfl) ?_).mono mul_le_power
  intro base after hbase
  have shorter := length_lt_of_reading hbase
  refine .ifBehind (fun _ => .done base) ?_
  intro behind found
  have fewer := length_lt_of_behind? found
  exact (settles_power behind).map _
termination_by 8 * ts.length + 2

/-- The reader decides by the first token: one that begins no operand is where it fails, and each of
the others leaves a smaller language for the row behind. -/
theorem settles_operand (ts : List Lexeme) :
    Settles stop (language .operand) (fun us => reading (operand stop us)) ts := by
  have nonempty := text_mem_operand ""
  cases ts with
  | nil => exact .failing_nil .unexpectedEnd nonempty (by rw [reading_operand])
  | cons first behind =>
      obtain ⟨token, start, spelling⟩ := first
      cases token with
      | minus => exact settles_signed .negate start spelling (settles_operand behind)
      | plus => exact settles_signed .plus start spelling (settles_operand behind)
      | numeral n =>
          refine (Settles.done (.number n.toFloat)).cons (fun us => ?_) ?_
          · rw [reading_operand]
            rfl
          · rw [mul_one]
            rintro row rfl
            exact numeral_mem_operand n
      | text s =>
          refine (Settles.done (.text s)).cons (fun us => ?_) ?_
          · rw [reading_operand]
            rfl
          · rw [mul_one]
            rintro row rfl
            exact text_mem_operand s
      | openParen =>
          refine ((settles_comparison behind).andThen (Set.mem_singleton [.closeParen]) ?_).cons
            (congrFun (reading_parenthesized_eq_andThen start spelling)) parenthesized_le_operand
          intro e after _
          exact .expect .closeParen .unclosedParenthesis e
      | qualifier q =>
          exact (settles_qualified q start spelling).cons (fun _ => rfl)
            (singleton_mul_behindFirst_le _)
      | name name =>
          -- After a name both productions are still possible, until the next token is seen.
          refine (Settles.ifBehind (fun _ => settles_readReference none name) ?_).cons
            (congrFun (reading_named_eq_ifBehind name start spelling)) (named_le_operand name)
          intro inner opened
          have fewer := length_lt_of_behind? opened
          exact (settles_arguments inner).map _
      | _ =>
          refine .failing_cons .unexpectedToken nonempty ?_
          intro us
          rw [reading_operand]
termination_by 8 * ts.length + 1

/-- The arguments of a call, with the closing parenthesis. -/
theorem settles_arguments (ts : List Lexeme) :
    Settles stop (language .arguments * {[.closeParen]})
      (fun us => reading (arguments stop us)) ts := by
  rw [reading_arguments_eq_ifBehind]
  refine Settles.mono ?_ add_le_arguments
  exact .ifBehind (fun _ => settles_argumentList ts) fun _ => .done []
termination_by 8 * ts.length + 7

/-- Behind an argument that is read the list can go on, so the row up to there begins a list
whichever way the reader fails next. -/
theorem settles_argumentList (ts : List Lexeme) :
    Settles stop (language .argumentList * {[.closeParen]})
      (fun us => reading (argumentList stop us)) ts := by
  rw [reading_argumentList_eq_andThen]
  refine ((settles_comparison ts).andThen (.inl rfl) ?_).mono mul_le_argumentList
  intro e after hfirst
  have shorter := length_lt_of_reading hfirst
  refine .ifBehind (fun _ => .expect .closeParen .unclosedArguments [e]) ?_
  intro behind found
  have fewer := length_lt_of_behind? found
  exact (settles_argumentList behind).map _
termination_by 8 * ts.length + 6

end

end Rollforward.Formula
