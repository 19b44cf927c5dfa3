import Rollforward.Proofs.Formula.Offset
import Rollforward.Proofs.Formula.Reading

/-!
# `Rollforward.Proofs.Formula.Soundness`: what the parser reads has a derivation

Each reader stands for a category. Where a reader succeeds, some derivation of its category reads
the tokens that the reader took and builds what the reader returned.

The statements call on each other as the readers do, so the proof is one block. Its measure is that
of the readers: eight times the number of tokens, plus the place of the category in the grammar.
-/

set_option autoImplicit false

namespace Rollforward.Formula

/-- The derivation reads the tokens that stand in `ts` before `rest`. -/
abbrev Derivation.Spans {c : Category} (d : Derivation c) (ts rest : List Lexeme) : Prop :=
  ts.map Lexeme.token = d.tokens ++ rest.map Lexeme.token

variable {stop : Nat}

/-- A code that is read as a reference is followed by one of the ways to write an offset. The
derivations of a qualified and of an unqualified reference end in this offset. -/
theorem exists_reference {source : Option Namespace} {code : String} {ts rest : List Lexeme}
    {e : Expr} (h : reading (readReference stop source code ts) = .ok (e, rest)) :
    ∃ form : OffsetForm, .reference ⟨source, code, form.value⟩ = e ∧
      ts.map Lexeme.token = form.tokens ++ rest.map Lexeme.token := by
  rw [reading_readReference] at h
  split at h
  · exact nomatch h
  · next offset behind hoffset =>
      obtain ⟨form, rfl, hform⟩ := exists_offsetForm hoffset
      obtain ⟨rfl, rfl⟩ : _ = e ∧ behind = rest := by simpa using h
      exact ⟨form, rfl, hform⟩

/-! ### Operands

What is read behind the first token of an operand. Each lemma takes what the reader behind that
token is known to do as a hypothesis, so that the block below only has to say which reader it is.
-/

/-- A sign is read in front of an operand, so signs pile up: the derivation of the operand may begin
with another. -/
theorem exists_signed (op : UnaryOp) {behind rest : List Lexeme} {e : Expr}
    (h : (match reading (operand stop behind) with
      | .error fault => .error fault
      | .ok (inner, after) => .ok (.unary op inner, after)) = Except.ok (e, rest))
    (ih : ∀ {inner after}, reading (operand stop behind) = .ok (inner, after) →
      ∃ d : Derivation .operand, d.value = inner ∧ d.Spans behind after) :
    ∃ d : Derivation .operand, d.value = e ∧
      op.token :: behind.map Lexeme.token = d.tokens ++ rest.map Lexeme.token := by
  split at h
  · exact nomatch h
  · next inner after hinner =>
      obtain ⟨d, rfl, hd⟩ := ih hinner
      obtain ⟨rfl, rfl⟩ : _ = e ∧ after = rest := by simpa using h
      refine ⟨.signed op d, rfl, ?_⟩
      rw [hd]
      rfl

/-- Parentheses take a whole comparison back to the place of an operand. -/
theorem exists_parenthesized {behind rest : List Lexeme} {e : Expr}
    (h : (match reading (comparison stop behind) with
      | .error fault => .error fault
      | .ok (inner, after) =>
        match behind? .closeParen after with
        | none => .error ⟨.unclosedParenthesis, here stop after⟩
        | some final => .ok (inner, final)) = Except.ok (e, rest))
    (ih : ∀ {inner after}, reading (comparison stop behind) = .ok (inner, after) →
      ∃ d : Derivation .comparison, d.value = inner ∧ d.Spans behind after) :
    ∃ d : Derivation .operand, d.value = e ∧
      .openParen :: behind.map Lexeme.token = d.tokens ++ rest.map Lexeme.token := by
  split at h
  · exact nomatch h
  · next inner after hinner =>
      obtain ⟨d, rfl, hd⟩ := ih hinner
      split at h
      · exact nomatch h
      · next final closed =>
          obtain ⟨l, rfl, token⟩ := behind?_eq_some_iff.mp closed
          obtain ⟨rfl, rfl⟩ : _ = e ∧ final = rest := by simpa using h
          refine ⟨.parenthesized d, rfl, ?_⟩
          simp only [Derivation.Spans, Derivation.tokens, List.map_cons] at hd ⊢
          rw [hd, token, List.cons_append, List.append_assoc]
          rfl

/-- Behind the name of a function and its parenthesis stand the arguments. What is known of them
includes the closing parenthesis, which is no token of their derivation. -/
theorem exists_call (function : String) {behind inner rest : List Lexeme} {e : Expr}
    (opened : behind? .openParen behind = some inner)
    (h : (match reading (arguments stop inner) with
      | .error fault => .error fault
      | .ok (args, after) => .ok (.call function args, after)) = Except.ok (e, rest))
    (ih : ∀ {args after}, reading (arguments stop inner) = .ok (args, after) →
      ∃ d : Derivation .arguments, d.value = args ∧
        inner.map Lexeme.token = d.tokens ++ .closeParen :: after.map Lexeme.token) :
    ∃ d : Derivation .operand, d.value = e ∧
      .name function :: behind.map Lexeme.token = d.tokens ++ rest.map Lexeme.token := by
  obtain ⟨l, rfl, token⟩ := behind?_eq_some_iff.mp opened
  split at h
  · exact nomatch h
  · next args after hargs =>
      obtain ⟨d, rfl, hd⟩ := ih hargs
      obtain ⟨rfl, rfl⟩ : _ = e ∧ after = rest := by simpa using h
      refine ⟨.call function d, rfl, ?_⟩
      simp only [Derivation.tokens, List.map_cons] at hd ⊢
      rw [hd, token, List.cons_append, List.cons_append, List.append_assoc]
      rfl

/-! ### The readers -/

mutual

/-- There is at most one comparison: behind its second sum the reader does not look for another
operator. -/
theorem exists_comparison {ts rest : List Lexeme} {e : Expr}
    (h : reading (comparison stop ts) = .ok (e, rest)) :
    ∃ d : Derivation .comparison, d.value = e ∧ d.Spans ts rest := by
  rw [reading_comparison] at h
  split at h
  · exact nomatch h
  · next left after hleft =>
      -- The facts on lengths are for the measure: every reader is called on a shorter row, or
      -- on the same row for a later category.
      have shorter := length_lt_of_reading hleft
      obtain ⟨dl, rfl, hl⟩ := exists_sum hleft
      split at h
      · obtain ⟨rfl, rfl⟩ : _ = e ∧ after = rest := by simpa using h
        exact ⟨.uncompared dl, rfl, hl⟩
      · next op behind found =>
          have fewer := length_lt_of_operator? found
          obtain ⟨l, rfl, meaning⟩ := operator?_eq_some_iff.mp found
          obtain ⟨loose, token⟩ := comparator?_eq_some_iff.mp meaning
          split at h
          · exact nomatch h
          · next right rest' hright =>
              obtain ⟨dr, rfl, hr⟩ := exists_sum hright
              obtain ⟨rfl, rfl⟩ : _ = e ∧ rest' = rest := by simpa using h
              refine ⟨.compared op loose dl dr, rfl, ?_⟩
              simp only [Derivation.Spans, Derivation.tokens, List.map_cons] at hl hr ⊢
              rw [hl, hr, token, List.append_assoc, List.cons_append]
termination_by 8 * ts.length + 5

/-- A sum is a product and the loop behind it. -/
theorem exists_sum {ts rest : List Lexeme} {e : Expr}
    (h : reading (sum stop ts) = .ok (e, rest)) :
    ∃ d : Derivation .sum, d.value = e ∧ d.Spans ts rest := by
  rw [reading_sum] at h
  split at h
  · exact nomatch h
  · next left after hleft =>
      have shorter := length_lt_of_reading hleft
      obtain ⟨first, rfl, hfirst⟩ := exists_product hleft
      obtain ⟨tail, rfl, htail⟩ := exists_sumTail h
      refine ⟨.sum first tail, rfl, ?_⟩
      simp only [Derivation.Spans, Derivation.tokens] at hfirst htail ⊢
      rw [hfirst, htail, List.append_assoc]
termination_by 8 * ts.length + 4

/-- One round of the loop is one production of the tail. The value of a tail is a function of the
expression on its left, which here is what was read before. -/
theorem exists_sumTail {ts rest : List Lexeme} {left e : Expr}
    (h : reading (sumFrom stop left ts) = .ok (e, rest)) :
    ∃ d : Derivation .sumTail, d.value left = e ∧ d.Spans ts rest := by
  rw [reading_sumFrom] at h
  split at h
  · obtain ⟨rfl, rfl⟩ : left = e ∧ ts = rest := by simpa using h
    exact ⟨.sumEnd, rfl, rfl⟩
  · next op behind found =>
      have fewer := length_lt_of_operator? found
      obtain ⟨l, rfl, meaning⟩ := operator?_eq_some_iff.mp found
      obtain ⟨additive, token⟩ := additive?_eq_some_iff.mp meaning
      split at h
      · exact nomatch h
      · next right after hright =>
          have shorter := length_lt_of_reading hright
          obtain ⟨next, rfl, hnext⟩ := exists_product hright
          obtain ⟨tail, rfl, htail⟩ := exists_sumTail h
          refine ⟨.sumMore op additive next tail, rfl, ?_⟩
          simp only [Derivation.Spans, Derivation.tokens, List.map_cons] at hnext htail ⊢
          rw [hnext, htail, token, List.cons_append, List.append_assoc]
termination_by 8 * ts.length + 4

/-- A product is a power and the loop behind it. -/
theorem exists_product {ts rest : List Lexeme} {e : Expr}
    (h : reading (product stop ts) = .ok (e, rest)) :
    ∃ d : Derivation .product, d.value = e ∧ d.Spans ts rest := by
  rw [reading_product] at h
  split at h
  · exact nomatch h
  · next left after hleft =>
      have shorter := length_lt_of_reading hleft
      obtain ⟨first, rfl, hfirst⟩ := exists_power hleft
      obtain ⟨tail, rfl, htail⟩ := exists_productTail h
      refine ⟨.product first tail, rfl, ?_⟩
      simp only [Derivation.Spans, Derivation.tokens] at hfirst htail ⊢
      rw [hfirst, htail, List.append_assoc]
termination_by 8 * ts.length + 3

/-- One round of the loop over products is one production of its tail. -/
theorem exists_productTail {ts rest : List Lexeme} {left e : Expr}
    (h : reading (productFrom stop left ts) = .ok (e, rest)) :
    ∃ d : Derivation .productTail, d.value left = e ∧ d.Spans ts rest := by
  rw [reading_productFrom] at h
  split at h
  · obtain ⟨rfl, rfl⟩ : left = e ∧ ts = rest := by simpa using h
    exact ⟨.productEnd, rfl, rfl⟩
  · next op behind found =>
      have fewer := length_lt_of_operator? found
      obtain ⟨l, rfl, meaning⟩ := operator?_eq_some_iff.mp found
      obtain ⟨multiplicative, token⟩ := multiplicative?_eq_some_iff.mp meaning
      split at h
      · exact nomatch h
      · next right after hright =>
          have shorter := length_lt_of_reading hright
          obtain ⟨next, rfl, hnext⟩ := exists_power hright
          obtain ⟨tail, rfl, htail⟩ := exists_productTail h
          refine ⟨.productMore op multiplicative next tail, rfl, ?_⟩
          simp only [Derivation.Spans, Derivation.tokens, List.map_cons] at hnext htail ⊢
          rw [hnext, htail, token, List.cons_append, List.append_assoc]
termination_by 8 * ts.length + 3

/-- The exponent is again a power, so the derivation of a tower leans to the right. -/
theorem exists_power {ts rest : List Lexeme} {e : Expr}
    (h : reading (power stop ts) = .ok (e, rest)) :
    ∃ d : Derivation .power, d.value = e ∧ d.Spans ts rest := by
  rw [reading_power] at h
  split at h
  · exact nomatch h
  · next base after hbase =>
      have shorter := length_lt_of_reading hbase
      obtain ⟨db, rfl, hb⟩ := exists_operand hbase
      split at h
      · obtain ⟨rfl, rfl⟩ : _ = e ∧ after = rest := by simpa using h
        exact ⟨.unraised db, rfl, hb⟩
      · next behind found =>
          have fewer := length_lt_of_behind? found
          obtain ⟨l, rfl, token⟩ := behind?_eq_some_iff.mp found
          split at h
          · exact nomatch h
          · next exponent rest' hexponent =>
              obtain ⟨de, rfl, he⟩ := exists_power hexponent
              obtain ⟨rfl, rfl⟩ : _ = e ∧ rest' = rest := by simpa using h
              refine ⟨.raised db de, rfl, ?_⟩
              simp only [Derivation.Spans, Derivation.tokens, List.map_cons] at hb he ⊢
              rw [hb, he, token, List.append_assoc, List.cons_append]
termination_by 8 * ts.length + 2

/-- The first token of an operand says which production it is, but for a name, where a parenthesis
behind it makes the difference between a call and a reference. -/
theorem exists_operand {ts rest : List Lexeme} {e : Expr}
    (h : reading (operand stop ts) = .ok (e, rest)) :
    ∃ d : Derivation .operand, d.value = e ∧ d.Spans ts rest := by
  rw [reading_operand] at h
  cases hts : ts with
  | nil =>
      rw [hts] at h
      exact nomatch h
  | cons l behind =>
      have longer : ts.length = behind.length + 1 := by rw [hts, List.length_cons]
      rw [hts] at h
      obtain ⟨token, start, spelling⟩ := l
      cases token with
      | numeral n =>
          obtain ⟨rfl, rfl⟩ : _ = e ∧ behind = rest := by simpa using h
          exact ⟨.numeral n, rfl, rfl⟩
      | text s =>
          obtain ⟨rfl, rfl⟩ : _ = e ∧ behind = rest := by simpa using h
          exact ⟨.text s, rfl, rfl⟩
      | minus => exact exists_signed .negate h fun hinner => exists_operand hinner
      | plus => exact exists_signed .plus h fun hinner => exists_operand hinner
      | openParen => exact exists_parenthesized h fun hinner => exists_comparison hinner
      | qualifier q =>
          cases behind with
          | nil => exact nomatch h
          | cons code after =>
              obtain ⟨token, start, spelling⟩ := code
              cases token with
              | name code =>
                  obtain ⟨form, rfl, hform⟩ := exists_reference h
                  refine ⟨.qualified q code form, rfl, ?_⟩
                  show .qualifier q :: .name code :: after.map Lexeme.token = _
                  rw [hform]
                  rfl
              | _ => exact nomatch h
      | name name =>
          simp only at h
          -- A parenthesis behind a name makes it a call, and nothing else does.
          split at h
          · next inner opened =>
              have fewer := length_lt_of_behind? opened
              exact exists_call name opened h fun hargs => exists_arguments hargs
          · obtain ⟨form, rfl, hform⟩ := exists_reference h
            refine ⟨.unqualified name form, rfl, ?_⟩
            show .name name :: behind.map Lexeme.token = _
            rw [hform]
            rfl
      | _ => exact nomatch h
termination_by 8 * ts.length + 1

/-- The reader of arguments takes the closing parenthesis too, which belongs to the call. -/
theorem exists_arguments {ts rest : List Lexeme} {es : List Expr}
    (h : reading (arguments stop ts) = .ok (es, rest)) :
    ∃ d : Derivation .arguments, d.value = es ∧
      ts.map Lexeme.token = d.tokens ++ .closeParen :: rest.map Lexeme.token := by
  rw [reading_arguments] at h
  split at h
  · next rest' closed =>
      obtain ⟨l, rfl, token⟩ := behind?_eq_some_iff.mp closed
      obtain ⟨rfl, rfl⟩ : [] = es ∧ rest' = rest := by simpa using h
      exact ⟨.noArguments, rfl, by rw [List.map_cons, token]; rfl⟩
  · obtain ⟨list, rfl, hlist⟩ := exists_argumentList h
    exact ⟨.someArguments list, rfl, hlist⟩
termination_by 8 * ts.length + 7

/-- A list of arguments is not empty, and what stands behind an argument is a comma or the end. -/
theorem exists_argumentList {ts rest : List Lexeme} {es : List Expr}
    (h : reading (argumentList stop ts) = .ok (es, rest)) :
    ∃ d : Derivation .argumentList, d.value = es ∧
      ts.map Lexeme.token = d.tokens ++ .closeParen :: rest.map Lexeme.token := by
  rw [reading_argumentList] at h
  split at h
  · exact nomatch h
  · next e after hfirst =>
      have shorter := length_lt_of_reading hfirst
      obtain ⟨first, rfl, hf⟩ := exists_comparison hfirst
      split at h
      · next behind found =>
          have fewer := length_lt_of_behind? found
          obtain ⟨l, rfl, token⟩ := behind?_eq_some_iff.mp found
          split at h
          · exact nomatch h
          · next es' rest' hlist =>
              obtain ⟨list, rfl, hl⟩ := exists_argumentList hlist
              obtain ⟨rfl, rfl⟩ : _ = es ∧ rest' = rest := by simpa using h
              refine ⟨.moreArguments first list, rfl, ?_⟩
              -- The rest of the list has taken the closing parenthesis already.
              simp only [Derivation.Spans, Derivation.tokens, List.map_cons] at hf hl ⊢
              rw [hf, hl, token, List.append_assoc, List.cons_append]
      · split at h
        · exact nomatch h
        · next rest' closed =>
            obtain ⟨l, rfl, token⟩ := behind?_eq_some_iff.mp closed
            obtain ⟨rfl, rfl⟩ : _ = es ∧ rest' = rest := by simpa using h
            refine ⟨.lastArgument first, rfl, ?_⟩
            simp only [Derivation.Spans, List.map_cons] at hf
            rw [hf, token]
            rfl
termination_by 8 * ts.length + 6

end

end Rollforward.Formula
