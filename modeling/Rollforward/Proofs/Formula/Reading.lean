import Rollforward.Formula.Parser

/-!
# `Rollforward.Proofs.Formula.Reading`: one equation for each reader

A reader of `Rollforward.Formula.Parser` returns with its result the proof that fewer tokens are
left. Termination needs that proof, a statement about the result does not. `reading` drops it. The
equations below say what each reader does in terms of the `reading` of the readers that it calls.
Later proofs use these equations and never unfold a reader.

`length_lt_of_reading` gives the dropped proof back.
-/

set_option autoImplicit false

namespace Rollforward.Formula

section
variable {α β : Type} {P : α × List Lexeme → Prop} {Q : β × List Lexeme → Prop}

/-- What a reader read and what it left, without the proof that this is less. -/
def reading (r : Except SyntaxError { x : α × List Lexeme // P x }) :
    Except SyntaxError (α × List Lexeme) :=
  r.map Subtype.val

/-- What a reader returns at once is read as it is. -/
theorem reading_ok (x : α × List Lexeme) (h : P x) :
    reading (.ok ⟨x, h⟩) = .ok x := rfl

/-- A reader that calls on another. This is the only lemma that looks into the monad of the readers,
and every equation below begins with it. -/
theorem reading_bind (r : Except SyntaxError { x : α × List Lexeme // P x })
    (f : { x : α × List Lexeme // P x } → Except SyntaxError { y : β × List Lexeme // Q y }) :
    reading (r >>= f) =
      match r with
      | .error e => .error e
      | .ok a => reading (f a) := by
  cases r <;> rfl

/-- The proof that came with a result can be had back, whatever the property was. -/
theorem property_of_reading {r : Except SyntaxError { x : α × List Lexeme // P x }}
    {x : α × List Lexeme} (h : reading r = .ok x) : P x := by
  cases r with
  | error e => exact nomatch h
  | ok y =>
      obtain rfl : y.1 = x := by simpa [reading, Except.map] using h
      exact y.2

end

/-- A reader that must read something leaves fewer tokens. -/
theorem length_lt_of_reading {α : Type} {ts rest : List Lexeme} {r : Parsed α ts} {a : α}
    (h : reading r = .ok (a, rest)) : rest.length < ts.length :=
  property_of_reading h

/-! ### The equations -/

variable (stop : Nat)

/-- A sum, then at most one comparator with a second sum. -/
theorem reading_comparison (ts : List Lexeme) :
    reading (comparison stop ts) =
      match reading (sum stop ts) with
      | .error e => .error e
      | .ok (left, after) =>
        match operator? comparator? after with
        | none => .ok (left, after)
        | some (op, behind) =>
          match reading (sum stop behind) with
          | .error e => .error e
          | .ok (right, rest) => .ok (.binary op left right, rest) := by
  rw [comparison, reading_bind]
  cases sum stop ts with
  | error e => rfl
  | ok r =>
      obtain ⟨⟨left, after⟩, shorter⟩ := r
      simp only [reading_ok]
      split
      · next found => simp only [found]; rfl
      · next op behind found =>
          simp only [found, reading_bind]
          cases sum stop behind <;> rfl

/-- A product, then the loop. -/
theorem reading_sum (ts : List Lexeme) :
    reading (sum stop ts) =
      match reading (product stop ts) with
      | .error e => .error e
      | .ok (left, after) => reading (sumFrom stop left after) := by
  rw [sum, reading_bind]
  cases product stop ts with
  | error e => rfl
  | ok r =>
      obtain ⟨⟨left, after⟩, shorter⟩ := r
      simp only [reading_ok, reading_bind]
      cases sumFrom stop left after <;> rfl

/-- The loop over sums, which ends where no additive operator stands in front. -/
theorem reading_sumFrom (left : Expr) (ts : List Lexeme) :
    reading (sumFrom stop left ts) =
      match operator? additive? ts with
      | none => .ok (left, ts)
      | some (op, behind) =>
        match reading (product stop behind) with
        | .error e => .error e
        | .ok (right, after) => reading (sumFrom stop (.binary op left right) after) := by
  rw [sumFrom]
  split
  · next found => simp only [found]; rfl
  · next op behind found =>
      simp only [found, reading_bind]
      cases product stop behind with
      | error e => rfl
      | ok r =>
          obtain ⟨⟨right, after⟩, shorter⟩ := r
          simp only [reading_ok]
          cases sumFrom stop (.binary op left right) after <;> rfl

/-- A power, then the loop. -/
theorem reading_product (ts : List Lexeme) :
    reading (product stop ts) =
      match reading (power stop ts) with
      | .error e => .error e
      | .ok (left, after) => reading (productFrom stop left after) := by
  rw [product, reading_bind]
  cases power stop ts with
  | error e => rfl
  | ok r =>
      obtain ⟨⟨left, after⟩, shorter⟩ := r
      simp only [reading_ok, reading_bind]
      cases productFrom stop left after <;> rfl

/-- The loop over products, which ends where no multiplicative operator stands in front. -/
theorem reading_productFrom (left : Expr) (ts : List Lexeme) :
    reading (productFrom stop left ts) =
      match operator? multiplicative? ts with
      | none => .ok (left, ts)
      | some (op, behind) =>
        match reading (power stop behind) with
        | .error e => .error e
        | .ok (right, after) => reading (productFrom stop (.binary op left right) after) := by
  rw [productFrom]
  split
  · next found => simp only [found]; rfl
  · next op behind found =>
      simp only [found, reading_bind]
      cases power stop behind with
      | error e => rfl
      | ok r =>
          obtain ⟨⟨right, after⟩, shorter⟩ := r
          simp only [reading_ok]
          cases productFrom stop (.binary op left right) after <;> rfl

/-- An operand and, behind a caret, another power: powers associate to the right. -/
theorem reading_power (ts : List Lexeme) :
    reading (power stop ts) =
      match reading (operand stop ts) with
      | .error e => .error e
      | .ok (base, after) =>
        match behind? .caret after with
        | none => .ok (base, after)
        | some behind =>
          match reading (power stop behind) with
          | .error e => .error e
          | .ok (exponent, rest) => .ok (.binary .pow base exponent, rest) := by
  rw [power, reading_bind]
  cases operand stop ts with
  | error e => rfl
  | ok r =>
      obtain ⟨⟨base, after⟩, shorter⟩ := r
      simp only [reading_ok]
      split
      -- Without a caret the operand is all there is.
      · next found => simp only [found]; rfl
      · next behind found =>
          simp only [found, reading_bind]
          cases power stop behind <;> rfl

/-- A code that is read as a reference, with the offset behind it. -/
theorem reading_readReference (source : Option Namespace) (code : String) (ts : List Lexeme) :
    reading (readReference stop source code ts) =
      match readOffset stop ts with
      | .error e => .error e
      | .ok (offset, rest) => .ok (.reference ⟨source, code, offset⟩, rest) := by
  rw [readReference]
  split
  · next e found => simp only [found]; rfl
  · next offset rest found => simp only [found]; rfl

/-- The first token decides what an operand is. Behind a name one more token is looked at. -/
theorem reading_operand (ts : List Lexeme) :
    reading (operand stop ts) =
      match ts with
      | [] => .error ⟨.unexpectedEnd, stop⟩
      | l :: rest =>
        match l.token with
        | .minus =>
          match reading (operand stop rest) with
          | .error e => .error e
          | .ok (e, after) => .ok (.unary .negate e, after)
        | .plus =>
          match reading (operand stop rest) with
          | .error e => .error e
          | .ok (e, after) => .ok (.unary .plus e, after)
        | .numeral n => .ok (.number n.toFloat, rest)
        | .text s => .ok (.text s, rest)
        | .openParen =>
          match reading (comparison stop rest) with
          | .error e => .error e
          | .ok (e, after) =>
            match behind? .closeParen after with
            | none => .error ⟨.unclosedParenthesis, here stop after⟩
            | some final => .ok (e, final)
        | .qualifier q =>
          match rest with
          | [] => .error ⟨.missingCode q, stop⟩
          | next :: after =>
            match next.token with
            | .name code => reading (readReference stop (some (.ofName q)) code after)
            | _ => .error ⟨.missingCode q, next.start⟩
        | .name name =>
          match behind? .openParen rest with
          | some inner =>
            match reading (arguments stop inner) with
            | .error e => .error e
            | .ok (args, after) => .ok (.call name args, after)
          | none => reading (readReference stop none name rest)
        | _ => .error ⟨.unexpectedToken, l.start⟩ := by
  rw [operand.eq_def]
  cases ts with
  | nil => rfl
  | cons l rest =>
      obtain ⟨token, start, spelling⟩ := l
      -- Only tokens behind which another reader is called leave anything to show.
      cases token with
      | minus =>
          simp only [reading_bind]
          cases operand stop rest <;> rfl
      | plus =>
          simp only [reading_bind]
          cases operand stop rest <;> rfl
      | openParen =>
          simp only [reading_bind]
          cases comparison stop rest with
          | error e => rfl
          | ok r =>
              obtain ⟨⟨e, after⟩, shorter⟩ := r
              simp only [reading_ok]
              split
              · next found => simp only [found]; rfl
              · next final found => simp only [found]; rfl
      | qualifier q =>
          cases rest with
          | nil => rfl
          | cons next after =>
              obtain ⟨token, start, spelling⟩ := next
              cases token with
              | name code =>
                  simp only [reading_bind]
                  cases readReference stop (some (.ofName q)) code after <;> rfl
              | _ => rfl
      | name name =>
          simp only
          split
          · next inner found =>
              simp only [found, reading_bind]
              cases arguments stop inner <;> rfl
          · next found =>
              simp only [found, reading_bind]
              cases readReference stop none name rest <;> rfl
      | _ => rfl

/-- The arguments of a call, up to and with the closing parenthesis. -/
theorem reading_arguments (ts : List Lexeme) :
    reading (arguments stop ts) =
      match behind? .closeParen ts with
      | some rest => .ok ([], rest)
      | none => reading (argumentList stop ts) := by
  rw [arguments]
  split
  · next rest found => simp only [found]; rfl
  · next found => rw [found]

/-- One argument and, behind a comma, more. The closing parenthesis is taken here as well. -/
theorem reading_argumentList (ts : List Lexeme) :
    reading (argumentList stop ts) =
      match reading (comparison stop ts) with
      | .error e => .error e
      | .ok (e, after) =>
        match behind? .comma after with
        | some behind =>
          match reading (argumentList stop behind) with
          | .error e => .error e
          | .ok (es, rest) => .ok (e :: es, rest)
        | none =>
          match behind? .closeParen after with
          | none => .error ⟨.unclosedArguments, here stop after⟩
          | some rest => .ok ([e], rest) := by
  rw [argumentList, reading_bind]
  cases comparison stop ts with
  | error e => rfl
  | ok r =>
      obtain ⟨⟨e, after⟩, shorter⟩ := r
      simp only [reading_ok]
      split
      · next behind found =>
          simp only [found, reading_bind]
          cases argumentList stop behind <;> rfl
      · next found =>
          simp only [found]
          split
          · next closed => simp only [closed]; rfl
          · next rest closed => simp only [closed]; rfl

/-- A formula is a comparison and nothing behind it. -/
theorem parseLexemes_eq (ts : List Lexeme) :
    parseLexemes stop ts =
      if ts.isEmpty then .error ⟨.emptyFormula, 0⟩
      else
        match reading (comparison stop ts) with
        | .error e => .error e
        | .ok (e, []) => .ok e
        | .ok (_, l :: _) => .error ⟨.trailingInput, l.start⟩ := by
  unfold parseLexemes
  cases comparison stop ts with
  | error e => rfl
  | ok r =>
      obtain ⟨⟨e, rest⟩, shorter⟩ := r
      cases rest <;> rfl

end Rollforward.Formula
