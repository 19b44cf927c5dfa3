import Rollforward.Formula.Expr
import Rollforward.Formula.Lexer
import Rollforward.Formula.Offset

/-!
# `Rollforward.Formula.Parser`: formula text into expressions

One function for each level of the grammar:

    comparison = sum [comparator sum]
    sum        = product {("+" | "-") product}
    product    = power {("*" | "/") power}
    power      = operand ["^" power]
    operand    = ("-" | "+") operand | numeral | text | "(" comparison ")"
               | qualifier name offset | name offset
               | name "(" [comparison {"," comparison}] ")"
    offset     = ["[" t [("+" | "-") numeral] "]"]

Sums and products group to the left, powers to the right, and a sign binds tighter than a power.
Each function returns the tokens behind what it read, with the proof that they are fewer.
-/

set_option autoImplicit false

namespace Rollforward.Formula

/-- What was read from the front of `ts`, and the fewer tokens behind it. -/
abbrev Parsed (α : Type) (ts : List Lexeme) :=
  Except SyntaxError { r : α × List Lexeme // r.2.length < ts.length }

/-- Like `Parsed`, where nothing need be read. -/
abbrev Continued (α : Type) (ts : List Lexeme) :=
  Except SyntaxError { r : α × List Lexeme // r.2.length ≤ ts.length }

/-- The comparison that a token stands for. -/
def comparator? : Token → Option BinaryOp
  | .less => some .less
  | .lessEq => some .lessEq
  | .greater => some .greater
  | .greaterEq => some .greaterEq
  | .equal => some .equal
  | .unequal => some .unequal
  | _ => none

/-- The operation of a sum that a token stands for. -/
def additive? : Token → Option BinaryOp
  | .plus => some .add
  | .minus => some .sub
  | _ => none

/-- The operation of a product that a token stands for. -/
def multiplicative? : Token → Option BinaryOp
  | .star => some .mul
  | .slash => some .div
  | _ => none

/-- The tokens behind `t`, if `t` stands in front. -/
def behind? (t : Token) : List Lexeme → Option (List Lexeme)
  | [] => none
  | l :: rest => if l.token = t then some rest else none

/-- The operation that stands in front, and the tokens behind it. -/
def operator? (meaning : Token → Option BinaryOp) :
    List Lexeme → Option (BinaryOp × List Lexeme)
  | [] => none
  | l :: rest => (meaning l.token).map (·, rest)

/-- Taking a token off leaves fewer. -/
theorem length_lt_of_behind? {t : Token} {ts rest : List Lexeme} (h : behind? t ts = some rest) :
    rest.length < ts.length := by
  cases ts with
  | nil => simp [behind?] at h
  | cons l ls =>
    simp only [behind?, Option.ite_none_right_eq_some, Option.some.injEq] at h
    simp [h.2]

/-- Taking an operation off leaves fewer tokens. -/
theorem length_lt_of_operator? {meaning : Token → Option BinaryOp} {ts rest : List Lexeme}
    {op : BinaryOp} (h : operator? meaning ts = some (op, rest)) : rest.length < ts.length := by
  cases ts with
  | nil => simp [operator?] at h
  | cons l ls =>
    simp only [operator?, Option.map_eq_some_iff, Prod.mk.injEq] at h
    obtain ⟨_, _, _, h⟩ := h
    simp [h]

/-- The offset behind a code, and with it the whole reference. -/
def readReference (stop : Nat) (source : Option Namespace) (code : String) (ts : List Lexeme) :
    Continued Expr ts :=
  match h : readOffset stop ts with
  | .error e => .error e
  | .ok (offset, rest) =>
    .ok ⟨(.reference ⟨source, code, offset⟩, rest), length_le_of_readOffset h⟩

mutual

/-- At most one comparison of two sums. -/
def comparison (stop : Nat) (ts : List Lexeme) : Parsed Expr ts := do
  let ⟨(left, after), shorter⟩ ← sum stop ts
  match found : operator? comparator? after with
  | none => return ⟨(left, after), shorter⟩
  | some (op, rest) =>
    -- What follows the second sum is left to the caller: comparisons do not chain.
    have taken := length_lt_of_operator? found
    let ⟨(right, final), fewer⟩ ← sum stop rest
    return ⟨(.binary op left right, final), by simp only at shorter fewer ⊢; omega⟩
termination_by 8 * ts.length + 5
decreasing_by
  · omega
  · simp only at shorter; omega

/-- Products joined by plus and minus. -/
def sum (stop : Nat) (ts : List Lexeme) : Parsed Expr ts := do
  let ⟨(left, after), shorter⟩ ← product stop ts
  let ⟨r, fewer⟩ ← sumFrom stop left after
  return ⟨r, Nat.lt_of_le_of_lt fewer shorter⟩
termination_by 8 * ts.length + 4
decreasing_by
  · omega
  · simp only at shorter; omega

/-- The further products of a sum that has come to `left`. -/
def sumFrom (stop : Nat) (left : Expr) (ts : List Lexeme) : Continued Expr ts :=
  match found : operator? additive? ts with
  | none => .ok ⟨(left, ts), Nat.le_refl _⟩
  | some (op, rest) => do
    have taken := length_lt_of_operator? found
    let ⟨(right, after), shorter⟩ ← product stop rest
    let ⟨r, fewer⟩ ← sumFrom stop (.binary op left right) after
    return ⟨r, by simp only at shorter; omega⟩
termination_by 8 * ts.length + 4
decreasing_by
  · omega
  · simp only at shorter; omega

/-- Powers joined by times and divide. -/
def product (stop : Nat) (ts : List Lexeme) : Parsed Expr ts := do
  let ⟨(left, after), shorter⟩ ← power stop ts
  let ⟨r, fewer⟩ ← productFrom stop left after
  return ⟨r, Nat.lt_of_le_of_lt fewer shorter⟩
termination_by 8 * ts.length + 3
decreasing_by
  · omega
  · simp only at shorter; omega

/-- The further powers of a product that has come to `left`. -/
def productFrom (stop : Nat) (left : Expr) (ts : List Lexeme) : Continued Expr ts :=
  match found : operator? multiplicative? ts with
  | none => .ok ⟨(left, ts), Nat.le_refl _⟩
  | some (op, rest) => do
    have taken := length_lt_of_operator? found
    let ⟨(right, after), shorter⟩ ← power stop rest
    let ⟨r, fewer⟩ ← productFrom stop (.binary op left right) after
    return ⟨r, by simp only at shorter; omega⟩
termination_by 8 * ts.length + 3
decreasing_by
  · omega
  · simp only at shorter; omega

/-- An operand, perhaps raised to a power. -/
def power (stop : Nat) (ts : List Lexeme) : Parsed Expr ts := do
  let ⟨(base, after), shorter⟩ ← operand stop ts
  match found : behind? .caret after with
  | none => return ⟨(base, after), shorter⟩
  | some rest =>
    -- The exponent is a power itself, so powers group to the right.
    have taken := length_lt_of_behind? found
    let ⟨(exponent, final), fewer⟩ ← power stop rest
    return ⟨(.binary .pow base exponent, final), by simp only at shorter fewer ⊢; omega⟩
termination_by 8 * ts.length + 2
decreasing_by
  · omega
  · simp only at shorter; omega

/-- A signed operand, a literal, a reference, a call or a comparison in parentheses. -/
def operand (stop : Nat) (ts : List Lexeme) : Parsed Expr ts :=
  match ts with
  | [] => .error ⟨.unexpectedEnd, stop⟩
  | l :: rest =>
    match l.token with
    | .minus => do
      let ⟨(e, after), shorter⟩ ← operand stop rest
      return ⟨(.unary .negate e, after), Nat.lt_succ_of_lt shorter⟩
    | .plus => do
      let ⟨(e, after), shorter⟩ ← operand stop rest
      return ⟨(.unary .plus e, after), Nat.lt_succ_of_lt shorter⟩
    | .numeral n => .ok ⟨(.number n.toFloat, rest), Nat.lt_succ_self _⟩
    | .text s => .ok ⟨(.text s, rest), Nat.lt_succ_self _⟩
    | .openParen => do
      let ⟨(e, after), shorter⟩ ← comparison stop rest
      match found : behind? .closeParen after with
      | none => .error ⟨.unclosedParenthesis, here stop after⟩
      | some final =>
        have taken := length_lt_of_behind? found
        return ⟨(e, final), by simp only [List.length_cons] at shorter ⊢; omega⟩
    -- A prefix is followed by the code that it qualifies, even where that is spelt like a function.
    | .qualifier q =>
      match rest with
      | [] => .error ⟨.missingCode q, stop⟩
      | next :: after =>
        match next.token with
        | .name code => do
          let ⟨r, fewer⟩ ← readReference stop (some (.ofName q)) code after
          return ⟨r, by simp only [List.length_cons]; omega⟩
        | _ => .error ⟨.missingCode q, next.start⟩
    -- One token of look-ahead tells a call from a reference.
    | .name name =>
      match found : behind? .openParen rest with
      | some inner => do
        have taken := length_lt_of_behind? found
        let ⟨(args, after), shorter⟩ ← arguments stop inner
        return ⟨(.call name args, after), by simp only [List.length_cons] at shorter ⊢; omega⟩
      | none => do
        let ⟨r, fewer⟩ ← readReference stop none name rest
        return ⟨r, Nat.lt_succ_of_le fewer⟩
    | _ => .error ⟨.unexpectedToken, l.start⟩
termination_by 8 * ts.length + 1
decreasing_by
  all_goals simp only [List.length_cons]; omega

/-- The arguments of a call through the closing parenthesis; there may be none. -/
def arguments (stop : Nat) (ts : List Lexeme) : Parsed (List Expr) ts :=
  match found : behind? .closeParen ts with
  | some rest => .ok ⟨([], rest), length_lt_of_behind? found⟩
  | none => argumentList stop ts
termination_by 8 * ts.length + 7
decreasing_by
  omega

/-- One argument or more through the closing parenthesis. -/
def argumentList (stop : Nat) (ts : List Lexeme) : Parsed (List Expr) ts := do
  let ⟨(e, after), shorter⟩ ← comparison stop ts
  match found : behind? .comma after with
  | some rest =>
    have taken := length_lt_of_behind? found
    let ⟨(es, final), fewer⟩ ← argumentList stop rest
    return ⟨(e :: es, final), by simp only at shorter fewer ⊢; omega⟩
  | none =>
    match closed : behind? .closeParen after with
    | none => .error ⟨.unclosedArguments, here stop after⟩
    | some final =>
      have taken := length_lt_of_behind? closed
      return ⟨([e], final), by simp only at shorter ⊢; omega⟩
termination_by 8 * ts.length + 6
decreasing_by
  · omega
  · simp only at shorter; omega

end

/-- The expression that a token list writes, in a text of `stop` bytes. -/
def parseLexemes (stop : Nat) (ts : List Lexeme) : Except SyntaxError Expr :=
  if ts.isEmpty then .error ⟨.emptyFormula, 0⟩
  else
    match comparison stop ts with
    | .error e => .error e
    | .ok ⟨(e, rest), _⟩ =>
      match rest with
      | [] => .ok e
      | l :: _ => .error ⟨.trailingInput, l.start⟩

/-- The expression that a formula writes. -/
def parse (formula : String) : Except SyntaxError Expr :=
  match tokenize formula with
  | .error e => .error e
  | .ok ts => parseLexemes (byteLength formula.toList) ts

end Rollforward.Formula
