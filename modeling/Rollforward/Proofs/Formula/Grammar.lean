import Rollforward.Formula.Parser

/-!
# `Rollforward.Proofs.Formula.Grammar`: derivations of formulas

The grammar that `Rollforward.Formula.Parser` states in prose, as a type. A `Derivation` of a
category is a tree with a constructor for each production:

    comparison   = sum [comparator sum]
    sum          = product sumTail
    sumTail      = {("+" | "-") product}
    product      = power productTail
    productTail  = {("*" | "/") power}
    power        = operand ["^" power]
    operand      = ("-" | "+") operand | numeral | text | "(" comparison ")"
                 | qualifier name offset | name offset | name "(" arguments ")"
    arguments    = [argumentList]
    argumentList = comparison {"," comparison}
    offset       = ["[" t [("+" | "-") numeral] "]"]

A derivation does two things. It reads a row of tokens (`tokens`), and it builds what the row
means (`value`). Nothing here mentions the parser's functions. So "the grammar derives `e` from
`ts`" is: some derivation `d` of a comparison has `d.tokens = ts` and `d.value = e`. It is
unambiguous when `tokens` is injective.
-/

set_option autoImplicit false

namespace Rollforward.Formula

/-! ### The signs -/

/-- The token that writes a sign before an operand. -/
def UnaryOp.token : UnaryOp → Token
  | .negate => .minus
  | .plus => .plus

/-- The token that writes an operation. -/
def BinaryOp.token : BinaryOp → Token
  | .add => .plus
  | .sub => .minus
  | .mul => .star
  | .div => .slash
  | .pow => .caret
  | .less => .less
  | .lessEq => .lessEq
  | .greater => .greater
  | .greaterEq => .greaterEq
  | .equal => .equal
  | .unequal => .unequal

/-- How tightly operations bind, the loosest first. -/
inductive Tightness where
  | comparison
  | additive
  | multiplicative
  | power
  deriving DecidableEq

/-- How tightly an operation binds. -/
def BinaryOp.tightness : BinaryOp → Tightness
  | .less | .lessEq | .greater | .greaterEq | .equal | .unequal => .comparison
  | .add | .sub => .additive
  | .mul | .div => .multiplicative
  | .pow => .power

/-- The parser looks for the operators of one level at a time. These are the ones that the grammar
has there. -/
theorem comparator?_eq_some_iff {t : Token} {op : BinaryOp} :
    comparator? t = some op ↔ op.tightness = .comparison ∧ t = op.token := by
  constructor
  · intro h
    cases t <;> simp only [comparator?, Option.some.injEq, reduceCtorEq] at h <;> subst h <;>
      exact ⟨rfl, rfl⟩
  · rintro ⟨h, rfl⟩
    cases op <;> first | rfl | exact nomatch h

/-- The same for sums. -/
theorem additive?_eq_some_iff {t : Token} {op : BinaryOp} :
    additive? t = some op ↔ op.tightness = .additive ∧ t = op.token := by
  constructor
  · intro h
    cases t <;> simp only [additive?, Option.some.injEq, reduceCtorEq] at h <;> subst h <;>
      exact ⟨rfl, rfl⟩
  · rintro ⟨h, rfl⟩
    cases op <;> first | rfl | exact nomatch h

/-- And for products. -/
theorem multiplicative?_eq_some_iff {t : Token} {op : BinaryOp} :
    multiplicative? t = some op ↔ op.tightness = .multiplicative ∧ t = op.token := by
  constructor
  · intro h
    cases t <;> simp only [multiplicative?, Option.some.injEq, reduceCtorEq] at h <;> subst h <;>
      exact ⟨rfl, rfl⟩
  · rintro ⟨h, rfl⟩
    cases op <;> first | rfl | exact nomatch h

/-- No two operations share a token. -/
theorem BinaryOp.eq_of_token_eq {a b : BinaryOp} (h : a.token = b.token) : a = b := by
  cases a <;> cases b <;> first | rfl | exact nomatch h

/-- Nor do two signs. -/
theorem UnaryOp.eq_of_token_eq {a b : UnaryOp} (h : a.token = b.token) : a = b := by
  cases a <;> cases b <;> first | rfl | exact nomatch h

/-! ### Offsets -/

/-- The names of the time variable: `t` in either case. -/
def IsTimeVariable (name : String) : Prop := name = "t" ∨ name = "T"

/-- The ways to write an offset. -/
inductive OffsetForm where
  | omitted
  /-- As in `[t]`. -/
  | now (t : String) (isTime : IsTimeVariable t)
  /-- As in `[t-1]`. The numeral is a natural number and not too large. -/
  | shifted (t : String) (isTime : IsTimeVariable t) (sign : UnaryOp) (n : Decimal.Numeral)
      (m : Nat) (whole : n.toNat? = some m) (small : m ≤ largestOffset)

namespace OffsetForm

/-- The tokens that an offset reads. -/
def tokens : OffsetForm → List Token
  | .omitted => []
  | .now t _ => [.openBracket, .name t, .closeBracket]
  | .shifted t _ sign n _ _ _ =>
    [.openBracket, .name t, sign.token, .numeral n, .closeBracket]

/-- The number that an offset stands for. -/
def value : OffsetForm → Int
  | .omitted => 0
  | .now _ _ => 0
  | .shifted _ _ .plus _ m _ _ => m
  | .shifted _ _ .negate _ m _ _ => -m

end OffsetForm

/-! ### Derivations -/

/-- The categories of the grammar. -/
inductive Category where
  | comparison
  | sum
  | sumTail
  | product
  | productTail
  | power
  | operand
  | arguments
  | argumentList
  deriving DecidableEq

/-- What a category means. The tail of a sum or a product carries on from what stands before it. -/
abbrev Category.Value : Category → Type
  | .sumTail | .productTail => Expr → Expr
  | .arguments | .argumentList => List Expr
  | _ => Expr

/-- The derivations of each category, with a constructor for each production. -/
inductive Derivation : Category → Type where
  | uncompared (only : Derivation .sum) : Derivation .comparison
  | compared (op : BinaryOp) (loose : op.tightness = .comparison) (left right : Derivation .sum) :
      Derivation .comparison
  | sum (first : Derivation .product) (rest : Derivation .sumTail) : Derivation .sum
  | sumEnd : Derivation .sumTail
  | sumMore (op : BinaryOp) (additive : op.tightness = .additive) (next : Derivation .product)
      (rest : Derivation .sumTail) : Derivation .sumTail
  | product (first : Derivation .power) (rest : Derivation .productTail) : Derivation .product
  | productEnd : Derivation .productTail
  | productMore (op : BinaryOp) (multiplicative : op.tightness = .multiplicative)
      (next : Derivation .power) (rest : Derivation .productTail) : Derivation .productTail
  | unraised (only : Derivation .operand) : Derivation .power
  | raised (base : Derivation .operand) (exponent : Derivation .power) : Derivation .power
  | signed (op : UnaryOp) (operand : Derivation .operand) : Derivation .operand
  | numeral (n : Decimal.Numeral) : Derivation .operand
  | text (s : String) : Derivation .operand
  | parenthesized (inner : Derivation .comparison) : Derivation .operand
  | qualified (qualifier code : String) (offset : OffsetForm) : Derivation .operand
  | unqualified (code : String) (offset : OffsetForm) : Derivation .operand
  | call (function : String) (args : Derivation .arguments) : Derivation .operand
  | noArguments : Derivation .arguments
  | someArguments (list : Derivation .argumentList) : Derivation .arguments
  | lastArgument (only : Derivation .comparison) : Derivation .argumentList
  | moreArguments (first : Derivation .comparison) (rest : Derivation .argumentList) :
      Derivation .argumentList

namespace Derivation

/-- The tokens that a derivation reads. -/
@[simp]
def tokens {c : Category} : Derivation c → List Token
  | .uncompared only => only.tokens
  | .compared op _ left right => left.tokens ++ op.token :: right.tokens
  | .sum first rest => first.tokens ++ rest.tokens
  | .sumEnd => []
  | .sumMore op _ next rest => op.token :: (next.tokens ++ rest.tokens)
  | .product first rest => first.tokens ++ rest.tokens
  | .productEnd => []
  | .productMore op _ next rest => op.token :: (next.tokens ++ rest.tokens)
  | .unraised only => only.tokens
  | .raised base exponent => base.tokens ++ .caret :: exponent.tokens
  | .signed op operand => op.token :: operand.tokens
  | .numeral n => [.numeral n]
  | .text s => [.text s]
  | .parenthesized inner => .openParen :: (inner.tokens ++ [.closeParen])
  | .qualified qualifier code offset => .qualifier qualifier :: .name code :: offset.tokens
  | .unqualified code offset => .name code :: offset.tokens
  | .call function args => .name function :: .openParen :: (args.tokens ++ [.closeParen])
  | .noArguments => []
  | .someArguments list => list.tokens
  | .lastArgument only => only.tokens
  | .moreArguments first rest => first.tokens ++ .comma :: rest.tokens

/-- What a derivation builds. Each step of a tail takes what stands before it as its left operand,
so sums and products group to the left. Parentheses leave no trace. -/
def value {c : Category} : Derivation c → c.Value
  | .uncompared only => only.value
  | .compared op _ left right => .binary op left.value right.value
  | .sum first rest => rest.value first.value
  | .sumEnd => fun before => before
  | .sumMore op _ next rest => fun before => rest.value (.binary op before next.value)
  | .product first rest => rest.value first.value
  | .productEnd => fun before => before
  | .productMore op _ next rest => fun before => rest.value (.binary op before next.value)
  | .unraised only => only.value
  | .raised base exponent => .binary .pow base.value exponent.value
  | .signed op operand => .unary op operand.value
  | .numeral n => .number n.toFloat
  | .text s => .text s
  | .parenthesized inner => inner.value
  | .qualified qualifier code offset => .reference ⟨some (.ofName qualifier), code, offset.value⟩
  | .unqualified code offset => .reference ⟨none, code, offset.value⟩
  | .call function args => .call function args.value
  | .noArguments => []
  | .someArguments list => list.value
  | .lastArgument only => [only.value]
  | .moreArguments first rest => first.value :: rest.value

end Derivation

end Rollforward.Formula
