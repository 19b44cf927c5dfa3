import Rollforward.Proofs.Decimal.Digits
import Rollforward.Proofs.Formula.Layout
import Rollforward.Proofs.Formula.Parse

/-!
# `Rollforward.Proofs.Formula.Literal`: formulas that are nothing but a number

Such a formula is a numeral with any signs before it and any parentheses around them
(`IsLiteral`). A sign stays in the tree of the formula and parentheses do not, so in the tree it is
a number behind signs (`Expr.number?`). `number?_eq_some_iff` shows that the two are the same: the
grammar has other things to put around a number, but they leave a trace.
-/

set_option autoImplicit false

namespace Rollforward.Formula

/-- The number that an expression is, behind any signs. -/
def Expr.number? : Expr → Option Float
  | .number x => some x
  | .unary _ operand => operand.number?
  | _ => none

/-- The rows of tokens that write the numeral `n` and nothing else. -/
inductive IsLiteral (n : Decimal.Numeral) : List Token → Prop where
  | numeral : IsLiteral n [.numeral n]
  | signed (op : UnaryOp) {ts : List Token} (rest : IsLiteral n ts) : IsLiteral n (op.token :: ts)
  | parenthesized {ts : List Token} (inner : IsLiteral n ts) :
      IsLiteral n (.openParen :: (ts ++ [.closeParen]))

/-- The formula is the numeral `n`, signs and parentheses aside. -/
def Writes (formula : String) (n : Decimal.Numeral) : Prop :=
  ∃ ts, tokenize formula = .ok ts ∧ IsLiteral n (ts.map Lexeme.token)

namespace Derivation

/-- An operand by itself, without operations. -/
def alone (d : Derivation .operand) : Derivation .comparison :=
  .uncompared (.sum (.product (.unraised d) .productEnd) .sumEnd)

/-- Lifting an operand up to a comparison adds no token. -/
theorem tokens_alone (d : Derivation .operand) : d.alone.tokens = d.tokens := by
  simp only [alone, tokens, List.append_nil]

/-- A literal has a derivation, and builds its number. -/
theorem exists_of_isLiteral {n : Decimal.Numeral} {ts : List Token} (h : IsLiteral n ts) :
    ∃ d : Derivation .operand, d.tokens = ts ∧ d.value.number? = some n.toFloat := by
  induction h with
  | numeral => exact ⟨.numeral n, rfl, rfl⟩
  | signed op rest ih =>
      obtain ⟨d, rfl, number⟩ := ih
      exact ⟨.signed op d, rfl, number⟩
  | parenthesized inner ih =>
      obtain ⟨d, rfl, number⟩ := ih
      exact ⟨.parenthesized d.alone, by rw [tokens, tokens_alone], number⟩

/-- What builds a number is a literal; the tail of a sum or a product that leaves a number as it is
is empty. -/
def BuildsLiteral : {c : Category} → Derivation c → Prop
  | .sumTail, d | .productTail, d =>
    ∀ (before : Expr) (x : Float), (d.value before).number? = some x →
      d.tokens = [] ∧ before.number? = some x
  | .arguments, _ | .argumentList, _ => True
  | .comparison, d | .sum, d | .product, d | .power, d | .operand, d =>
    ∀ x : Float, d.value.number? = some x → ∃ n, IsLiteral n d.tokens ∧ n.toFloat = x

/-- A derivation whose value is a number behind signs has only a numeral, signs and parentheses
among its tokens. The induction goes through all productions, since each could be the one at the
top. -/
theorem buildsLiteral {c : Category} (d : Derivation c) : d.BuildsLiteral := by
  induction d with
  | uncompared only ih => exact ih
  | compared => exact fun x number => nomatch number
  | sum first rest ihFirst ihRest | product first rest ihFirst ihRest =>
      intro x number
      obtain ⟨none, number⟩ := ihRest _ x number
      obtain ⟨n, literal, value⟩ := ihFirst x number
      exact ⟨n, by rwa [tokens, none, List.append_nil], value⟩
  | sumEnd | productEnd => exact fun before x number => ⟨rfl, number⟩
  | sumMore op _ next rest _ ihRest | productMore op _ next rest _ ihRest =>
      -- What stands before the rest of the tail is an operation already.
      intro before x number
      exact nomatch (ihRest _ x number).2
  | unraised only ih => exact ih
  | raised => exact fun x number => nomatch number
  | signed op operand ih =>
      intro x number
      obtain ⟨n, literal, value⟩ := ih x number
      exact ⟨n, .signed op literal, value⟩
  | numeral n => exact fun x number => ⟨n, .numeral, Option.some.inj number⟩
  | parenthesized inner ih =>
      intro x number
      obtain ⟨n, literal, value⟩ := ih x number
      exact ⟨n, .parenthesized literal, value⟩
  | text | qualified | unqualified | call => exact fun x number => nomatch number
  | noArguments | someArguments | lastArgument | moreArguments => exact True.intro

end Derivation

/-- A literal is parsed. -/
theorem exists_parse_of_writes {formula : String} {n : Decimal.Numeral} (h : Writes formula n) :
    ∃ e, parse formula = .ok e ∧ e.number? = some n.toFloat := by
  obtain ⟨ts, tokens, literal⟩ := h
  obtain ⟨d, reads, number⟩ := Derivation.exists_of_isLiteral literal
  exact ⟨d.alone.value, parse_of_derivation tokens d.alone (d.tokens_alone.trans reads), number⟩

/-- A formula is parsed as a number behind signs where it is the literal of such a number. -/
theorem number?_eq_some_iff {formula : String} {e : Expr} (parsed : parse formula = .ok e)
    {x : Float} : e.number? = some x ↔ ∃ n, Writes formula n ∧ n.toFloat = x := by
  constructor
  · intro number
    obtain ⟨ts, tokens, d, reads, rfl⟩ := exists_derivation_of_parse parsed
    obtain ⟨n, literal, value⟩ := d.buildsLiteral x number
    exact ⟨n, ⟨ts, tokens, reads ▸ literal⟩, value⟩
  · rintro ⟨n, written, rfl⟩
    obtain ⟨e', parsed', number⟩ := exists_parse_of_writes written
    obtain rfl : e = e' := Except.ok.inj (parsed.symm.trans parsed')
    exact number

/-! ### Which numeral it is -/

/-- The numeral of such a formula is the only one in it. -/
theorem IsLiteral.numeral_mem_iff {n k : Decimal.Numeral} {ts : List Token} (h : IsLiteral n ts) :
    .numeral k ∈ ts ↔ k = n := by
  induction h with
  | numeral => simp
  | signed op rest ih => cases op <;> simp [UnaryOp.token, ih]
  | parenthesized inner ih => simp [ih]

/-- A formula writes one numeral at most. -/
theorem Writes.unique {formula : String} {m n : Decimal.Numeral} (hm : Writes formula m)
    (hn : Writes formula n) : m = n := by
  obtain ⟨ts, tokens, literal⟩ := hm
  obtain ⟨ts', tokens', literal'⟩ := hn
  obtain rfl : ts = ts' := Except.ok.inj (tokens.symm.trans tokens')
  exact literal'.numeral_mem_iff.1 (literal.numeral_mem_iff.2 rfl)

/-- A row of digits is one token. -/
theorem tokenize_digits {cs : List Char} (some : cs ≠ []) (digits : ∀ c ∈ cs, c.isDigit = true) :
    tokenize (String.ofList cs) = .ok [⟨.numeral (.ofParts cs []), 0, cs⟩] := by
  have ends : (Token.numeral (.ofParts cs [])).EndsBefore [] := Token.endsBefore_of_gap _ nofun
  have read := lexemes_spelling (.whole some digits) ends 0
  rw [List.append_nil, lexemes] at read
  rw [tokenize, String.toList_ofList, read]
  rfl

/-- The digits of a natural number are a numeral of it. -/
theorem tokenize_toDigits (n : Nat) :
    tokenize (String.ofList (Nat.toDigits 10 n)) =
      .ok [⟨.numeral ⟨n, 0⟩, 0, Nat.toDigits 10 n⟩] := by
  rw [tokenize_digits Nat.toDigits_ne_nil Decimal.isDigit_of_mem_toDigits,
    Decimal.ofParts_toDigits]

/-- The digits of a natural number write it. -/
theorem writes_toDigits (n : Nat) : Writes (String.ofList (Nat.toDigits 10 n)) ⟨n, 0⟩ :=
  ⟨_, tokenize_toDigits n, .numeral⟩

/-- And they are a formula whose value is the double nearest to the number. -/
theorem parse_toDigits (n : Nat) :
    parse (String.ofList (Nat.toDigits 10 n)) = .ok (.number (Decimal.Numeral.toFloat ⟨n, 0⟩)) :=
  parse_of_derivation (tokenize_toDigits n) (Derivation.alone (.numeral ⟨n, 0⟩)) rfl

end Rollforward.Formula
