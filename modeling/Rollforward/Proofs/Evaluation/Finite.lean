import Rollforward.Proofs.Decimal.Rounding
import Rollforward.Proofs.Evaluation.Locality
import Rollforward.Proofs.Formula.Literal

/-!
# `Rollforward.Proofs.Evaluation.Finite`: which formulas have a value that is not finite

The result of every operation and call is checked, and what a chain answers is taken to be finite
(`Chain.AnswersFinite`). What is left are numerals: a numeral from `overflow` on is read as
infinity, and nothing checks it. As an operand it does no harm, since the operation is checked. But
a formula that is nothing but such a numeral has an infinite value. `Formula.Overflows` are these
formulas, and `not_isFinite_evalFormula_iff` says that there are no others.
-/

set_option autoImplicit false

namespace Rollforward

open Formula (Expr Reference)

/-- The chain has no infinite answers, and none that are not numbers. -/
def Chain.AnswersFinite (chain : Chain) (context : Context) : Prop :=
  ∀ r v, chain.resolve r context = .ok v → v.isFinite = true

/-- The formula is nothing but a numeral that is too large for a double, signs and parentheses
aside. -/
def Formula.Overflows (formula : String) : Prop :=
  ∃ n, Formula.Writes formula n ∧ Decimal.overflow * 10 ^ n.places ≤ n.digits

/-- The digits of a natural number overflow from `Decimal.overflow` on. -/
theorem Formula.overflows_toDigits_iff (n : Nat) :
    Overflows (String.ofList (Nat.toDigits 10 n)) ↔ Decimal.overflow ≤ n := by
  constructor
  · rintro ⟨m, written, large⟩
    obtain rfl := written.unique (writes_toDigits n)
    simpa using large
  · intro large
    exact ⟨⟨n, 0⟩, writes_toDigits n, by simpa using large⟩

namespace Evaluation

variable {env : Environment}

/-- The check after an operation lets only finite results through. -/
theorem isFinite_of_finite {operation : String} {x v : Float} (h : finite operation x = .ok v) :
    v.isFinite = true := by
  unfold finite at h
  split at h
  · next isFinite => exact Except.ok.inj h ▸ isFinite
  · cases h

/-- Every operation on two numbers is checked. -/
theorem isFinite_of_applyBinary {op : Formula.BinaryOp} {x y v : Float}
    (h : applyBinary op x y = .ok v) : v.isFinite = true := by
  unfold applyBinary at h
  split at h
  · cases h
  · exact isFinite_of_finite h

/-- So is every call, also of a function that the caller has registered. -/
theorem isFinite_of_eval_call {name : String} {args : List Expr} {v : Float}
    (h : eval env (.call name args) = .ok v) : v.isFinite = true := by
  rw [eval] at h
  split at h
  · cases h
  · split at h
    · cases h
    · exact isFinite_of_finite h

/-- A sign is not checked, and it need not be: it keeps a number finite or not. -/
theorem isFinite_applyUnary (op : Formula.UnaryOp) (x : Float) :
    (applyUnary op x).isFinite = x.isFinite := by
  cases op with
  | negate => exact Decimal.isFinite_neg x
  | plus => rfl

/-- A number behind signs is as finite as the number. -/
theorem exists_eval_of_number? (env : Environment) {e : Expr} {x : Float}
    (number : e.number? = some x) :
    ∃ v, eval env e = .ok v ∧ v.isFinite = x.isFinite := by
  induction e using Expr.induction_on_operands with
  | number y => exact ⟨y, by rw [eval], by rw [Option.some.inj number]⟩
  | unary op operand ih =>
      obtain ⟨v, value, same⟩ := ih number
      refine ⟨applyUnary op v, ?_, (isFinite_applyUnary op v).trans same⟩
      rw [eval, value]
  | text | reference | binary | call => cases number

/-- Whatever else has a value has a finite one. -/
theorem isFinite_of_eval (answers : env.chain.AnswersFinite env.context) {e : Expr} {v : Float}
    (value : eval env e = .ok v) (none : e.number? = none) : v.isFinite = true := by
  induction e using Expr.induction_on_operands generalizing v with
  | number x => cases none
  | text s =>
      rw [eval] at value
      cases value
  | reference r =>
      rw [eval] at value
      exact answers r v value
  | unary op operand ih =>
      obtain ⟨x, hx, rfl⟩ := eval_unary_eq_ok_iff.1 value
      rw [isFinite_applyUnary]
      exact ih hx none
  | binary op left right =>
      obtain ⟨x, y, -, -, applied⟩ := eval_binary_eq_ok_iff.1 value
      exact isFinite_of_applyBinary applied
  | call name args => exact isFinite_of_eval_call value

/-! ### Formula texts -/

/-- The number of a literal is infinite where the literal overflows. -/
theorem overflows_iff {formula : String} {e : Expr} (parsed : Formula.parse formula = .ok e) :
    Formula.Overflows formula ↔ ∃ x, e.number? = some x ∧ x.isFinite = false := by
  have infinite (n : Decimal.Numeral) :
      n.toFloat.isFinite = false ↔ Decimal.overflow * 10 ^ n.places ≤ n.digits := by
    rw [← Bool.not_eq_true, n.isFinite_toFloat_iff, Nat.not_lt]
  simp only [Formula.number?_eq_some_iff parsed, Formula.Overflows, ← infinite]
  constructor
  · rintro ⟨n, written, large⟩
    exact ⟨_, ⟨n, written, rfl⟩, large⟩
  · rintro ⟨-, ⟨n, written, rfl⟩, large⟩
    exact ⟨n, written, large⟩

/-- A parsed formula with a value has a finite one unless it overflows. -/
theorem isFinite_eval_iff (answers : env.chain.AnswersFinite env.context) {formula : String}
    {e : Expr} (parsed : Formula.parse formula = .ok e) {v : Float} (value : eval env e = .ok v) :
    v.isFinite = true ↔ ¬Formula.Overflows formula := by
  rw [overflows_iff parsed]
  cases number : e.number? with
  | none =>
      have finite := isFinite_of_eval answers value number
      simp [finite]
  | some x =>
      obtain ⟨v', value', same⟩ := exists_eval_of_number? env number
      obtain rfl : v = v' := Except.ok.inj (value.symm.trans value')
      simp [same]

/-- With finite answers, the formulas with a value that is not finite are those that overflow. -/
theorem not_isFinite_evalFormula_iff (answers : env.chain.AnswersFinite env.context)
    (formula : String) :
    (∃ v, evalFormula env formula = .ok v ∧ v.isFinite = false) ↔ Formula.Overflows formula := by
  constructor
  · rintro ⟨v, value, infinite⟩
    unfold evalFormula at value
    split at value
    · cases value
    · next e parsed =>
      by_contra bounded
      have finite := (isFinite_eval_iff answers parsed value).2 bounded
      exact absurd finite (by rw [infinite]; decide)
  · intro overflows
    obtain ⟨n, written, -⟩ := id overflows
    obtain ⟨e, parsed, number⟩ := Formula.exists_parse_of_writes written
    obtain ⟨v, value, -⟩ := exists_eval_of_number? env number
    refine ⟨v, (evalFormula_of_parse parsed env).trans value, ?_⟩
    rw [← Bool.not_eq_true, isFinite_eval_iff answers parsed value]
    exact not_not.2 overflows

end Evaluation

end Rollforward
