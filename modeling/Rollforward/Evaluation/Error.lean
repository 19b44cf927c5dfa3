import Rollforward.Formula.Fault
import Rollforward.Formula.Reference

/-!
# `Rollforward.Evaluation.Error`: why an expression has no value

A call fails where its function does not take so many arguments, so the error says how many it takes
(`Arity`). A provider that claims a reference may have a gap there (`Gap`).
-/

set_option autoImplicit false

namespace Rollforward

open Formula (Reference)

/-- How many arguments a function takes. -/
inductive Arity where
  | exact (n : Nat)
  | atLeast (n : Nat)
  deriving Repr, DecidableEq

namespace Arity

/-- Whether the function takes `count` arguments. -/
def accepts : Arity → Nat → Bool
  | .exact n, count => count == n
  | .atLeast n, count => decide (n ≤ count)

/-- The number in words. -/
def text : Arity → String
  | .exact n => toString n
  | .atLeast n => "at least " ++ toString n

end Arity

/-- What a provider lacks for a reference that it claims. -/
inductive Gap where
  | noValueAt (time : Int)
  | noRecord (key : String) (period : Nat) (entity : String) (scenario : Nat)
  | notYetComputed
  deriving Repr, DecidableEq

/-- The gap in words. -/
def Gap.message : Gap → String
  | .noValueAt time => "no value at t=" ++ toString time
  | .noRecord key period entity scenario =>
    "no raw input '" ++ key ++ "' for period " ++ toString period ++ " (entity '" ++ entity
      ++ "', scenario " ++ toString scenario ++ ")"
  | .notYetComputed => "not yet computed in this period"

/-- Why an expression has no value. -/
inductive EvalError where
  | malformed (source : Formula.SyntaxError)
  /-- No provider claims the reference. -/
  | unresolved (r : Reference)
  /-- Nothing is known of the time ahead that the reference looks at. -/
  | noFutureValue (r : Reference) (time : Int)
  /-- Nothing is known of the time behind that the reference looks at. -/
  | noPriorValue (r : Reference) (time : Int)
  | divisionByZero
  | unknownFunction (name : String)
  | wrongArity (name : String) (expected : List Arity) (given : Nat)
  | invalidArgument (name message : String)
  | textAsNumber (s : String)
  | nonFinite (operation : String)
  /-- A provider claims the reference and has no value for it. -/
  | gap (provider : String) (r : Reference) (what : Gap)
  deriving Repr, DecidableEq

/-- The error in words. -/
def EvalError.message : EvalError → String
  | .malformed source => source.message
  | .unresolved r => "No provider claims '" ++ r.text ++ "'"
  | .noFutureValue r time => "No lookahead value for '" ++ r.text ++ "' at t=" ++ toString time
  | .noPriorValue r time => "No prior value for '" ++ r.text ++ "' at t=" ++ toString time
  | .divisionByZero => "Division by zero"
  | .unknownFunction name => "Unknown function '" ++ name ++ "'"
  | .wrongArity name expected given =>
    name ++ " expects " ++ " or ".intercalate (expected.map Arity.text) ++ " argument(s), got "
      ++ toString given
  | .invalidArgument name message => "Invalid argument to " ++ name ++ ": " ++ message
  | .textAsNumber s => "Text \"" ++ s ++ "\" used where a number is required"
  | .nonFinite operation => "Non-finite result from " ++ operation
  | .gap provider r what =>
    "Provider '" ++ provider ++ "' failed on '" ++ r.text ++ "': " ++ what.message

end Rollforward
