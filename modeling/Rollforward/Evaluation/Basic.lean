import Rollforward.Formula.Parser
import Rollforward.Provider.Basic
import Rollforward.Registry.Basic

/-!
# `Rollforward.Evaluation.Basic`: the value of an expression

Operands and arguments are evaluated from left to right and the first error ends the evaluation.
The result of every operation and call has to be finite; numbers that are read, and signs put before
them, are taken as they are.
-/

set_option autoImplicit false

namespace Rollforward

open Formula (Expr UnaryOp BinaryOp)

/-- What an expression is evaluated in. -/
structure Environment where
  chain : Chain
  functions : Registry
  context : Context

namespace Evaluation

/-- A finite number, or the error that `operation` did not make one. -/
def finite (operation : String) (x : Float) : Except EvalError Float :=
  if x.isFinite then .ok x else .error (.nonFinite operation)

/-- A truth value as a number. -/
def truth (b : Bool) : Float := if b then 1.0 else 0.0

/-- A number behind a sign. -/
def applyUnary : UnaryOp → Float → Float
  | .negate, x => -x
  | .plus, x => x

/-- The result of an operation, whatever it is. -/
def combine : BinaryOp → Float → Float → Float
  | .add, x, y => x + y
  | .sub, x, y => x - y
  | .mul, x, y => x * y
  | .div, x, y => x / y
  | .pow, x, y => Float.pow x y
  | .less, x, y => truth (x < y)
  | .lessEq, x, y => truth (x ≤ y)
  | .greater, x, y => truth (x > y)
  | .greaterEq, x, y => truth (x ≥ y)
  | .equal, x, y => truth (x == y)
  | .unequal, x, y => truth (x != y)

/-- An operation on two numbers. Nothing is divided by zero. -/
def applyBinary (op : BinaryOp) (x y : Float) : Except EvalError Float :=
  if op = .div ∧ (y == 0.0) = true then .error .divisionByZero
  else finite op.sign (combine op x y)

mutual

/-- The value of an expression. -/
def eval (env : Environment) : Expr → Except EvalError Float
  | .number x => .ok x
  | .text s => .error (.textAsNumber s)
  | .reference r => env.chain.resolve r env.context
  | .unary op operand =>
    match eval env operand with
    | .error e => .error e
    | .ok x => .ok (applyUnary op x)
  | .binary op left right =>
    match eval env left with
    | .error e => .error e
    | .ok x =>
      match eval env right with
      | .error e => .error e
      | .ok y => applyBinary op x y
  | .call name args =>
    match evalArgs env args with
    | .error e => .error e
    | .ok values =>
      match env.functions.call name values env.context with
      | .error e => .error e
      | .ok x => finite name x

/-- The arguments of a call. Literal text is an argument by itself. -/
def evalArgs (env : Environment) : List Expr → Except EvalError (List Arg)
  | [] => .ok []
  -- Text has no value as an expression, so it is taken before `eval` would refuse it.
  | .text s :: es =>
    match evalArgs env es with
    | .error e => .error e
    | .ok values => .ok (.text s :: values)
  | e :: es =>
    match eval env e with
    | .error e => .error e
    | .ok x =>
      match evalArgs env es with
      | .error e => .error e
      | .ok values => .ok (.number x :: values)

end

/-- The value of a formula. -/
def evalFormula (env : Environment) (formula : String) : Except EvalError Float :=
  match Formula.parse formula with
  | .error e => .error (.malformed e)
  | .ok e => eval env e

end Evaluation

end Rollforward
