import Rollforward.Evaluation.Basic

/-!
# `Rollforward.Evaluation.Cancellation`: calls that ask for a run to be cancelled

A function may hold the switch of the run that it is called in. Asking has no part in the value of
an expression, so it is told by a walk of its own: a call asks when it is reached, that is when
everything before it has a value.
-/

set_option autoImplicit false

namespace Rollforward.Evaluation

open Formula (Expr)

/-- Whether a call asks, once its arguments are known. -/
def callCancels (env : Environment) (name : String) (args : List Expr) : Bool :=
  match env.functions.lookup name args.length with
  | .error _ => false
  | .ok f =>
    match f.cancels with
    | none => false
    -- Only a function that holds the switch is worth evaluating the arguments for.
    | some asks =>
      match evalArgs env args with
      | .error _ => false
      | .ok values => asks values env.context

mutual

/-- Whether a call that the evaluation of an expression reaches asks. -/
def cancels (env : Environment) : Expr → Bool
  | .number _ => false
  | .text _ => false
  | .reference _ => false
  | .unary _ operand => cancels env operand
  -- The right operand is reached when the left one has a value.
  | .binary _ left right =>
    cancels env left || (cancels env right && (eval env left).isOk)
  | .call name args => cancelsArgs env args || callCancels env name args

/-- Whether a call that the evaluation of some arguments reaches asks. -/
def cancelsArgs (env : Environment) : List Expr → Bool
  | [] => false
  | .text _ :: es => cancelsArgs env es
  | e :: es => cancels env e || (cancelsArgs env es && (eval env e).isOk)

end

end Rollforward.Evaluation
