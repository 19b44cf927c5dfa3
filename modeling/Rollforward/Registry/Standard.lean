import Rollforward.Registry.Basic

/-!
# `Rollforward.Registry.Standard`: the functions that every formula may call
-/

set_option autoImplicit false

namespace Rollforward.Registry

/-- The arguments as numbers. -/
def numbers (args : List Arg) : Except EvalError (List Float) := args.mapM Arg.toNumber

/-- Adds from the left. The sum starts from negative zero, so negative zeros alone add up to
negative zero. -/
def total (xs : List Float) : Float := xs.foldl (· + ·) (-0.0)

/-- The smaller of two numbers: the first if they are equal, the other if one is no number. -/
def lesser (x y : Float) : Float := if x.isNaN || y < x then y else x

/-- The larger of two numbers: the first if they are equal, the other if one is no number. -/
def greater (x y : Float) : Float := if x.isNaN || x < y then y else x

/-- Positive infinity. -/
def infinity : Float := 1.0 / 0.0

/-- A function of numbers. -/
def ofNumbers (f : List Float → Float) : Callable where
  run args _ := (numbers args).map f

/-- The sum. -/
def sum : Callable := ofNumbers total

/-- The mean. -/
def mean : Callable := ofNumbers fun xs => total xs / Float.ofNat xs.length

/-- The least number. -/
def least : Callable := ofNumbers (·.foldl lesser infinity)

/-- The greatest number. -/
def greatest : Callable := ofNumbers (·.foldl greater (-infinity))

/-- The magnitude of the one argument. -/
def magnitude : Callable where
  run args _ :=
    match args with
    | [arg] => arg.toNumber.map Float.abs
    | _ => .error (.wrongArity "ABS" [.exact 1] args.length)

/-- The second argument where the first is not zero, else the third. All three are evaluated before
the choice is made. -/
def choice : Callable where
  run args _ :=
    match args with
    -- The branch that is not chosen may be text.
    | [condition, yes, no] =>
      match condition.toNumber with
      | .error e => .error e
      | .ok x => if x != 0.0 then yes.toNumber else no.toNumber
    | _ => .error (.wrongArity "IF" [.exact 3] args.length)

/-- The functions that every formula may call. -/
def standard : Registry :=
  empty
    |>.register "SUM" (.atLeast 1) sum
    |>.register "AVG" (.atLeast 1) mean
    |>.register "MIN" (.atLeast 1) least
    |>.register "MAX" (.atLeast 1) greatest
    |>.register "ABS" (.exact 1) magnitude
    |>.register "IF" (.exact 3) choice

end Rollforward.Registry
