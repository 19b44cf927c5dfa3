import Rollforward.Evaluation.Error
import Rollforward.Rule.Violation
import Rollforward.Snapshot.Json
import Rollforward.Time.Context

/-!
# `Rollforward.Period.Basic`: the result of a period
-/

set_option autoImplicit false

namespace Rollforward

/-- A closed period. -/
structure Closing where
  context : Context
  values : Snapshot
  /-- The values of the period before, if they are known. -/
  opening : Option Snapshot
  violations : List Violation
  deriving Repr

namespace Closing

/-- The value of a code. -/
def get? (c : Closing) (code : String) : Option Float := c.values.get? code

/-- The period as a value, without its opening. -/
def toJson (c : Closing) : Json :=
  .record [("context", c.context.toJson), ("values", c.values.toJson),
    ("violations", .array (c.violations.map Violation.toJson))]

/-- The period as text. -/
def write (c : Closing) : String := c.toJson.toText

end Closing

/-- Why a period has no result. -/
inductive PeriodError where
  /-- An item has no value. -/
  | item (code sourceText : String) (source : EvalError)
  | writtenTwice (code : String)
  /-- Rules of the template found errors. -/
  | rulesFailed (violations : List Violation)
  /-- The clock has no time before the period for its opening. -/
  | noTimeBefore (time : Int)
  deriving Repr

/-- The error in words. -/
def PeriodError.message : PeriodError → String
  | .item code sourceText source =>
    let place := "'" ++ code ++ "' (" ++ sourceText ++ ")"
    match source with
    | .malformed e => "Cannot parse formula of " ++ place ++ ": " ++ e.message
    | .unresolved r => "Unresolved reference '" ++ r.text ++ "' in " ++ place
    | .noFutureValue r time =>
      "No future value for '" ++ r.text ++ "' at t=" ++ toString time ++ " in " ++ place
    | other => "Evaluation of " ++ place ++ " failed: " ++ other.message
  | .writtenTwice code => "Line item '" ++ code ++ "' was written twice in one period"
  | .rulesFailed violations => toString violations.length ++ " validation rule(s) failed"
  | .noTimeBefore time =>
    "Invalid configuration: no period precedes t=" ++ toString time ++ " to hold the opening state"

end Rollforward
