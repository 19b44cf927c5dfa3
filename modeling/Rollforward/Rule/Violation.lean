import Rollforward.Decimal.Text
import Rollforward.Json.Quantity
import Rollforward.Rule.Basic

/-!
# `Rollforward.Rule.Violation`: what a rule found wrong
-/

set_option autoImplicit false

namespace Rollforward

/-- A rule that did not hold. -/
structure Violation where
  rule : String
  kind : RuleKind
  severity : Severity
  /-- The value of the rule, if it has one. -/
  value : Option Float
  message : String
  deriving Repr

namespace Violation

/-- Whether the violation is an error. -/
def isError (v : Violation) : Bool := v.severity == .error

/-- How many decimal places of a value are shown. -/
def shownPlaces : Nat := 6

/-- The violation in words. -/
def text (v : Violation) : String :=
  "[" ++ v.rule ++ "] " ++ v.message
    ++ match v.value with
      | some x => " (value " ++ Decimal.fixed shownPlaces x ++ ")"
      | none => ""

/-- The violation as a value. -/
def toJson (v : Violation) : Json :=
  .record [("rule_id", .text v.rule), ("kind", .text v.kind.name),
    ("severity", .text v.severity.name), ("value", .optional .float v.value),
    ("message", .text v.message)]

end Violation

end Rollforward
