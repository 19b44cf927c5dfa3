import Rollforward.Evaluation.Cancellation
import Rollforward.Rule.Violation

/-!
# `Rollforward.Rule.Check`: rules against a closed period
-/

set_option autoImplicit false

namespace Rollforward

/-- A rule with its formula parsed. -/
structure Check where
  rule : Rule
  expr : Formula.Expr
  deriving Repr

namespace Check

/-- Whether a violation of the rule is an error. -/
def isError (c : Check) : Bool := c.rule.severity == .error

/-- Parses the formula of a rule, blanks around it included. -/
def ofRule (r : Rule) : Except Formula.SyntaxError Check :=
  (Formula.parse r.formula).map fun e => ⟨r, e⟩

/-- Whether a period has all that the rule needs. -/
def applies (c : Check) (values : Snapshot) : Bool :=
  c.rule.requiredItems.all fun code => values.contains code

/-- A violation of the rule. -/
def violation (c : Check) (value : Option Float) (message : String) : Violation :=
  ⟨c.rule.id, c.rule.kind, c.rule.severity, value, message⟩

/-- What the rule finds wrong with its value. -/
def judge (c : Check) (tolerance : Float) : Except EvalError Float → Option Violation
  | .ok v =>
    if c.rule.kind.passes v (c.rule.tolerance.getD tolerance) then none
    else some (c.violation (some v) c.rule.describe)
  | .error e => some (c.violation none (c.rule.describe ++ ": " ++ e.message))

/-- What the rule finds wrong with a period. `tolerance` is the general one. -/
def violation? (c : Check) (env : Environment) (tolerance : Float) (values : Snapshot) :
    Option Violation :=
  if c.applies values then c.judge tolerance (Evaluation.eval env c.expr) else none

/-- What rules find wrong with a period, in their order. -/
def violations (cs : List Check) (env : Environment) (tolerance : Float) (values : Snapshot) :
    List Violation :=
  cs.filterMap fun c => c.violation? env tolerance values

/-- Whether checking asks for the run to be cancelled. -/
def cancels (cs : List Check) (env : Environment) (values : Snapshot) : Bool :=
  cs.any fun c => c.applies values && Evaluation.cancels env c.expr

end Check

end Rollforward
