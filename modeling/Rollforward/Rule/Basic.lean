/-!
# `Rollforward.Rule.Basic`: rules on closed periods

A rule is a formula with a verdict on its value. What is found wrong is a violation, an error or a
warning as the rule says.
-/

set_option autoImplicit false

namespace Rollforward

/-- What the value of a rule has to be. -/
inductive RuleKind where
  /-- Zero, up to the tolerance. -/
  | equation
  /-- Not negative, up to the tolerance. -/
  | boundary
  /-- Not zero, as of a comparison that holds. -/
  | assertion
  deriving Repr, DecidableEq

namespace RuleKind

/-- Whether a value is what it has to be. -/
def passes (k : RuleKind) (value tolerance : Float) : Bool :=
  match k with
  | .equation => value.abs ≤ tolerance
  | .boundary => value ≥ -tolerance
  | .assertion => value != 0.0

/-- The kind by name. -/
def name : RuleKind → String
  | .equation => "equation"
  | .boundary => "boundary"
  | .assertion => "assertion"

/-- The kind of a name; equations are also called reconciliations. -/
def ofName? (s : String) : Option RuleKind :=
  if s = "equation" ∨ s = "reconciliation" then some .equation
  else if s = "boundary" then some .boundary
  else if s = "assertion" then some .assertion
  else none

end RuleKind

/-- How grave a violation is. -/
inductive Severity where
  | warning
  | error
  deriving Repr, DecidableEq

namespace Severity

/-- The severity by name. -/
def name : Severity → String
  | .warning => "warning"
  | .error => "error"

/-- The severity of a name. -/
def ofName? (s : String) : Option Severity :=
  if s = "warning" then some .warning else if s = "error" then some .error else none

end Severity

/-- A rule as it is declared. -/
structure Rule where
  id : String
  formula : String
  kind : RuleKind := .assertion
  /-- The tolerance, where it is not the general one. -/
  tolerance : Option Float := none
  severity : Severity := .error
  /-- What a violation says; empty for a general text. -/
  message : String := ""
  /-- The codes without which the rule is not checked. -/
  requiredItems : List String := []
  deriving Repr, DecidableEq

/-- What a violation of the rule says. -/
def Rule.describe (r : Rule) : String :=
  if r.message = "" then "rule '" ++ r.formula ++ "' failed" else r.message

end Rollforward
