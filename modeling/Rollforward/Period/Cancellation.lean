import Rollforward.Period.Calculate

/-!
# `Rollforward.Period.Cancellation`: periods in which a run is asked to be cancelled

A period in progress is never cut short, so whether a call in it asks is a question of its own.
-/

set_option autoImplicit false

namespace Rollforward.Calculator

/-- Whether the evaluation of an item asks. -/
def itemCancels (env : Environment) (i : Statement.Item) : Bool :=
  match i.formula with
  | some f => Evaluation.cancels env f.expr
  | none => false

/-- Whether the evaluation of the items at some positions asks, up to the first without a value. -/
def fillCancels (c : Calculator) (history : Series) (context : Context) (ledger : Ledger) :
    List Nat → Bool
  | [] => false
  | p :: ps =>
    match c.statement.items[p]? with
    | none => fillCancels c history context ledger ps
    | some i =>
      let env := c.itemEnvironment history context ledger
      itemCancels env i ||
        match evalItem env i with
        | .error _ => false
        | .ok v =>
          match ledger.insert? p v with
          | none => false
          | some ledger => fillCancels c history context ledger ps

/-- Whether the rules ask, once the period is closed. -/
def checkCancels (c : Calculator) (rules : List Check) (history : Series) (context : Context)
    (values : Snapshot) : Bool :=
  Check.cancels rules (c.ruleEnvironment history context values) values

/-- Whether the calculation of a period asks. -/
def calculateCancels (c : Calculator) (history : Series) (context : Context) : Bool :=
  c.fillCancels history context (.ofSize c.statement.items.length) c.statement.order ||
    match c.ledger history context with
    | .error _ => false
    | .ok ledger =>
      c.checkCancels c.statement.checks history context (close c.statement.items ledger)

end Rollforward.Calculator
