import Rollforward.Options
import Rollforward.Period.Basic
import Rollforward.Provider.Statement

/-!
# `Rollforward.Period.Calculate`: calculating a period

Every item is evaluated once, in the order of evaluation, against the items before it and the
providers. A period has a result as a whole or not at all.
-/

set_option autoImplicit false

namespace Rollforward

open Formula (Reference)

/-- What calculates periods. -/
structure Calculator where
  statement : Statement
  functions : Registry
  options : Options
  /-- What is asked after the statement itself. -/
  providers : Chain

namespace Calculator

/-- What items are evaluated in, while the ledger is filled. -/
def itemEnvironment (c : Calculator) (history : Series) (context : Context) (ledger : Ledger) :
    Environment :=
  ⟨.statement c.statement ledger history :: c.providers, c.functions, context⟩

/-- What rules are evaluated in, once the period is closed. -/
def ruleEnvironment (c : Calculator) (history : Series) (context : Context) (values : Snapshot) :
    Environment :=
  ⟨.snapshot values history :: c.providers, c.functions, context⟩

/-- The value of an item: of its formula, or of its bare code when it has none. -/
def evalItem (env : Environment) (i : Statement.Item) : Except EvalError Float :=
  match i.formula with
  | some f => Evaluation.eval env f.expr
  | none => env.chain.resolve (.bare i.code) env.context

/-- Evaluates the items at some positions, one after the other, into the ledger. -/
def fill (c : Calculator) (history : Series) (context : Context) (ledger : Ledger) :
    List Nat → Except PeriodError Ledger
  | [] => .ok ledger
  | p :: ps =>
    match c.statement.items[p]? with
    -- The order holds positions of items only.
    | none => fill c history context ledger ps
    | some i =>
      match evalItem (c.itemEnvironment history context ledger) i with
      | .error e => .error (.item i.code i.sourceText e)
      | .ok v =>
        match ledger.insert? p v with
        | none => .error (.writtenTwice i.code)
        | some ledger => fill c history context ledger ps

/-- The ledger of a period with every item. -/
def ledger (c : Calculator) (history : Series) (context : Context) : Except PeriodError Ledger :=
  c.fill history context (.ofSize c.statement.items.length) c.statement.order

/-- The snapshot that a ledger closes into. -/
def close (items : List Statement.Item) (ledger : Ledger) : Snapshot :=
  .ofList (items.zipIdx.filterMap fun (i, p) => (ledger.get? p).map fun v => (i.code, v))

/-- What rules find wrong with a closed period. -/
def check (c : Calculator) (rules : List Check) (history : Series) (context : Context)
    (values : Snapshot) : List Violation :=
  Check.violations rules (c.ruleEnvironment history context values) c.options.tolerance values

/-- Calculates a period with what is known of other times. -/
def calculateIn (c : Calculator) (history : Series) (context : Context) :
    Except PeriodError Closing :=
  match c.ledger history context with
  | .error e => .error e
  | .ok ledger =>
    let values := close c.statement.items ledger
    let violations := c.check c.statement.checks history context values
    let errors := violations.filter Violation.isError
    if c.options.strict && errors.isEmpty == false then .error (.rulesFailed errors)
    else .ok ⟨context, values, (context.shift? (-1)).bind history.get?, violations⟩

/-- Calculates a period of which only the one before is known. -/
def calculate (c : Calculator) (opening : Option Snapshot) (context : Context) :
    Except PeriodError Closing :=
  match opening with
  | none => c.calculateIn .empty context
  | some values =>
    match context.shift? (-1) with
    | none => .error (.noTimeBefore context.time)
    | some t => c.calculateIn (Collection.OrderedMap.empty.insert t values) context

end Calculator

end Rollforward
