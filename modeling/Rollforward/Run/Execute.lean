import Rollforward.Period.Cancellation
import Rollforward.Run.Basic

/-!
# `Rollforward.Run.Execute`: running a plan

Periods follow one another: what one closes with is history to those after it. A run ends at the
first period that fails and keeps those before it. Whether it is to be cancelled is looked up only
between periods.
-/

set_option autoImplicit false

namespace Rollforward

/-- Who may ask a run to be cancelled, and when. -/
structure Switch where
  /-- Whether someone outside has asked by the time the period of a number begins. -/
  pressed : Nat → Bool
  /-- Whether the functions hold the switch too. -/
  shared : Bool

/-- The switch that nobody holds. -/
def Switch.untouched : Switch := ⟨fun _ => false, false⟩

/-- Where the raw inputs of an entity and scenario come from; a message if there are none. -/
abbrev RawSource := String → Nat → Except String (List RawInput)

/-- What runs plans. -/
structure Runner where
  statement : Statement
  functions : Registry
  options : Options
  /-- Rules that hold in every period of a run. -/
  invariants : List Check
  source : Option RawSource
  /-- What is asked after the statement itself and the raw inputs. -/
  providers : Chain

namespace Runner

/-- The raw inputs of a plan as a provider, for a run that has a source of them. -/
def rawProvider (r : Runner) (plan : Plan) : Except RunError Chain :=
  match r.source with
  | none => .ok []
  | some load =>
    match load plan.entity plan.scenario with
    | .error message => .error (.noRawInputs plan.entity plan.scenario message)
    | .ok records =>
      let inputs := RawInputs.ofRecords plan.entity plan.scenario records
      let calendar := Calendar.sequential r.options.start plan.periods
      .ok [.rawInput inputs r.statement.claims calendar]

/-- What calculates the periods of a plan. -/
def calculator (r : Runner) (plan : Plan) : Except RunError Calculator :=
  if plan.fits r.options.start then
    match r.rawProvider plan with
    | .error e => .error e
    | .ok raw => .ok ⟨r.statement, r.functions, r.options, raw ++ r.providers⟩
  else .error (.outsideClock plan.periods.length r.options.start)

/-- Calculates a period and checks the invariants. Their warnings follow those of the template. -/
def closePeriod (c : Calculator) (invariants : List Check) (history : Series) (context : Context) :
    Except RunError Closing :=
  match c.calculateIn history context with
  | .error e => .error (.period e)
  | .ok closing =>
    let found := c.check invariants history context closing.values
    let errors := found.filter Violation.isError
    if errors.isEmpty then
      .ok { closing with
        violations := closing.violations ++ found.filter fun v => v.isError == false }
    else .error (.invariantsFailed errors)

/-- Whether a call in a period asks for the run to be cancelled. -/
def periodCancels (c : Calculator) (invariants : List Check) (history : Series)
    (context : Context) : Bool :=
  c.calculateCancels history context ||
    match c.calculateIn history context with
    | .error _ => false
    | .ok closing => c.checkCancels invariants history context closing.values

/-- The periods of a plan from number `index` on. -/
def proceed (r : Runner) (c : Calculator) (plan : Plan) (switch : Switch) (index : Nat)
    (history : Series) (asked : Bool) : List Nat → Outcome
  | [] => ⟨[], .completed, asked⟩
  | p :: ps =>
    -- The only place where the switch is looked at.
    if asked || switch.pressed index then ⟨[], .failed ⟨index, p, .cancelled⟩, true⟩
    else
      let context : Context := ⟨plan.entity, plan.scenario, p, r.options.start + index⟩
      let asks := switch.shared && periodCancels c r.invariants history context
      match closePeriod c r.invariants history context with
      | .error e => ⟨[], .failed ⟨index, p, e⟩, asks⟩
      | .ok closing =>
        -- What was assumed for this time is overruled by what came of it.
        let history := history.insert context.time closing.values
        let rest := proceed r c plan switch (index + 1) history asks ps
        { rest with closings := closing :: rest.closings }

/-- Runs a plan. What fails before the first period counts as its failure. -/
def execute (r : Runner) (plan : Plan) (switch : Switch) : Outcome :=
  match r.calculator plan with
  | .error e => ⟨[], .failed ⟨0, plan.periods.head?.getD 0, e⟩, switch.pressed 0⟩
  | .ok c => r.proceed c plan switch 0 (plan.history r.options.start) false plan.periods

/-- Runs a plan that nobody can cancel. -/
def run (r : Runner) (plan : Plan) : Except Failure (List Closing) :=
  (r.execute plan .untouched).result

/-- Runs plans that know nothing of one another. -/
def runAll (r : Runner) (plans : List Plan) : List (Except Failure (List Closing)) :=
  plans.map r.run

end Runner

end Rollforward
