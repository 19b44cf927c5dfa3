import Rollforward.Run.Execute

/-!
# `Rollforward.Run.Report`: what a run reports while it goes on

A run keeps a report up to date: how far it is, which periods are closed, and what has failed. These
are written at different moments and by different ways to end, so nothing in the type makes them fit
together.
-/

set_option autoImplicit false

namespace Rollforward

/-- How far a run is. -/
inductive Status where
  /-- Nothing is under way yet. -/
  | pending
  /-- The period of a number is under way. -/
  | running (index : Nat)
  | completed
  /-- The run ended at the period of a number. -/
  | failed (index : Nat)
  deriving Repr, DecidableEq

/-- Whether the run is over. -/
def Status.isTerminal : Status → Bool
  | .completed => true
  | .failed _ => true
  | _ => false

/-- What a run reports. -/
structure Report where
  status : Status
  /-- The periods closed so far. -/
  closings : List Closing
  failure : Option Failure
  deriving Repr

namespace Report

/-- The report before anything is under way. -/
def blank : Report := ⟨.pending, [], none⟩

/-- A period gets under way. -/
def enter (o : Report) (index : Nat) : Report := { o with status := .running index }

/-- A period is closed. -/
def keep (o : Report) (closing : Closing) : Report := { o with closings := o.closings ++ [closing] }

/-- The run ends with a failure. -/
def fail (o : Report) (f : Failure) : Report :=
  { o with status := .failed f.index, failure := some f }

/-- The run ends behind its last period. -/
def complete (o : Report) : Report := { o with status := .completed }

end Report

namespace Runner

/-- Keeps a report up to date through the periods of a plan from number `index` on. -/
def track (r : Runner) (c : Calculator) (plan : Plan) (switch : Switch) (index : Nat)
    (history : Series) (asked : Bool) (o : Report) : List Nat → Report
  | [] => o.complete
  | p :: ps =>
    if asked || switch.pressed index then o.fail ⟨index, p, .cancelled⟩
    else
      let context : Context := ⟨plan.entity, plan.scenario, p, r.options.start + index⟩
      let o := o.enter index
      match closePeriod c r.invariants history context with
      | .error e => o.fail ⟨index, p, e⟩
      | .ok closing =>
        track r c plan switch (index + 1) (history.insert context.time closing.values)
          (switch.shared && periodCancels c r.invariants history context) (o.keep closing) ps

/-- Runs a plan and reports on it. -/
def report (r : Runner) (plan : Plan) (switch : Switch) : Report :=
  match r.calculator plan with
  | .error e => Report.blank.fail ⟨0, plan.periods.head?.getD 0, e⟩
  | .ok c => r.track c plan switch 0 (plan.history r.options.start) false .blank plan.periods

end Runner

end Rollforward
