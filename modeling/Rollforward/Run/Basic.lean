import Rollforward.Period.Basic
import Rollforward.Provider.RawInput

/-!
# `Rollforward.Run.Basic`: plans and outcomes of runs
-/

set_option autoImplicit false

namespace Rollforward

/-- What is to be run: one entity and scenario over periods. -/
structure Plan where
  entity : String
  scenario : Nat
  periods : List Nat
  /-- The values before the first period. -/
  opening : Option Snapshot
  /-- Values assumed for other times. -/
  lookahead : Series
  deriving Repr

namespace Plan

/-- The number of the last period, zero if there is none. -/
def lastIndex (p : Plan) : Nat := p.periods.length - 1

/-- Whether the clock has a time for every period when the first stands at `start`, and one for the
opening, if there is any. -/
def fits (p : Plan) (start : Int) : Bool :=
  (p.opening.isNone || decide (Clock.lowest ≤ start - 1))
    && decide ((p.lastIndex : Int) ≤ Clock.highest)
    && decide (start + (p.lastIndex : Int) ≤ Clock.highest)

/-- What is known before the first period. The opening takes precedence over what was assumed for
its time. -/
def history (p : Plan) (start : Int) : Series :=
  match p.opening with
  | none => p.lookahead
  | some values => p.lookahead.insert (start - 1) values

end Plan

/-- Why a run came to an end before its last period. -/
inductive RunError where
  /-- The clock has no room for all the periods. -/
  | outsideClock (periods : Nat) (start : Int)
  | noRawInputs (entity : String) (scenario : Nat) (message : String)
  | period (e : PeriodError)
  /-- Invariants found errors. -/
  | invariantsFailed (violations : List Violation)
  | cancelled
  deriving Repr

/-- The error in words. -/
def RunError.message : RunError → String
  | .outsideClock periods start =>
    "Invalid configuration: " ++ toString periods ++ " period(s) starting at t=" ++ toString start
      ++ " leave the time index range"
  | .noRawInputs entity scenario message =>
    "Raw inputs for entity '" ++ entity ++ "' scenario " ++ toString scenario ++ " unavailable: "
      ++ message
  | .period e => e.message
  | .invariantsFailed violations =>
    toString violations.length ++ " cross-period invariant(s) failed"
  | .cancelled => "Run cancelled"

/-- The first period that failed. -/
structure Failure where
  /-- Its number in the plan. -/
  index : Nat
  /-- The period itself. -/
  period : Nat
  cause : RunError
  deriving Repr

/-- The failure in words. -/
def Failure.message (f : Failure) : String :=
  "Period " ++ toString f.index ++ " (id " ++ toString f.period ++ ") failed: " ++ f.cause.message

/-- How a run ended. -/
inductive Ending where
  | completed
  | failed (f : Failure)
  deriving Repr

/-- The outcome of a run. -/
structure Outcome where
  /-- The periods closed before the end. -/
  closings : List Closing
  ending : Ending
  /-- Whether the run was asked to be cancelled. -/
  cancelled : Bool
  deriving Repr

/-- The closed periods of a completed run, or why it failed. -/
def Outcome.result (o : Outcome) : Except Failure (List Closing) :=
  match o.ending with
  | .completed => .ok o.closings
  | .failed f => .error f

end Rollforward
