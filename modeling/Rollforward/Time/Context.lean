import Rollforward.Json.Value
import Rollforward.Time.Clock

/-!
# `Rollforward.Time.Context`: what a calculation is about

A context names an entity, a scenario and a period. The time index places the period on the clock
and is all that offsets look at; it need not be the period's number.
-/

set_option autoImplicit false

namespace Rollforward

/-- The entity, scenario and period that are calculated. -/
structure Context where
  entity : String
  scenario : Nat
  period : Nat
  time : Int
  deriving Repr, DecidableEq

namespace Context

/-- The time index `offset` periods from here, if the clock has it. -/
def shift? (c : Context) (offset : Int) : Option Int := Clock.shift? c.time offset

/-- The context in words. -/
def text (c : Context) : String :=
  "entity=" ++ c.entity ++ " scenario=" ++ toString c.scenario ++ " period="
    ++ toString c.period ++ " t=" ++ toString c.time

/-- The context as a value. -/
def toJson (c : Context) : Json :=
  .record [("entity_id", .text c.entity), ("scenario_id", .nat c.scenario),
    ("period_id", .nat c.period), ("time_index", .int c.time)]

end Context

end Rollforward
