import Rollforward.Decimal.Text
import Rollforward.Json.Field
import Rollforward.Json.Quantity
import Rollforward.Json.Reader
import Rollforward.Json.Writer
import Rollforward.Time.Clock

/-!
# `Rollforward.Options`: options of a calculation
-/

set_option autoImplicit false

namespace Rollforward

open Json (orDefault toBool? toFloat? toIntWithin? partsOf)

/-- The options of a calculation. -/
structure Options where
  /-- Whether an error found by a rule of the template fails the period. -/
  strict : Bool := false
  /-- The tolerance of rules that have none of their own. -/
  tolerance : Float := 0.01
  /-- The time index of the first period of a run. -/
  start : Int := 0
  deriving Repr

namespace Options

/-- Why a text gives no options. -/
inductive Defect where
  | malformed
  | badTolerance (x : Float)
  deriving Repr

/-- The defect in words. -/
def Defect.message : Defect → String
  | .malformed => "Invalid configuration: invalid engine options"
  | .badTolerance x =>
    "Invalid configuration: tolerance must be a non-negative number, got " ++ Decimal.plain x

/-- The names of the fields of options. -/
def fields : List Json.FieldNames := [["strict"], ["tolerance"], ["start_time_index"]]

/-- The options as a value. -/
def toJson (o : Options) : Json :=
  .record [("strict", .bool o.strict), ("tolerance", .float o.tolerance),
    ("start_time_index", .int o.start)]

/-- The options of a value. -/
def ofJson? (v : Json) : Option Options :=
  match partsOf fields v with
  | some [strict, tolerance, start] => do
    return {
      strict := ← orDefault toBool? false strict
      tolerance := ← orDefault toFloat? 0.01 tolerance
      start := ← orDefault (toIntWithin? Clock.lowest Clock.highest) 0 start }
  | _ => none

/-- Options that a calculation can use: the tolerance is a number and not negative. -/
def check (o : Options) : Except Defect Options :=
  if o.tolerance.isFinite && decide (0.0 ≤ o.tolerance) then .ok o
  else .error (.badTolerance o.tolerance)

/-- The options that a text writes. -/
def read (s : String) : Except Defect Options :=
  match (Json.read s).bind ofJson? with
  | none => .error .malformed
  | some o => o.check

/-- The options as text. -/
def write (o : Options) : String := o.toJson.toText

end Options

end Rollforward
