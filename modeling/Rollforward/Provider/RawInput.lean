import Rollforward.Provider.Basic
import Rollforward.Time.Clock

/-!
# `Rollforward.Provider.RawInput`: raw inputs

Raw inputs are recorded by key and period for one entity and scenario. A formula reads one as
`rawinput:KEY`; an item without formula takes its value from the key that the claims give it.
-/

set_option autoImplicit false

namespace Rollforward

open Formula (Reference)

/-- A raw input as it is recorded. -/
structure RawInput where
  key : String
  period : Nat
  value : Float
  deriving Repr

/-- The raw inputs of one entity and scenario. -/
structure RawInputs where
  entity : String
  scenario : Nat
  /-- The latest record first. -/
  records : List RawInput
  deriving Repr

namespace RawInputs

/-- Whether two records are of one key and period. -/
def sameSlot (a b : RawInput) : Bool := a.key == b.key && a.period == b.period

/-- The raw inputs of a row of records; of two for one key and period, the later counts. -/
def ofRecords (entity : String) (scenario : Nat) (records : List RawInput) : RawInputs :=
  ⟨entity, scenario, records.reverse⟩

/-- The value of a key in a period. -/
def get? (i : RawInputs) (key : String) (period : Nat) : Option Float :=
  (i.records.find? fun r => r.key == key && r.period == period).map RawInput.value

/-- How many keys and periods have a value. -/
def size (i : RawInputs) : Nat := (i.records.eraseDupsBy sameSlot).length

end RawInputs

/-- The raw-input keys of items without formula, by code. -/
abbrev Claims := Collection.OrderedMap String String

namespace Provider

/-- The name of raw inputs in messages. -/
def rawInputName : String := "rawinput"

/-- The key that a reference reads. -/
def rawKey (claims : Claims) (r : Reference) : String :=
  -- A prefixed reference names the key itself; a bare code goes through the claims.
  if r.source = some .rawInput then r.code else (claims.get? r.code).getD r.code

/-- The period that a reference reads: the one at hand, or the one that the calendar has at the
shifted time. -/
def rawPeriod (calendar : Calendar) (r : Reference) (c : Context) : Except EvalError Nat :=
  if r.offset = 0 then .ok c.period
  else
    match targetTime r c with
    | .error e => .error e
    | .ok t =>
      match calendar.get? t with
      | some period => .ok period
      | none => .error (.unavailable r t)

/-- Raw inputs, for references with their prefix at any time, and for the bare codes of `claims` in
the period at hand. -/
def rawInput (inputs : RawInputs) (claims : Claims) (calendar : Calendar) : Provider where
  name := rawInputName
  claims r :=
    match r.source with
    | some .rawInput => true
    | some (.domain _) => false
    | none => r.offset == 0 && claims.contains r.code
  resolve r c :=
    match rawPeriod calendar r c with
    | .error e => .error e
    | .ok period =>
      let key := rawKey claims r
      match inputs.get? key period with
      | some v => .ok v
      | none =>
        .error (.gap rawInputName r (.noRecord key period inputs.entity inputs.scenario))

end Provider

end Rollforward
