import Rollforward.Evaluation.Error
import Rollforward.Snapshot.Basic
import Rollforward.Text.Basic
import Rollforward.Time.Context

/-!
# `Rollforward.Provider.Basic`: where the values of references come from

A provider claims some references and answers for those it claims. In a chain the first that claims
a reference answers for it; the others are not asked, not even when the first has no value.
-/

set_option autoImplicit false

namespace Rollforward

open Formula (Reference)

/-- A source of values. -/
structure Provider where
  name : String
  claims : Reference → Bool
  resolve : Reference → Context → Except EvalError Float

/-- The error for a time that nothing is known of. -/
def EvalError.unavailable (r : Reference) (time : Int) : EvalError :=
  if 0 < r.offset then .noFutureValue r time else .noPriorValue r time

/-- The time that a reference looks at. A time off the clock is unavailable, and the nearest that
the clock has is reported. -/
def targetTime (r : Reference) (c : Context) : Except EvalError Int :=
  match c.shift? r.offset with
  | some t => .ok t
  | none => .error (.unavailable r (Clock.clamp (c.time + r.offset)))

/-- Reads a reference from a series, at the time that it looks at. -/
def Series.resolve (s : Series) (r : Reference) (c : Context) : Except EvalError Float :=
  match targetTime r c with
  | .error e => .error e
  | .ok t =>
    match s.value? t r.code with
    | some v => .ok v
    | none => .error (.unavailable r t)

/-- Providers in the order in which they are asked. -/
abbrev Chain := List Provider

namespace Chain

/-- The first provider that claims a reference. -/
def claimant? (c : Chain) (r : Reference) : Option Provider := c.find? fun p => p.claims r

/-- The answer of the first provider that claims a reference. -/
def resolve (c : Chain) (r : Reference) (context : Context) : Except EvalError Float :=
  match c.claimant? r with
  | some p => p.resolve r context
  | none => .error (.unresolved r)

/-- The chain by the names of its providers. -/
def text (c : Chain) : String :=
  "ProviderChain \x7b providers: " ++ Text.quotedList (c.map Provider.name) ++ " \x7d"

end Chain

end Rollforward
