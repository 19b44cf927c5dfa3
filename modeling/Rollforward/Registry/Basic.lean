import Rollforward.Collection.Distinct
import Rollforward.Evaluation.Error
import Rollforward.Text.Basic
import Rollforward.Time.Context

/-!
# `Rollforward.Registry.Basic`: the functions that formulas may call

A registry knows functions by name and arity. Names ignore the case of ASCII letters. A function
registered under a name and arity that are taken replaces the one there and keeps its place.
-/

set_option autoImplicit false

namespace Rollforward

/-- An argument of a call. Text is only ever a literal. -/
inductive Arg where
  | number (value : Float)
  | text (s : String)
  deriving Repr

/-- The number that an argument is. -/
def Arg.toNumber : Arg → Except EvalError Float
  | .number value => .ok value
  | .text s => .error (.textAsNumber s)

/-- What a function does. -/
structure Callable where
  run : List Arg → Context → Except EvalError Float
  /-- Which calls ask for the run to be cancelled. Few functions hold the switch. -/
  cancels : Option (List Arg → Context → Bool) := none

namespace Registry

/-- A function under its name and arity. -/
structure Entry where
  name : String
  arity : Arity
  body : Callable

end Registry

/-- The functions by name and arity, in the order in which they were first registered. -/
structure Registry where
  entries : List Registry.Entry

namespace Registry

/-- The name under which a function is kept. -/
def nameOf (written : String) : String := written.toUpper

/-- The registry without functions. -/
def empty : Registry := ⟨[]⟩

/-- Puts an entry in place of the one with its name and arity, or at the end. -/
def place (e : Entry) : List Entry → List Entry
  | [] => [e]
  | d :: ds => if d.name = e.name ∧ d.arity = e.arity then e :: ds else d :: place e ds

/-- Adds a function. -/
def register (r : Registry) (name : String) (arity : Arity) (body : Callable) : Registry :=
  ⟨place ⟨nameOf name, arity, body⟩ r.entries⟩

/-- The entries of a name. -/
def overloads (r : Registry) (name : String) : List Entry :=
  r.entries.filter fun e => e.name = nameOf name

/-- Whether a name is known. -/
def contains (r : Registry) (name : String) : Bool := (r.overloads name).isEmpty == false

/-- Chooses among the entries of a name: one that takes exactly `count` arguments before one that
also takes more, and of the latter the first registered. -/
def choose? (es : List Entry) (count : Nat) : Option Entry :=
  match es.find? fun e => e.arity = .exact count with
  | some e => some e
  | none => es.find? fun e => e.arity.accepts count

/-- The function that takes `count` arguments under a name. -/
def lookup (r : Registry) (name : String) (count : Nat) : Except EvalError Callable :=
  -- An unknown name is told from a known one called with the wrong number of arguments.
  let es := r.overloads name
  if es.isEmpty then .error (.unknownFunction (nameOf name))
  else
    match choose? es count with
    | some e => .ok e.body
    | none => .error (.wrongArity (nameOf name) (es.map Entry.arity) count)

/-- The registry by the names it knows. -/
def text (r : Registry) : String :=
  let names := Collection.sortDistinct (r.entries.map Entry.name)
  "FunctionRegistry \x7b functions: " ++ Text.quotedList names ++ " \x7d"

/-- Calls a function. -/
def call (r : Registry) (name : String) (args : List Arg) (c : Context) : Except EvalError Float :=
  match r.lookup name args.length with
  | .error e => .error e
  | .ok f => f.run args c

end Registry

end Rollforward
