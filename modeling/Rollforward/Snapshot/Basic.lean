import Rollforward.Collection.OrderedMap

/-!
# `Rollforward.Snapshot.Basic`: the values of periods

A snapshot holds the values of a period by code, and a series the snapshots of many. While a period
is in progress its values are in a ledger, by the position of their items. A position is written at
most once; the ledger grows to hold it.
-/

set_option autoImplicit false

namespace Rollforward

/-! ### Closed periods -/

/-- The values of one period by code. -/
abbrev Snapshot := Collection.OrderedMap String Float

/-- Snapshots by time index: an opening state, closed periods, and values assumed ahead of time. -/
abbrev Series := Collection.OrderedMap Int Snapshot

/-- The value of a code at a time. -/
def Series.value? (s : Series) (t : Int) (code : String) : Option Float :=
  match s.get? t with
  | none => none
  | some snapshot => snapshot.get? code

/-! ### The period in progress -/

/-- The values found so far. -/
structure Ledger where
  slots : List (Option Float)
  deriving Repr

namespace Ledger

/-- A ledger with room for `size` values. -/
def ofSize (size : Nat) : Ledger := ⟨List.replicate size none⟩

/-- The value at a position, if it is written. -/
def get? (l : Ledger) (position : Nat) : Option Float := (l.slots[position]?).join

/-- Writes a value; a position already written takes no other. -/
def insert? (l : Ledger) (position : Nat) (value : Float) : Option Ledger :=
  match l.get? position with
  | some _ => none
  | none =>
    -- Nothing is added when the position lies within the ledger.
    let room := l.slots ++ List.replicate (position + 1 - l.slots.length) none
    some ⟨room.set position (some value)⟩

/-- How many positions are written. -/
def filled (l : Ledger) : Nat := l.slots.countP Option.isSome

end Ledger

end Rollforward
