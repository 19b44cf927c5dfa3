import Rollforward.Collection.OrderedMap

/-!
# `Rollforward.Time.Clock`: time indices, and which period stands at which

Periods are numbered on a clock of whole numbers from `lowest` to `highest`. Arithmetic on it is
exact: a step that leaves the range has no result. A calendar says which period stands at which time
index.
-/

set_option autoImplicit false

namespace Rollforward

/-! ### The clock -/

namespace Clock

/-- The first time index. -/
def lowest : Int := -2147483648

/-- The last time index. -/
def highest : Int := 2147483647

/-- The time index `offset` steps from `t`, if the clock has it. -/
def shift? (t offset : Int) : Option Int :=
  if lowest ≤ t + offset ∧ t + offset ≤ highest then some (t + offset) else none

/-- The time index nearest to `t`. -/
def clamp (t : Int) : Int := max lowest (min highest t)

end Clock

/-! ### Calendars -/

/-- The periods by time index. -/
abbrev Calendar := Collection.OrderedMap Int Nat

namespace Calendar

/-- The periods from `t` on, one after the other, as far as the clock goes. -/
def entriesFrom (t : Int) : List Nat → List (Int × Nat)
  | [] => []
  | p :: ps => if t ≤ Clock.highest then (t, p) :: entriesFrom (t + 1) ps else []

/-- The calendar whose first period stands at `start` and whose others follow. -/
def sequential (start : Int) (periods : List Nat) : Calendar :=
  .ofList (entriesFrom start periods)

end Calendar

end Rollforward
