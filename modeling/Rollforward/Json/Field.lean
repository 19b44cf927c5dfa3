import Rollforward.Json.Value

/-!
# `Rollforward.Json.Field`: values of known shape

A record is written as an object, whose members may stand in any order, or as the array of its
parts in the order of its fields, where parts at the end may be left out. A field has one name or
more. Members of other names are passed over; a field given twice, under whatever names, is an
error.
-/

set_option autoImplicit false

namespace Rollforward.Json

/-- The names under which a field may be given. -/
abbrev FieldNames := List String

/-- Puts a member into the place of its field. -/
def placeMember (name : String) (v : Json) :
    List (FieldNames × Option Json) → Option (List (FieldNames × Option Json))
  | [] => some []
  | (names, found) :: fields =>
    if name ∈ names then
      -- A second member for one field, be it under another of its names.
      match found with
      | some _ => none
      | none => some ((names, some v) :: fields)
    else (placeMember name v fields).map ((names, found) :: ·)

/-- Puts the members of an object into the places of their fields. -/
def placeMembers :
    List (List Code × Json) → List (FieldNames × Option Json) →
      Option (List (FieldNames × Option Json))
  | [], fields => some fields
  | (key, v) :: members, fields =>
    match textOf? key with
    | none => none
    | some name =>
      match placeMember name v fields with
      | none => none
      | some fields => placeMembers members fields

/-- The parts of a record by field, absent or as written. -/
def partsOf (fields : List FieldNames) : Json → Option (List (Option Json))
  | .object members => (placeMembers members (fields.map (·, none))).map (·.map (·.2))
  | .array items =>
    if items.length ≤ fields.length then
      some (items.map some ++ List.replicate (fields.length - items.length) none)
    else none
  | _ => none

/-- A part that may be absent, with the value it then has. -/
def orDefault {α : Type} (decode : Json → Option α) (fallback : α) : Option Json → Option α
  | none => some fallback
  | some v => decode v

/-- A part that must be there. -/
def required {α : Type} (decode : Json → Option α) : Option Json → Option α
  | none => none
  | some v => decode v

/-- A value that may be null. -/
def nullable {α : Type} (decode : Json → Option α) : Json → Option (Option α)
  | .null => some none
  | v => (decode v).map some

/-- The text of a string. -/
def toText? : Json → Option String
  | .string codes => textOf? codes
  | _ => none

/-- A truth value. -/
def toBool? : Json → Option Bool
  | .bool b => some b
  | _ => none

/-- The items of an array. -/
def toList? {α : Type} (decode : Json → Option α) : Json → Option (List α)
  | .array items => items.mapM decode
  | _ => none

/-- One of several names, written as a string or as the only member of an object, with null. -/
def toName? : Json → Option String
  | .string codes => textOf? codes
  | .object [(key, .null)] => textOf? key
  | _ => none

end Rollforward.Json
