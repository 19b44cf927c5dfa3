import Rollforward.Json.Field
import Rollforward.Json.Quantity
import Rollforward.Json.Reader
import Rollforward.Json.Writer
import Rollforward.Snapshot.Basic

/-!
# `Rollforward.Snapshot.Json`: snapshots in JSON

A snapshot is written as an object with a member for each code, in the order of the codes. It is
read from any object of numbers; of two members for one code, the later counts.
-/

set_option autoImplicit false

namespace Rollforward.Snapshot

/-- The snapshot as a value. -/
def toJson (s : Snapshot) : Json :=
  .record (s.toList.map fun (code, v) => (code, .float v))

/-- The entry of a member. -/
def entry? : List Json.Code × Json → Option (String × Float)
  | (key, v) => do
    let code ← Json.textOf? key
    let x ← Json.toFloat? v
    return (code, x)

/-- The snapshot of a value. -/
def ofJson? : Json → Option Snapshot
  | .object members => (members.mapM entry?).map .ofList
  | _ => none

/-- The snapshot that a text writes. -/
def read? (s : String) : Option Snapshot := (Json.read s).bind ofJson?

/-- The snapshot as text. -/
def write (s : Snapshot) : String := s.toJson.toText

end Rollforward.Snapshot
