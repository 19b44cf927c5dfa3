import Rollforward.Rule.Basic
import Rollforward.Text.Basic

/-!
# `Rollforward.Template.Basic`: templates as they are declared

A template lists items and rules. An item takes its value from its formula, or from a raw input when
it has none; a formula of blanks counts as none.
-/

set_option autoImplicit false

namespace Rollforward

/-- A line of a template. -/
structure LineItem where
  code : String
  displayName : Option String := none
  category : Option String := none
  formula : Option String := none
  /-- Where the value comes from without a formula, as in `driver: PRICE`. -/
  rawReference : Option String := none
  deriving Repr, DecidableEq

namespace LineItem

/-- The formula without blanks around it, unless it is all blanks. -/
def activeFormula? (i : LineItem) : Option String :=
  match i.formula with
  | none => none
  | some f => if Text.trim f = "" then none else some (Text.trim f)

/-- What stands behind the first colon, or all of it when there is none. -/
def behindColon (cs : List Char) : List Char :=
  match cs.dropWhile (· != ':') with
  | [] => cs
  | _ :: rest => rest

/-- The key of the raw input: what the reference names behind its colon, or the code as declared
when it names nothing. -/
def rawKey (i : LineItem) : String :=
  match i.rawReference with
  | none => i.code
  | some r =>
    -- What stands before the colon names a source and does not matter here.
    let key := Text.trim (String.ofList (behindColon r.toList))
    if key = "" then i.code else key

end LineItem

/-- A template. -/
structure Template where
  code : String := ""
  items : List LineItem
  rules : List Rule := []
  deriving Repr, DecidableEq

end Rollforward
