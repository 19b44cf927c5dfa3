import Rollforward.Formula.Scan
import Rollforward.Graph.Order
import Rollforward.Provider.RawInput
import Rollforward.Rule.Check
import Rollforward.Template.Basic

/-!
# `Rollforward.Statement.Basic`: templates made ready for calculation

A statement is a template whose formulas are parsed and whose items have an order of evaluation. It
does not change from then on and serves any number of periods.
-/

set_option autoImplicit false

namespace Rollforward

namespace Statement

/-- The formula of an item. -/
structure ItemFormula where
  /-- The text without blanks around it. -/
  text : String
  expr : Formula.Expr
  /-- The distinct references of the text, in order. -/
  references : List Formula.Reference
  deriving Repr

/-- An item of a statement. -/
structure Item where
  /-- The code without blanks around it. -/
  code : String
  /-- The formula; items without one are raw inputs. -/
  formula : Option ItemFormula
  declared : LineItem
  deriving Repr

namespace Item

/-- Whether the item has a formula. -/
def isComputed (i : Item) : Bool := i.formula.isSome

/-- What the value comes from, for reports: the formula, or else the reference to the raw input. -/
def sourceText (i : Item) : String :=
  match i.formula with
  | some f => f.text
  | none => i.declared.rawReference.getD ""

/-- The distinct references of the formula, in order. -/
def references (i : Item) : List Formula.Reference :=
  match i.formula with
  | some f => f.references
  | none => []

/-- The distinct codes that the formula reads without a namespace, at whatever time. -/
def dependencies (i : Item) : List String :=
  Collection.sortDistinct ((i.references.filter Formula.Reference.isUnqualified).map (·.code))

end Item

end Statement

/-- A template made ready for calculation. -/
structure Statement where
  code : String
  items : List Statement.Item
  /-- The positions of the items in the order of evaluation. -/
  order : List Nat
  graph : Graph
  checks : List Check
  deriving Repr

namespace Statement

/-- The position of a code. -/
def position? (s : Statement) (code : String) : Option Nat :=
  s.items.findIdx? fun i => i.code == code

/-- The item of a code. -/
def item? (s : Statement) (code : String) : Option Item :=
  s.items.find? fun i => i.code == code

/-- Whether an item has the code. -/
def contains (s : Statement) (code : String) : Bool := s.items.any fun i => i.code == code

/-- The items in the order of evaluation. -/
def inOrder (s : Statement) : List Item := s.order.filterMap fun p => s.items[p]?

/-- The raw-input keys of items without formula, by code. -/
def claimsOf (items : List Item) : Claims :=
  .ofList ((items.filter fun i => i.isComputed == false).map fun i => (i.code, i.declared.rawKey))

/-- The raw-input keys of the statement. -/
def claims (s : Statement) : Claims := claimsOf s.items

end Statement

end Rollforward
