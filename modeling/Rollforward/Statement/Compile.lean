import Rollforward.Statement.Basic

/-!
# `Rollforward.Statement.Compile`: templates into statements

What can be wrong with a template without calculating it is found here: first in the items, one
after the other, then in how they depend on each other, last in the rules.
-/

set_option autoImplicit false

namespace Rollforward.Statement

/-- What is wrong with a template. -/
inductive Defect where
  | emptyCode
  | duplicateCode (code : String)
  /-- The formula of an item or a rule. -/
  | badFormula (code formula : String) (source : Formula.SyntaxError)
  | cycle (path : List String)
  deriving Repr, DecidableEq

/-- The defect in words. -/
def Defect.message : Defect → String
  | .emptyCode => "Malformed template: line item with an empty code"
  | .duplicateCode code => "Line item '" ++ code ++ "' is defined more than once"
  | .badFormula code formula source =>
    "Cannot parse formula of '" ++ code ++ "' (" ++ formula ++ "): " ++ source.message
  | .cycle path => "Cyclic dependency: " ++ " -> ".intercalate path

/-- Parses the formula of an item. -/
def readFormula (code text : String) : Except Defect ItemFormula :=
  match Formula.parse text with
  | .error e => .error (.badFormula code text e)
  | .ok expr =>
    match Formula.referencesOf text with
    | .error e => .error (.badFormula code text e)
    | .ok references => .ok ⟨text, expr, references⟩

/-- An item, behind items with the codes `seen`. -/
def readItem (seen : List String) (i : LineItem) : Except Defect Item :=
  let code := Text.trim i.code
  if code = "" then .error .emptyCode
  else if code ∈ seen then .error (.duplicateCode code)
  else
    match i.activeFormula? with
    | none => .ok ⟨code, none, i⟩
    | some text =>
      match readFormula code text with
      | .error e => .error e
      | .ok formula => .ok ⟨code, some formula, i⟩

/-- Items, behind items with the codes `seen`. -/
def readItems (seen : List String) : List LineItem → Except Defect (List Item)
  | [] => .ok []
  | i :: is =>
    match readItem seen i with
    | .error e => .error e
    | .ok item =>
      match readItems (item.code :: seen) is with
      | .error e => .error e
      | .ok items => .ok (item :: items)

/-- The codes among `codes` that an item depends on within a period. Reading itself at another time
is no dependency. -/
def readsOf (codes : List String) (i : Item) : List String :=
  (i.references.filter fun r =>
    r.isUnqualified && codes.contains r.code && (r.offset == 0 || r.code != i.code)).map (·.code)

/-- The graph of the items of a template. -/
def graphOf (items : List Item) : Graph :=
  -- All nodes come first, so that they are numbered as the template lists them.
  let codes := items.map Item.code
  items.foldl (fun g i => (readsOf codes i).foldl (fun g d => g.addEdge i.code d) g)
    (codes.foldl Graph.addNode .empty)

/-- The rules of a template with their formulas parsed. -/
def readRule (r : Rule) : Except Defect Check :=
  match Check.ofRule r with
  | .error e => .error (.badFormula r.id r.formula e)
  | .ok c => .ok c

/-- The statement of a template. -/
def compile (t : Template) : Except Defect Statement :=
  match readItems [] t.items with
  | .error e => .error e
  | .ok items =>
    let graph := graphOf items
    -- Rules read closed periods, so they have no part in the order.
    match graph.order with
    | .error path => .error (.cycle path)
    | .ok codes =>
      match t.rules.mapM readRule with
      | .error e => .error e
      | .ok checks =>
        let order := codes.filterMap fun code => items.findIdx? fun i => i.code == code
        .ok ⟨t.code, items, order, graph, checks⟩

end Rollforward.Statement
