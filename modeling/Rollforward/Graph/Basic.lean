/-!
# `Rollforward.Graph.Basic`: which items depend on which

Nodes are codes, in the order in which they were first mentioned. An edge leads from an item to one
that it depends on, perhaps itself.
-/

set_option autoImplicit false

namespace Rollforward

/-- A graph of dependencies. -/
structure Graph where
  /-- The nodes, each once, the first mentioned first. -/
  nodes : List String
  /-- The edges, each once: an item, and one that it depends on. -/
  edges : List (String × String)
  deriving Repr, DecidableEq

namespace Graph

/-- The graph without nodes. -/
def empty : Graph := ⟨[], []⟩

/-- Adds a node, unless it is there. -/
def addNode (g : Graph) (code : String) : Graph :=
  if code ∈ g.nodes then g else { g with nodes := g.nodes ++ [code] }

/-- Records that `item` depends on `dependency`. What is not yet a node becomes one. -/
def addEdge (g : Graph) (item dependency : String) : Graph :=
  let g := (g.addNode item).addNode dependency
  if (item, dependency) ∈ g.edges then g else { g with edges := g.edges ++ [(item, dependency)] }

/-- The number of a node. -/
def index? (g : Graph) (code : String) : Option Nat := g.nodes.idxOf? code

/-- Whether a code is a node. -/
def contains (g : Graph) (code : String) : Bool := g.nodes.contains code

/-- Whether `item` depends on `dependency`. -/
def hasEdge (g : Graph) (item dependency : String) : Bool := g.edges.contains (item, dependency)

/-- What a code depends on, in the order of the nodes. -/
def dependenciesOf (g : Graph) (code : String) : List String :=
  g.nodes.filter fun other => g.hasEdge code other

/-- What depends on a code, in the order of the nodes. -/
def dependentsOf (g : Graph) (code : String) : List String :=
  g.nodes.filter fun other => g.hasEdge other code

end Graph

end Rollforward
