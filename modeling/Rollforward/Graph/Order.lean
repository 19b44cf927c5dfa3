import Rollforward.Graph.Basic

/-!
# `Rollforward.Graph.Order`: an order of evaluation

Nodes are taken off one after the other, each time the first that depends on none of those left.
Where this stops before the end, the nodes left hold a cycle.
-/

set_option autoImplicit false

namespace Rollforward.Graph

/-- Whether a node depends on none of `left`. -/
def isReady (g : Graph) (left : List String) (code : String) : Bool :=
  left.all fun other => g.hasEdge code other == false

/-- The nodes that can be taken off `left`, in the order in which they are taken, and the nodes that
stay. -/
def peel (g : Graph) (left : List String) : List String × List String :=
  match _found : left.find? (g.isReady left) with
  | none => ([], left)
  | some code =>
    -- Taking `code` off can only make more of the others ready.
    let (taken, stuck) := peel g (left.erase code)
    (code :: taken, stuck)
termination_by left.length
decreasing_by
  have := List.mem_of_find?_eq_some _found
  have := List.length_erase_of_mem this
  have := List.length_pos_of_mem ‹_ ∈ left›
  omega

/-- The nodes that no order of evaluation reaches. -/
def stuck (g : Graph) : List String := (g.peel g.nodes).2

/-- The first of `left` that `code` depends on. -/
def nextOf? (g : Graph) (left : List String) (code : String) : Option String :=
  left.find? fun other => g.hasEdge code other

/-- Follows dependencies among `left` from `code` until one comes back to the path. `path` holds the
nodes before `code`, the latest first; `unseen` those of `left` that are neither on the path nor
`code`. -/
def follow (g : Graph) (left unseen path : List String) (code : String) : Option (List String) :=
  match g.nextOf? left code with
  | none => none
  | some next =>
    -- The path is closed: the cycle runs from the first visit of `next` to `code` and back.
    if next ∈ code :: path then
      some (((code :: path).takeWhile (· != next) ++ [next]).reverse ++ [next])
    else if _fresh : next ∈ unseen then follow g left (unseen.erase next) (code :: path) next
    else none
termination_by unseen.length
decreasing_by
  have := List.length_erase_of_mem _fresh
  have := List.length_pos_of_mem _fresh
  omega

/-- A cycle: each node depends on the next, and the last is the first. -/
def findCycle? (g : Graph) : Option (List String) :=
  match g.stuck with
  | [] => none
  | first :: rest => g.follow (first :: rest) rest [] first

/-- Whether some node depends on itself, directly or not. -/
def hasCycle (g : Graph) : Bool := g.findCycle?.isSome

/-- The nodes in an order in which each comes after what it depends on, or a cycle. Of the nodes
that could come next, the first mentioned does. -/
def order (g : Graph) : Except (List String) (List String) :=
  let (taken, stuck) := g.peel g.nodes
  if stuck.isEmpty then .ok taken else .error (g.findCycle?.getD [])

end Rollforward.Graph
