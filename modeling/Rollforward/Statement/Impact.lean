import Rollforward.Statement.Basic

/-!
# `Rollforward.Statement.Impact`: what a change of an item reaches

Edges lead from an item to those that it depends on. So a change spreads against the edges, to
everything downstream (`Graph.downstream`), and the items there are calculated again in the order of
evaluation (`impactOf`).
-/

set_option autoImplicit false

namespace Rollforward

/-! ### Downstream in a graph -/

namespace Graph

/-- Adds to `reached` the nodes of `fresh` whose dependencies lead to `reached`. -/
def spread (g : Graph) (reached fresh : List String) : List String :=
  match _found : fresh.find? fun code => reached.any fun other => g.hasEdge code other with
  | none => reached
  | some code => spread g (code :: reached) (fresh.erase code)
termination_by fresh.length
decreasing_by
  have := List.mem_of_find?_eq_some _found
  have := List.length_erase_of_mem this
  have := List.length_pos_of_mem ‹_ ∈ fresh›
  omega

/-- The nodes among `starts` and every node that depends on one of them, directly or not, in the
order of the nodes. -/
def downstream (g : Graph) (starts : List String) : List String :=
  let (known, others) := g.nodes.partition fun code => starts.contains code
  let reached := g.spread known others
  g.nodes.filter fun code => reached.contains code

end Graph

/-! ### The impact of an item -/

namespace Statement

/-- The items to be calculated again within a period when `code` changes, in the order of
evaluation, without the item itself. -/
def impactOf (s : Statement) (code : String) : List String :=
  let affected := s.graph.downstream [code]
  (s.inOrder.map Item.code).filter fun c => c != code && affected.contains c

end Statement

end Rollforward
