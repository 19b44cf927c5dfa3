import Rollforward.Proofs.Graph.Basic

/-!
# `Rollforward.Proofs.Graph.Additions`: the graphs that can be built

A graph is built from the empty one by adding nodes and edges. `WellFormed` is what every addition
keeps (`WellFormed.add`), so what every graph has that was built (`wellFormed_ofAdditions`): each
node stands once, and edges are between nodes. The edges are those that were added, whatever came
before or after them (`hasEdge_ofAdditions_iff`).
-/

set_option autoImplicit false

namespace Rollforward.Graph

/-- What can be added to a graph. -/
inductive Addition where
  | node (code : String)
  /-- An edge, and its ends where they are not nodes yet. -/
  | edge (item dependency : String)
  deriving Repr, DecidableEq

/-- The graph with one more addition. -/
def add (g : Graph) : Addition → Graph
  | .node code => g.addNode code
  | .edge item dependency => g.addEdge item dependency

/-- The graph that additions build, the first of them first. -/
def ofAdditions (additions : List Addition) : Graph := additions.foldl add .empty

/-- Each node stands once, and edges are between nodes. -/
structure WellFormed (g : Graph) : Prop where
  nodup : g.nodes.Nodup
  ends : ∀ a b, g.hasEdge a b = true → a ∈ g.nodes ∧ b ∈ g.nodes

variable {g : Graph} {a b x y : String}

/-! ### One addition -/

/-- The nodes after an addition. With a code that is known already nothing is added, and this reads
the same. -/
theorem mem_nodes_addNode : x ∈ (g.addNode a).nodes ↔ x ∈ g.nodes ∨ x = a := by
  by_cases known : a ∈ g.nodes
  · rw [addNode_of_mem known]
    refine ⟨Or.inl, fun h => h.elim id ?_⟩
    rintro rfl
    exact known
  · rw [nodes_addNode_of_not_mem known, List.mem_append, List.mem_singleton]

/-- No node comes to stand twice. -/
theorem nodup_addNode (nodup : g.nodes.Nodup) : (g.addNode a).nodes.Nodup := by
  by_cases known : a ∈ g.nodes
  · rwa [addNode_of_mem known]
  · rw [nodes_addNode_of_not_mem known]
    exact nodup.append (List.nodup_singleton a) (List.disjoint_singleton.2 known)

/-- An edge brings both of its ends, the item first. -/
theorem nodes_addEdge (g : Graph) (a b : String) :
    (g.addEdge a b).nodes = ((g.addNode a).addNode b).nodes := by
  rw [addEdge]
  split <;> rfl

/-- The empty graph, with which every graph begins. -/
theorem WellFormed.empty : WellFormed .empty :=
  ⟨List.nodup_nil, fun _ _ edge => nomatch edge⟩

/-- One of the two steps of the invariant. -/
theorem WellFormed.addNode (h : g.WellFormed) (a : String) : (g.addNode a).WellFormed := by
  refine ⟨nodup_addNode h.nodup, fun x y edge => ?_⟩
  rw [hasEdge_addNode] at edge
  have ⟨hx, hy⟩ := h.ends x y edge
  exact ⟨mem_nodes_addNode.2 (Or.inl hx), mem_nodes_addNode.2 (Or.inl hy)⟩

/-- The other step: the ends of the new edge are nodes by then, and the other edges keep theirs. -/
theorem WellFormed.addEdge (h : g.WellFormed) (a b : String) : (g.addEdge a b).WellFormed := by
  have wider := (h.addNode a).addNode b
  refine ⟨by rw [nodes_addEdge]; exact wider.nodup, fun x y edge => ?_⟩
  rw [nodes_addEdge]
  obtain ⟨rfl, rfl⟩ | old := hasEdge_addEdge.1 edge
  · exact ⟨mem_nodes_addNode.2 (Or.inl (mem_nodes_addNode.2 (Or.inr rfl))),
      mem_nodes_addNode.2 (Or.inr rfl)⟩
  · refine wider.ends x y ?_
    rwa [hasEdge_addNode, hasEdge_addNode]

/-- An addition keeps a graph well formed. -/
theorem WellFormed.add (h : g.WellFormed) (addition : Addition) : (g.add addition).WellFormed := by
  cases addition with
  | node code => exact h.addNode code
  | edge item dependency => exact h.addEdge item dependency

/-- One addition brings at most one edge, the one that it names. -/
theorem hasEdge_add {addition : Addition} :
    (g.add addition).hasEdge x y = true ↔ .edge x y = addition ∨ g.hasEdge x y = true := by
  cases addition with
  | node code => simp [Graph.add, hasEdge_addNode]
  | edge item dependency => rw [Graph.add, hasEdge_addEdge, Addition.edge.injEq]

/-! ### A row of additions -/

/-- A row of additions keeps the invariant, whatever graph it starts from. -/
theorem WellFormed.foldl_add (h : g.WellFormed) (additions : List Addition) :
    (additions.foldl Graph.add g).WellFormed := by
  induction additions generalizing g with
  | nil => exact h
  | cons addition additions ih => exact ih (h.add addition)

/-- The edges after a row of additions are those of before and those in the row. -/
theorem hasEdge_foldl_add {additions : List Addition} :
    (additions.foldl Graph.add g).hasEdge x y = true ↔
      .edge x y ∈ additions ∨ g.hasEdge x y = true := by
  induction additions generalizing g with
  | nil => simp
  | cons addition additions ih =>
      rw [List.foldl_cons, ih, hasEdge_add, List.mem_cons]
      tauto

/-- Every graph that is built is well formed. -/
theorem wellFormed_ofAdditions (additions : List Addition) :
    (ofAdditions additions).WellFormed :=
  WellFormed.empty.foldl_add additions

/-- The edges of a graph are those that were added. -/
theorem hasEdge_ofAdditions_iff {additions : List Addition} :
    (ofAdditions additions).hasEdge x y = true ↔ .edge x y ∈ additions := by
  rw [ofAdditions, hasEdge_foldl_add]
  exact or_iff_left nofun

end Rollforward.Graph
