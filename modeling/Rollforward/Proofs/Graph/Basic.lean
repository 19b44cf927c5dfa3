import Mathlib.Data.List.Nodup
import Rollforward.Graph.Basic

/-!
# `Rollforward.Proofs.Graph.Basic`: what adding to a graph changes

One lemma for the nodes and one for the edges of each operation, and the same for a row of
operations, by induction over the row. A graph that starts with all its nodes keeps them in their
order, whatever edges come after (`nodes_foldl_addEdge`).
-/

set_option autoImplicit false

namespace Rollforward.Graph

variable {g : Graph} {a b x y : String}

/-! ### One addition -/

/-- Adding a known code again is no change, so the two nodes of an edge can be added blindly. -/
theorem addNode_of_mem (h : a ∈ g.nodes) : g.addNode a = g := if_pos h

/-- A new code goes to the end of the nodes. The statement's order of items is the order of the
nodes for this reason alone. -/
theorem nodes_addNode_of_not_mem (h : a ∉ g.nodes) : (g.addNode a).nodes = g.nodes ++ [a] := by
  rw [addNode, if_neg h]

/-- Nodes come without edges. -/
theorem hasEdge_addNode (g : Graph) (a x y : String) :
    (g.addNode a).hasEdge x y = g.hasEdge x y := by
  rw [addNode]
  split <;> rfl

/-- The Boolean test, as membership in the list of edges. -/
theorem hasEdge_eq_true_iff : g.hasEdge x y = true ↔ (x, y) ∈ g.edges := List.contains_iff_mem

/-- An edge between known codes brings no node, so once the codes of a statement are in, its
formulas cannot change their order. -/
theorem nodes_addEdge_of_mem (ha : a ∈ g.nodes) (hb : b ∈ g.nodes) :
    (g.addEdge a b).nodes = g.nodes := by
  rw [addEdge, addNode_of_mem ha, addNode_of_mem hb]
  split <;> rfl

/-- After an addition there are the new edge and the edges from before. An edge that is there
already is not kept twice, which no membership can tell. -/
theorem hasEdge_addEdge :
    (g.addEdge a b).hasEdge x y = true ↔ (x = a ∧ y = b) ∨ g.hasEdge x y = true := by
  rw [← hasEdge_addNode g a, ← hasEdge_addNode (g.addNode a) b, hasEdge_eq_true_iff,
    hasEdge_eq_true_iff, addEdge]
  split
  · next present =>
    refine ⟨Or.inr, fun h => h.elim ?_ id⟩
    rintro ⟨hx, hy⟩
    rw [hx, hy]
    exact present
  · rw [List.mem_append, List.mem_singleton, Prod.mk.injEq]
    exact or_comm

/-! ### A row of additions -/

/-- Codes without a repetition, none of them known, become nodes in the order of the row. -/
theorem nodes_foldl_addNode {codes : List String} (nodup : (g.nodes ++ codes).Nodup) :
    (codes.foldl addNode g).nodes = g.nodes ++ codes := by
  induction codes generalizing g with
  | nil => exact (List.append_nil _).symm
  | cons code codes ih =>
      have fresh : code ∉ g.nodes := fun known =>
        (List.nodup_append.1 nodup).2.2 code known code List.mem_cons_self rfl
      have nodes := nodes_addNode_of_not_mem fresh
      have rest : (g.addNode code).nodes ++ codes = g.nodes ++ code :: codes := by
        rw [nodes, List.append_assoc, List.singleton_append]
      rw [List.foldl_cons, ih (by rwa [rest]), rest]

/-- A row of nodes, like one node, comes without edges. -/
theorem hasEdge_foldl_addNode (codes : List String) :
    (codes.foldl addNode g).hasEdge x y = g.hasEdge x y := by
  induction codes generalizing g with
  | nil => rfl
  | cons code codes ih => rw [List.foldl_cons, ih, hasEdge_addNode]

/-- The edges of one item to the codes that it reads leave the nodes as they are. The invariant of
the induction is that all these codes are nodes. -/
theorem nodes_foldl_addEdge {ds : List String} (ha : a ∈ g.nodes) (hds : ∀ d ∈ ds, d ∈ g.nodes) :
    (ds.foldl (fun g d => g.addEdge a d) g).nodes = g.nodes := by
  induction ds generalizing g with
  | nil => rfl
  | cons d ds ih =>
      have ⟨hd, hds⟩ := List.forall_mem_cons.1 hds
      have nodes := nodes_addEdge_of_mem ha hd
      rw [List.foldl_cons, ih (by rwa [nodes]) (by rwa [nodes]), nodes]

/-- A row of edges from one item adds those to the codes of the row and no others. -/
theorem hasEdge_foldl_addEdge {ds : List String} :
    (ds.foldl (fun g d => g.addEdge a d) g).hasEdge x y = true ↔
      (x = a ∧ y ∈ ds) ∨ g.hasEdge x y = true := by
  induction ds generalizing g with
  | nil => simp
  | cons d ds ih =>
      rw [List.foldl_cons, ih, hasEdge_addEdge, List.mem_cons]
      tauto

end Rollforward.Graph
