import Mathlib.Data.Fintype.EquivFin
import Mathlib.Data.Fintype.Sets
import Mathlib.Logic.Relation
import Mathlib.Order.WellFounded
import Rollforward.Proofs.Collection.Occurrence
import Rollforward.Proofs.Graph.Order

/-!
# `Rollforward.Proofs.Graph.Cycle`: a graph has an order exactly when it has no cycle

The nodes that no order reaches each depend on another of them (`exists_hasEdge_of_mem_peel`). They
are finitely many, so where there is one there is a cycle (`peel_eq_nil_of_acyclic`). In an order,
on the other hand, whatever a node leads to stands before it, so no node leads to itself
(`acyclic_of_order`). `exists_order_iff` says both as one.
-/

set_option autoImplicit false

namespace Rollforward.Graph

variable {g : Graph} {left codes : List String} {a b : String}

/-- The node `a` depends on the node `b`. -/
def Depends (g : Graph) (a b : String) : Prop :=
  a ∈ g.nodes ∧ b ∈ g.nodes ∧ g.hasEdge a b = true

/-- No node depends on itself, directly or not. -/
def Acyclic (g : Graph) : Prop := ∀ code, ¬Relation.TransGen g.Depends code code

/-- A node that cannot be taken off depends on one that cannot be taken off either. -/
theorem exists_hasEdge_of_mem_peel (h : a ∈ (g.peel left).2) :
    ∃ b ∈ (g.peel left).2, g.hasEdge a b = true := by
  induction left using peel_induction g with
  | stuck left step =>
      obtain ⟨-, none⟩ | ⟨code, -, -, taken⟩ := peel_cases g left
      · rw [step] at h ⊢
        -- A node without an edge to the others left would be ready.
        by_contra no
        refine Bool.false_ne_true ((none a h).symm.trans (isReady_eq_true_iff.2 ?_))
        exact fun b hb => eq_false_of_ne_true fun edge => no ⟨b, hb, edge⟩
      · cases step.symm.trans taken
  | take left code hcode ready step ih =>
      rw [step] at h ⊢
      exact ih h

/-- There is an order when no node is left over. `Graph.order` answers with what was taken off, or
looks for a cycle among the rest. -/
theorem exists_order_iff_peel :
    (∃ codes, g.order = .ok codes) ↔ (g.peel g.nodes).2 = [] := by
  show (∃ codes, (if (g.peel g.nodes).2.isEmpty then Except.ok (g.peel g.nodes).1 else _) =
    .ok codes) ↔ _
  rw [← List.isEmpty_iff]
  split
  · next empty => exact iff_of_true ⟨_, rfl⟩ empty
  · next stuck =>
    refine iff_of_false ?_ stuck
    rintro ⟨codes, ordered⟩
    cases ordered

/-- Without a cycle every node can be taken off. -/
theorem peel_eq_nil_of_acyclic (acyclic : g.Acyclic) : (g.peel g.nodes).2 = [] := by
  by_contra stuck
  obtain ⟨start, hstart⟩ := List.exists_mem_of_ne_nil _ stuck
  -- Behind each of the nodes left there is another, which finitely many without a cycle exclude.
  let Behind (b a : { code // code ∈ (g.peel g.nodes).2 }) : Prop :=
    Relation.TransGen g.Depends a.1 b.1
  have : IsTrans _ Behind := ⟨fun _ _ _ first second => second.trans first⟩
  have : Std.Irrefl Behind := ⟨fun code => acyclic code.1⟩
  have wellFounded : WellFounded Behind := Finite.wellFounded_of_trans_of_irrefl Behind
  obtain ⟨⟨a, ha⟩, -, last⟩ := wellFounded.has_min Set.univ ⟨⟨start, hstart⟩, trivial⟩
  obtain ⟨b, hb, edge⟩ := exists_hasEdge_of_mem_peel ha
  have node {code : String} (h : code ∈ (g.peel g.nodes).2) : code ∈ g.nodes :=
    (peel_perm g g.nodes).subset (List.mem_append_right _ h)
  exact last ⟨b, hb⟩ trivial (.single ⟨node ha, node hb, edge⟩)

/-- In an order every node stands behind what it depends on. -/
theorem idxOf_lt_of_depends (ordered : g.order = .ok codes) (edge : g.Depends a b) :
    codes.idxOf b < codes.idxOf a := by
  obtain ⟨perm, notSelf, notLater⟩ := order_eq_ok ordered
  obtain ⟨hnode, hnode', edge⟩ := edge
  have ha : a ∈ codes := perm.mem_iff.2 hnode
  have hb : b ∈ codes := perm.mem_iff.2 hnode'
  have apart : codes.Pairwise fun a b => ¬g.hasEdge a b = true :=
    notLater.imp Bool.eq_false_iff.1
  exact Collection.idxOf_lt_of_pairwise_not apart (Bool.eq_false_iff.1 (notSelf a ha)) ha hb edge

/-- In an order whatever a node leads to, in any number of steps, stands before it. -/
theorem idxOf_lt_of_transGen (ordered : g.order = .ok codes)
    (leads : Relation.TransGen g.Depends a b) : codes.idxOf b < codes.idxOf a := by
  induction leads with
  | single edge => exact idxOf_lt_of_depends ordered edge
  | tail _ edge ih => exact Nat.lt_trans (idxOf_lt_of_depends ordered edge) ih

/-- A node that led to itself would stand before itself. -/
theorem acyclic_of_order (ordered : g.order = .ok codes) : g.Acyclic :=
  fun _ cycle => Nat.lt_irrefl _ (idxOf_lt_of_transGen ordered cycle)

/-- A graph has an order of evaluation exactly when no node depends on itself, directly or not. -/
theorem exists_order_iff : (∃ codes, g.order = .ok codes) ↔ g.Acyclic := by
  constructor
  · rintro ⟨codes, ordered⟩
    exact acyclic_of_order ordered
  · exact fun acyclic => exists_order_iff_peel.2 (peel_eq_nil_of_acyclic acyclic)

end Rollforward.Graph
