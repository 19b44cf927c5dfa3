import Mathlib.Data.List.Forall2
import Rollforward.Proofs.Graph.Reach
import Rollforward.Proofs.Statement.Compile
import Rollforward.Statement.Impact

/-!
# `Rollforward.Proofs.Statement.Impact`: what a change of an item reaches

The impact of an item is what leads to it in the graph (`mem_impactOf_iff`), so it is closed: an
item that reads one of it belongs to it (`mem_impactOf_of_reads`), and an item outside reads none of
it (`not_mem_impactOf_of_reads`).

`DifferOnlyAt` relates two statements that differ in one item. What the item itself reads has no
part in what leads to it, so the impact is the same in both (`DifferOnlyAt.mem_impactOf_iff`).
-/

set_option autoImplicit false

namespace Rollforward.Statement

variable {s s' : Statement} {code : String}

/-! ### The impact of an item -/

namespace IsCompiled

/-- Listing the items in the order of evaluation loses none of them. -/
theorem mem_inOrder (h : s.IsCompiled) {i : Item} : i ∈ s.inOrder ↔ i ∈ s.items := by
  rw [inOrder, List.mem_filterMap, List.mem_iff_getElem?]
  constructor
  · rintro ⟨p, -, hp⟩
    exact ⟨p, hp⟩
  · rintro ⟨p, hp⟩
    exact ⟨p, h.mem_order.2 (List.getElem?_eq_some_iff.1 hp).1, hp⟩

/-- The impact of an item is every other item that leads to it. -/
theorem mem_impactOf_iff (h : s.IsCompiled) {other : String} :
    other ∈ s.impactOf code ↔
      other ∈ s.codes ∧ other ≠ code ∧ code ∈ s.codes ∧ s.graph.Leads other code := by
  have listed : other ∈ s.inOrder.map Item.code ↔ other ∈ s.codes := by
    simp only [codes, List.mem_map, h.mem_inOrder]
  have reached : other ∈ s.graph.downstream [code] ↔
      code ∈ s.codes ∧ s.graph.Leads other code := by
    rw [Graph.mem_downstream_iff, h.nodes]
    simp only [List.mem_singleton, exists_eq_left]
  rw [impactOf, List.mem_filter, listed, Bool.and_eq_true, bne_iff_ne, List.contains_iff_mem,
    reached]

/-- An item that reads the one that changes, or one of its impact, is of the impact itself. -/
theorem mem_impactOf_of_reads (h : s.IsCompiled) {i : Item} (hi : i ∈ s.items)
    (other : i.code ≠ code) {d : String} (reads : d ∈ readsOf s.codes i)
    (affected : d = code ∨ d ∈ s.impactOf code) : i.code ∈ s.impactOf code := by
  have known : i.code ∈ s.codes := List.mem_map_of_mem hi
  have edge : i.code ∈ s.graph.nodes ∧ s.graph.hasEdge i.code d = true := by
    rw [h.nodes, h.hasEdge i hi]
    exact ⟨known, reads⟩
  rw [h.mem_impactOf_iff]
  cases affected with
  | inl same =>
      rw [← same]
      exact ⟨known, same ▸ other, (mem_readsOf.1 reads).1, .single edge⟩
  | inr further =>
      obtain ⟨-, -, start, leads⟩ := h.mem_impactOf_iff.1 further
      exact ⟨known, other, start, .head edge leads⟩

/-- An item outside the impact reads neither the one that changes nor one of its impact. -/
theorem not_mem_impactOf_of_reads (h : s.IsCompiled) {i : Item} (hi : i ∈ s.items)
    (other : i.code ≠ code) (outside : i.code ∉ s.impactOf code) {d : String}
    (reads : d ∈ readsOf s.codes i) : d ≠ code ∧ d ∉ s.impactOf code := by
  rw [← not_or]
  exact fun affected => outside (h.mem_impactOf_of_reads hi other reads affected)

end IsCompiled

/-! ### A change of one item -/

/-- The statements have the same items in the same order, and every item but `code` has the same
formula in both. -/
def DifferOnlyAt (code : String) (s s' : Statement) : Prop :=
  List.Forall₂ (fun i j => i.code = j.code ∧ (i.code ≠ code → i.formula = j.formula))
    s.items s'.items

namespace DifferOnlyAt

/-- Which of the two statements was there before the change plays no role. -/
theorem symm (h : DifferOnlyAt code s s') : DifferOnlyAt code s' s := by
  refine (List.Forall₂.flip h).imp fun j i same => ?_
  exact ⟨same.1.symm, fun other => (same.2 (same.1 ▸ other)).symm⟩

/-- The change of an item does not change its code. -/
theorem codes_eq (h : DifferOnlyAt code s s') : s.codes = s'.codes := by
  rw [codes, codes, ← List.forall₂_eq_eq_eq, List.forall₂_map_left_iff, List.forall₂_map_right_iff]
  exact h.imp fun i j same => same.1

/-- An item has its counterpart in the other statement. -/
theorem exists_item (h : DifferOnlyAt code s s') {i : Item} (hi : i ∈ s.items) :
    ∃ j ∈ s'.items, j.code = i.code ∧ (i.code ≠ code → j.formula = i.formula) := by
  obtain ⟨p, bound, hp⟩ := List.mem_iff_getElem.1 hi
  have bound' : p < s'.items.length := List.Forall₂.length_eq h ▸ bound
  obtain ⟨same, formula⟩ := List.Forall₂.get h bound bound'
  rw [List.get_eq_getElem, hp] at same formula
  exact ⟨s'.items[p], List.getElem_mem bound', same.symm, fun other => (formula other).symm⟩

/-- What leads to the item leads to it in the other statement, since the way there ends with it. -/
theorem leads (h : DifferOnlyAt code s s') (compiled : s.IsCompiled) (compiled' : s'.IsCompiled)
    {other : String} (leads : s.graph.Leads other code) : s'.graph.Leads other code := by
  induction leads using Relation.ReflTransGen.head_induction_on with
  | refl => exact .refl
  | @head a b edge _ ih =>
      by_cases self : a = code
      · rw [self]
        exact .refl
      · obtain ⟨node, edge⟩ := edge
        rw [compiled.nodes] at node
        obtain ⟨i, hi, rfl⟩ := List.mem_map.1 node
        obtain ⟨j, hj, same, formula⟩ := h.exists_item hi
        refine .head ⟨?_, ?_⟩ ih
        · rwa [compiled'.nodes, ← h.codes_eq]
        · have reads := (compiled.hasEdge i hi b).1 edge
          rw [← same, compiled'.hasEdge j hj, ← h.codes_eq]
          rwa [readsOf, Item.references, same, formula self]

/-- A change of an item does not change its impact. -/
theorem mem_impactOf_iff (h : DifferOnlyAt code s s') (compiled : s.IsCompiled)
    (compiled' : s'.IsCompiled) (other : String) :
    other ∈ s.impactOf code ↔ other ∈ s'.impactOf code := by
  rw [compiled.mem_impactOf_iff, compiled'.mem_impactOf_iff, h.codes_eq]
  have same : s.graph.Leads other code ↔ s'.graph.Leads other code :=
    ⟨h.leads compiled compiled', h.symm.leads compiled' compiled⟩
  rw [same]

end DifferOnlyAt

end Rollforward.Statement
