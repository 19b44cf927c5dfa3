import Rollforward.Proofs.Graph.Additions
import Rollforward.Proofs.Graph.Loop

/-!
# `Rollforward.Proofs.Graph.Least`: of all orders, the least

A graph may have many orders of evaluation. `Graph.order` answers the one in which the node
mentioned first comes first wherever the edges leave a choice.

The reason is one step of `peel`. Whatever order the nodes left are put in, the first of them
depends on none of them (`isReady_of_isArrangement`). `peel` takes the first ready node
(`peel_of_some`), so no other order begins with an earlier one. When both begin alike, the rests are
compared in the same way (`atMost_of_isArrangement`).

`isOrder_of_order` and `atMost_of_order` say it of the order of a graph. `order_congr` says what the
order hangs on: the nodes as they stand and which edges there are.
-/

set_option autoImplicit false

namespace Rollforward.Graph

/-- An order of evaluation: every node once, and behind all that it depends on. -/
structure IsOrder (g : Graph) (codes : List String) : Prop where
  nodup : codes.Nodup
  mem_iff : ∀ code, code ∈ codes ↔ g.contains code = true
  behind : ∀ a b, g.hasEdge a b = true → codes.idxOf b < codes.idxOf a

/-- The node `a` was mentioned before the node `b`. -/
def Before (g : Graph) (a b : String) : Prop := g.nodes.idxOf a < g.nodes.idxOf b

/-- The list of nodes `codes` is `others`, or has the node mentioned earlier where they first
differ. -/
def AtMost (g : Graph) (codes others : List String) : Prop :=
  codes = others ∨ List.Lex g.Before codes others

/-- The nodes `left` in an order in which none depends on itself or on one behind it. -/
structure IsArrangement (g : Graph) (left codes : List String) : Prop where
  perm : codes.Perm left
  notSelf : ∀ code ∈ codes, g.hasEdge code code = false
  notLater : codes.Pairwise fun code later => g.hasEdge code later = false

variable {g : Graph} {left codes others : List String} {code : String}

/-! ### One step -/

/-- Where no node is ready, all of them are left. -/
theorem peel_of_none (nothing : left.find? (g.isReady left) = none) :
    g.peel left = ([], left) := by
  rw [peel]
  split
  · rfl
  · next found => cases nothing.symm.trans found

/-- The first ready node is taken, and the order goes on without it. -/
theorem peel_of_some (found : left.find? (g.isReady left) = some code) :
    g.peel left = (code :: (g.peel (left.erase code)).1, (g.peel (left.erase code)).2) := by
  rw [peel]
  split
  · next nothing => cases nothing.symm.trans found
  · next other hother =>
    obtain rfl : other = code := Option.some.inj (hother.symm.trans found)
    rfl

/-- The first node of an arrangement depends on none of the nodes that are arranged. -/
theorem isReady_of_isArrangement (h : g.IsArrangement left (code :: codes)) :
    g.isReady left code = true := by
  rw [isReady_eq_true_iff]
  intro other hother
  obtain rfl | later := List.mem_cons.1 (h.perm.mem_iff.2 hother)
  · exact h.notSelf other List.mem_cons_self
  · exact List.rel_of_pairwise_cons h.notLater later

/-- What follows the first node of an arrangement is an arrangement of the others. -/
theorem IsArrangement.tail (h : g.IsArrangement left (code :: codes)) :
    g.IsArrangement (left.erase code) codes where
  perm := by
    have perm := h.perm.erase code
    rwa [List.erase_cons_head] at perm
  notSelf other hother := h.notSelf other (List.mem_cons_of_mem code hother)
  notLater := h.notLater.of_cons

/-! ### All steps -/

/-- The order in which nodes are taken off is at most any other arrangement of the nodes. -/
theorem atMost_of_isArrangement (apart : left.Pairwise g.Before) (all : (g.peel left).2 = [])
    (other : g.IsArrangement left others) : g.AtMost (g.peel left).1 others := by
  induction left using peel.induct g generalizing others with
  | case1 left nothing =>
      rw [peel_of_none nothing] at all ⊢
      obtain rfl : left = [] := all
      exact Or.inl (List.perm_nil.1 other.perm).symm
  | case2 left code found taken stuck _ ih =>
      obtain ⟨-, before, after, split, notReady⟩ := List.find?_eq_some_iff_append.1 found
      rw [peel_of_some found] at all ⊢
      cases others with
      | nil =>
          rw [List.nil_perm.1 other.perm] at found
          cases found
      | cons first others =>
          by_cases same : first = code
          · subst same
            exact (ih (apart.sublist List.erase_sublist) all other.tail).imp
              (congrArg (first :: ·)) .cons
          -- The other arrangement begins with a ready node, so with one behind `code`.
          · have ready := isReady_of_isArrangement other
            have hfirst : first ∈ left := other.perm.mem_iff.1 List.mem_cons_self
            rw [split, List.mem_append, List.mem_cons] at hfirst
            obtain early | late := hfirst
            · exact absurd ready (by simpa using notReady first early)
            · rw [split] at apart
              have later := List.rel_of_pairwise_cons (List.pairwise_append.1 apart).2.1
                (late.resolve_left same)
              exact Or.inr (.rel later)

/-! ### The order of a graph -/

/-- The nodes of a graph stand in the order in which they were mentioned. This is what lets a list
of nodes be compared by positions. -/
theorem pairwise_before (nodup : g.nodes.Nodup) : g.nodes.Pairwise g.Before := by
  rw [List.pairwise_iff_getElem]
  intro i j hi hj before
  rwa [Before, nodup.idxOf_getElem i hi, nodup.idxOf_getElem j hj]

/-- Where edges are between nodes, an order puts no node behind one that depends on it. -/
theorem IsOrder.isArrangement (wellFormed : g.WellFormed) (h : g.IsOrder codes) :
    g.IsArrangement g.nodes codes where
  perm := by
    refine (List.perm_ext_iff_of_nodup h.nodup wellFormed.nodup).2 fun code => ?_
    rw [h.mem_iff, contains, List.contains_iff_mem]
  notSelf code _ := eq_false_of_ne_true fun edge => Nat.lt_irrefl _ (h.behind code code edge)
  notLater := by
    rw [List.pairwise_iff_getElem]
    intro i j hi hj before
    refine eq_false_of_ne_true fun edge => ?_
    have behind := h.behind _ _ edge
    rw [h.nodup.idxOf_getElem i hi, h.nodup.idxOf_getElem j hj] at behind
    omega

/-- What a graph answers is an order of all its nodes. -/
theorem isOrder_of_order (wellFormed : g.WellFormed) (ordered : g.order = .ok codes) :
    g.IsOrder codes := by
  have perm := (order_eq_ok ordered).1
  refine ⟨perm.nodup_iff.2 wellFormed.nodup, fun code => ?_, fun a b edge => ?_⟩
  · rw [perm.mem_iff, contains, List.contains_iff_mem]
  · have ⟨ha, hb⟩ := wellFormed.ends a b edge
    exact idxOf_lt_of_depends ordered ⟨ha, hb, edge⟩

/-- An order is what is taken off, when nothing is left. -/
theorem order_eq_ok_iff_peel : g.order = .ok codes ↔ g.peel g.nodes = (codes, []) := by
  show (if (g.peel g.nodes).2.isEmpty then Except.ok (g.peel g.nodes).1 else _) = .ok codes ↔ _
  rw [Prod.ext_iff, ← List.isEmpty_iff]
  split
  · next empty => exact ⟨fun h => ⟨Except.ok.inj h, empty⟩, fun h => congrArg _ h.1⟩
  · next stuck => exact ⟨fun h => (by cases h), fun h => absurd h.2 stuck⟩

/-- The order of a graph is at most any other order that it has. -/
theorem atMost_of_order (wellFormed : g.WellFormed) (ordered : g.order = .ok codes)
    (other : g.IsOrder others) : g.AtMost codes others := by
  have peeled := order_eq_ok_iff_peel.1 ordered
  have least := atMost_of_isArrangement (pairwise_before wellFormed.nodup)
    (congrArg Prod.snd peeled) (other.isArrangement wellFormed)
  rwa [peeled] at least

/-! ### What the order hangs on -/

section Congruence

variable {g' : Graph} (same : ∀ a b, g.hasEdge a b = g'.hasEdge a b)
include same

/-- Readiness is a matter of edges, and only of whether they are there. -/
theorem isReady_congr (left : List String) : g.isReady left = g'.isReady left := by
  funext code
  simp only [isReady, same]

/-- So is what is taken off, from the same list of nodes. -/
theorem peel_congr (left : List String) : g.peel left = g'.peel left := by
  induction left using peel.induct g with
  | case1 left nothing =>
      rw [peel_of_none nothing, peel_of_none (by rwa [← isReady_congr same])]
  | case2 left code found taken stuck _ ih =>
      have found' : left.find? (g'.isReady left) = some code := by rwa [← isReady_congr same]
      rw [peel_of_some found, peel_of_some found', ih]

/-- And so is the walk to a cycle. -/
theorem follow_congr (left unseen path : List String) (code : String) :
    g.follow left unseen path code = g'.follow left unseen path code := by
  have nextOf?_congr (code : String) : g.nextOf? left code = g'.nextOf? left code := by
    simp only [nextOf?, same]
  induction unseen, path, code using follow.induct g left with
  | case1 unseen path code nothing =>
      rw [follow, nothing, follow, ← nextOf?_congr, nothing]
  | case2 unseen path code next found closes =>
      rw [follow_of_closes found closes, follow_of_closes (by rwa [← nextOf?_congr]) closes]
  | case3 unseen path code next found offPath fresh ih =>
      rw [follow_of_fresh found offPath fresh,
        follow_of_fresh (by rwa [← nextOf?_congr]) offPath fresh, ih]
  | case4 unseen path code next found offPath known =>
      rw [follow, found, follow, ← nextOf?_congr, found]
      simp only [if_neg offPath, dif_neg known]

/-- Graphs with the same nodes in the same order and the same edges have the same order, or report
the same cycle. -/
theorem order_congr (nodes : g.nodes = g'.nodes) : g.order = g'.order := by
  have stuck : g.stuck = g'.stuck := by rw [stuck, stuck, ← nodes, peel_congr same]
  have cycle : g.findCycle? = g'.findCycle? := by
    rw [findCycle?, findCycle?, ← stuck]
    cases g.stuck with
    | nil => rfl
    | cons first rest => exact follow_congr same _ _ _ _
  rw [order, order, ← nodes, peel_congr same, cycle]

end Congruence

end Rollforward.Graph
