import Rollforward.Proofs.Graph.Counting

/-!
# `Rollforward.Proofs.Graph.Passes`: the order and the cycle that passes answer

A graph is asked for an order of evaluation and for a cycle, and both answers come of passes that
count. A pass that has taken every node off has them in an order (`Discipline.order`). Where it has
not, a second pass is made, and the nodes that this one leaves are searched for a cycle
(`Discipline.findCycle?`). The worklist of the first pass is a heap, that of the second a queue.

`Discipline.order_eq` and `Discipline.findCycle?_eq` say that the answers are those of `Graph.order`
and `Graph.findCycle?`. For the order the heap is needed, since the nodes left could come in many
orders. For the cycle no discipline is: which nodes stay does not depend on it.

`order_least` and `findCycle_iff` are the main results. They say of every graph that can be built
what the two answers are, and that passes come to them.
-/

set_option autoImplicit false

namespace Rollforward.Graph

variable {g : Graph}

namespace Discipline

variable {d : g.Discipline}

/-! ### The answers -/

/-- The cycle that is found among the nodes that a pass does not take off. -/
def findCycle? (d : g.Discipline) : Option (List String) :=
  match d.remainder with
  | [] => none
  | first :: rest => g.follow (first :: rest) rest [] first

/-- The nodes in the order in which one pass takes them off, if these are all, and else the cycle
that is found behind another pass. -/
def order (d other : g.Discipline) : Except (List String) (List String) :=
  if d.taken.length = g.nodes.length then .ok d.taken else .error (other.findCycle?.getD [])

/-- Behind every pass the same cycle is found. -/
theorem findCycle?_eq (wellFormed : g.WellFormed) (d : g.Discipline) :
    d.findCycle? = g.findCycle? := by
  rewrite [findCycle?, remainder_eq_stuck wellFormed, Graph.findCycle?]
  rfl

/-- A pass with a heap has the order of the graph, and where it has none the cycle found behind any
other pass is that of the graph. -/
theorem order_eq (wellFormed : g.WellFormed) (heap : d.IsHeap) (other : g.Discipline) :
    d.order other = g.order := by
  have taken : d.taken = (g.peel g.nodes).1 :=
    drain_eq_of_isHeap heap wellFormed.nodup (.start d) (inPlace_start heap)
  have length := (peel_perm g g.nodes).length_eq
  rw [List.length_append] at length
  show _ = if (g.peel g.nodes).2.isEmpty then Except.ok (g.peel g.nodes).1 else _
  rw [order, taken, findCycle?_eq wellFormed]
  refine if_congr ?_ rfl rfl
  rw [List.isEmpty_iff_length_eq_zero]
  omega

/-- The worklist is a heap: it hands out the node that was mentioned first. -/
def heap (g : Graph) : g.Discipline where
  dependents := g.dependentsOf
  push ready code := ready.orderedInsert (fun a b => g.nodes.idxOf a ≤ g.nodes.idxOf b) code
  dependents_perm _ := List.Perm.refl _
  push_perm ready code := List.perm_orderedInsert _ code ready

/-- There is a heap, so what is said of heaps is said of something. -/
theorem isHeap_heap (g : Graph) : (heap g).IsHeap := by
  have total : Std.Total fun a b => g.nodes.idxOf a ≤ g.nodes.idxOf b :=
    ⟨fun a b => Nat.le_total (g.nodes.idxOf a) (g.nodes.idxOf b)⟩
  have trans : IsTrans String fun a b => g.nodes.idxOf a ≤ g.nodes.idxOf b :=
    ⟨fun _ _ _ => Nat.le_trans⟩
  exact fun ready code sorted => List.Pairwise.orderedInsert code ready sorted

/-- The worklist is a queue: it hands out the node that came first. -/
def queue (g : Graph) : g.Discipline where
  dependents := g.dependentsOf
  push ready code := ready ++ [code]
  dependents_perm _ := List.Perm.refl _
  push_perm ready code := List.perm_append_singleton code ready

/-- A queue takes off `C`, `D`, `A`, a heap `C`, `A`, `D`. -/
example :
    let g := ofAdditions [.node "A", .edge "A" "C", .node "D", .edge "B" "B"]
    (heap g).taken = ["C", "A", "D"] ∧ (queue g).taken = ["C", "D", "A"] ∧
      (queue g).remainder = ["B"] := by
  decide +kernel

end Discipline

/-! ### The graphs that can be built -/

/-- In a graph that is built there is an order exactly when no node depends on itself, directly or
not. The order is one, and of all orders it is the least. A pass whose worklist is a heap comes to
it, in whatever order it goes over the dependents of a node. The order hangs on that of the nodes
and on which edges there are, not on when they were added. -/
theorem order_least (additions : List Addition) :
    let g := ofAdditions additions
    ((∃ codes, g.order = .ok codes) ↔ g.Acyclic) ∧
      (∀ codes, g.order = .ok codes →
        g.IsOrder codes ∧ ∀ others, g.IsOrder others → g.AtMost codes others) ∧
      ((Discipline.heap g).IsHeap ∧
        ∀ d other : g.Discipline, d.IsHeap → d.order other = g.order) ∧
      ∀ additions', (ofAdditions additions').nodes = g.nodes →
        (∀ a b, Addition.edge a b ∈ additions' ↔ Addition.edge a b ∈ additions) →
        (ofAdditions additions').order = g.order := by
  intro g
  have wellFormed : g.WellFormed := wellFormed_ofAdditions additions
  refine ⟨exists_order_iff, fun codes ordered => ?_, ?_, fun additions' nodes edges => ?_⟩
  · exact ⟨isOrder_of_order wellFormed ordered,
      fun others other => atMost_of_order wellFormed ordered other⟩
  · exact ⟨Discipline.isHeap_heap g, fun d other heap => Discipline.order_eq wellFormed heap other⟩
  · refine order_congr (fun a b => ?_) nodes
    rw [Bool.eq_iff_iff, hasEdge_ofAdditions_iff, hasEdge_ofAdditions_iff]
    exact edges a b

/-- `C` and `B` could come either way round, and `C` was mentioned first. A pass with a heap has
this order too. -/
theorem order_least_diamond :
    let g := ofAdditions [.node "D", .node "C", .edge "D" "B", .edge "B" "A", .edge "C" "A",
      .edge "D" "C"]
    g.order = .ok ["A", "C", "B", "D"] ∧ g.IsOrder ["A", "B", "C", "D"] ∧
      g.AtMost ["A", "C", "B", "D"] ["A", "B", "C", "D"] ∧
      (Discipline.heap g).order (Discipline.queue g) = .ok ["A", "C", "B", "D"] := by
  intro g
  have ordered : g.order = .ok ["A", "C", "B", "D"] := by decide +kernel
  have other : g.IsOrder ["A", "B", "C", "D"] := by
    refine ⟨by decide, fun code => ?_, fun a b edge => ?_⟩
    · rw [contains, List.contains_iff_mem, show g.nodes = ["D", "C", "B", "A"] by decide +kernel]
      exact (List.reverse_perm ["D", "C", "B", "A"]).mem_iff
    · have added := hasEdge_ofAdditions_iff.1 edge
      simp only [List.mem_cons, List.not_mem_nil, or_false, Addition.edge.injEq, reduceCtorEq,
        false_or] at added
      rcases added with ⟨rfl, rfl⟩ | ⟨rfl, rfl⟩ | ⟨rfl, rfl⟩ | ⟨rfl, rfl⟩ <;> decide
  obtain ⟨-, least, ⟨heap, passes⟩, -⟩ := order_least _
  exact ⟨ordered, other, (least _ ordered).2 _ other, (passes _ _ heap).trans ordered⟩

/-- In a graph that is built a cycle is found exactly when there is one, which is when there is no
order. What is found is a cycle along edges of the graph, and the cycle that the missing order is
reported with. Behind every pass it is the same cycle. -/
theorem findCycle_iff (additions : List Addition) :
    let g := ofAdditions additions
    (g.findCycle? = none ↔ g.Acyclic) ∧ (g.Acyclic ↔ ∃ codes, g.order = .ok codes) ∧
      (∀ cycle, g.findCycle? = some cycle → g.IsCycle cycle) ∧
      (∀ cycle, g.order = .error cycle ↔ g.findCycle? = some cycle) ∧
      (g.hasCycle = true ↔ ∃ cycle, g.order = .error cycle) ∧
      ∀ d other : g.Discipline, d.findCycle? = g.findCycle? ∧
        (d.IsHeap → d.order other = g.order) := by
  intro g
  have wellFormed : g.WellFormed := wellFormed_ofAdditions additions
  refine ⟨exists_order_iff_findCycle?.symm.trans exists_order_iff, exists_order_iff.symm,
    fun cycle => isCycle_of_findCycle?, fun cycle => order_eq_error_iff, ?_, fun d other => ?_⟩
  · rw [hasCycle, Option.isSome_iff_exists]
    exact exists_congr fun cycle => order_eq_error_iff.symm
  · exact ⟨d.findCycle?_eq wellFormed, fun heap => Discipline.order_eq wellFormed heap other⟩

/-- `START` is first, but it is not on the cycle. A pass with a queue leaves the nodes of the cycle.
-/
theorem findCycle_iff_behind_start :
    let g := ofAdditions [.node "START", .edge "P" "START", .edge "P" "R", .edge "Q" "P",
      .edge "R" "Q"]
    g.findCycle? = some ["P", "R", "Q", "P"] ∧ g.IsCycle ["P", "R", "Q", "P"] ∧
      g.order = .error ["P", "R", "Q", "P"] ∧ ¬g.Acyclic ∧
      (Discipline.queue g).findCycle? = some ["P", "R", "Q", "P"] := by
  intro g
  have found : g.findCycle? = some ["P", "R", "Q", "P"] := by decide +kernel
  obtain ⟨acyclic, -, isCycle, reported, -, passes⟩ := findCycle_iff _
  have behind := (passes (Discipline.queue g) (Discipline.queue g)).1
  refine ⟨found, isCycle _ found, (reported _).2 found, fun none => ?_, behind.trans found⟩
  cases (acyclic.2 none).symm.trans found

end Rollforward.Graph
