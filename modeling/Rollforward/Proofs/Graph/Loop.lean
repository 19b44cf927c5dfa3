import Mathlib.Data.List.Chain
import Rollforward.Proofs.Graph.Cycle

/-!
# `Rollforward.Proofs.Graph.Loop`: the cycle that is found is one

Where nodes are left that no order reaches, `Graph.follow` walks from one of them to one that it
depends on, and on, until a node comes back. Nothing stops the walk before that. Each node left
depends on another of them, so there is always a next one, and a next one that is not on the path is
among the unseen (`Walk`). The unseen get fewer with every step, so one comes back, and the part of
the path behind its first visit is the cycle (`isCycle_of_closes`).

So a cycle is found where nodes are left (`exists_findCycle?`), and a graph without an order answers
with it (`order_eq_error_iff`).
-/

set_option autoImplicit false

namespace Rollforward.Graph

/-- Codes, each of which depends on the next, back to the first. Apart from that none comes twice.
-/
structure IsCycle (g : Graph) (cycle : List String) : Prop where
  /-- There is at least one edge. -/
  edge : 2 ≤ cycle.length
  closed : cycle.head? = cycle.getLast?
  simple : cycle.dropLast.Nodup
  depends : cycle.IsChain fun a b => g.hasEdge a b = true

/-- A walk among `left` that has come to `code`, along `path`, the latest first. -/
structure Walk (g : Graph) (left unseen path : List String) (code : String) : Prop where
  mem : code ∈ left
  simple : (code :: path).Nodup
  depends : (code :: path).IsChain fun a b => g.hasEdge b a = true
  /-- What is not on the path is still to be seen. -/
  seen : ∀ other ∈ left, other ∈ code :: path ∨ other ∈ unseen

variable {g : Graph} {left unseen path : List String} {code next : String}

/-! ### One step of the walk -/

/-- The walk has come back to its path. The cycle is the part of the path from there, turned around
and closed. -/
theorem follow_of_closes (found : g.nextOf? left code = some next) (closes : next ∈ code :: path) :
    g.follow left unseen path code =
      some (((code :: path).takeWhile (· != next) ++ [next]).reverse ++ [next]) := by
  rw [follow, found]
  exact if_pos closes

/-- The walk goes on to a node that it has not seen, which is then no longer unseen. Termination is
by the unseen. -/
theorem follow_of_fresh (found : g.nextOf? left code = some next) (offPath : next ∉ code :: path)
    (fresh : next ∈ unseen) :
    g.follow left unseen path code = g.follow left (unseen.erase next) (code :: path) next := by
  rw [follow, found]
  exact (if_neg offPath).trans (dif_pos fresh)

/-- The next node is among those left, and the one before depends on it. -/
theorem nextOf?_eq_some (found : g.nextOf? left code = some next) :
    next ∈ left ∧ g.hasEdge code next = true :=
  ⟨List.mem_of_find?_eq_some found, List.find?_some found⟩

/-- From a node that depends on one of those left there is a way on. -/
theorem exists_nextOf? (depends : ∃ other ∈ left, g.hasEdge code other = true) :
    ∃ next, g.nextOf? left code = some next := by
  obtain ⟨other, hother, edge⟩ := depends
  exact Option.isSome_iff_exists.1 (List.find?_isSome.2 ⟨other, hother, edge⟩)

namespace Walk

/-- A walk goes on to a node that it has not seen. -/
theorem step (walk : g.Walk left unseen path code) (found : g.nextOf? left code = some next)
    (offPath : next ∉ code :: path) : g.Walk left (unseen.erase next) (code :: path) next where
  mem := (nextOf?_eq_some found).1
  simple := List.nodup_cons.2 ⟨offPath, walk.simple⟩
  depends := List.isChain_cons_cons.2 ⟨(nextOf?_eq_some found).2, walk.depends⟩
  seen other hother := by
    obtain onPath | fresh := walk.seen other hother
    · exact Or.inl (List.mem_cons_of_mem next onPath)
    · by_cases same : other = next
      · exact Or.inl (List.mem_cons.2 (Or.inl same))
      · exact Or.inr ((List.mem_erase_of_ne same).2 fresh)

/-- The path from the first visit of a node on it, the latest first. -/
theorem exists_segment (closes : next ∈ code :: path) :
    ∃ back front, code :: path = front ++ next :: back ∧
      (code :: path).takeWhile (· != next) = front := by
  obtain ⟨front, back, split, fresh⟩ := List.eq_append_cons_of_mem closes
  refine ⟨back, front, split, ?_⟩
  have before : ∀ other ∈ front, (other != next) = true := by
    intro other hother
    refine bne_iff_ne.2 ?_
    rintro rfl
    exact fresh hother
  rw [split, List.takeWhile_append_of_pos before, List.takeWhile_cons_of_neg (by simp),
    List.append_nil]

/-- Where the next node is on the path, the part of the path from there is a cycle. -/
theorem isCycle_of_closes (walk : g.Walk left unseen path code)
    (found : g.nextOf? left code = some next) (closes : next ∈ code :: path) :
    g.IsCycle (((code :: path).takeWhile (· != next) ++ [next]).reverse ++ [next]) := by
  obtain ⟨back, front, split, rfl⟩ := exists_segment closes
  generalize (code :: path).takeWhile (· != next) = front at split ⊢
  have part : front ++ [next] <+: code :: path := ⟨back, by rw [split, List.append_assoc]; rfl⟩
  have latest : (front ++ [next]).head? = some code := by
    have whole : (front ++ [next] ++ back).head? = some code := by
      rw [List.append_assoc, List.singleton_append, ← split]
      rfl
    rwa [List.head?_append_of_ne_nil _ (by simp)] at whole
  constructor
  · simp
  · rw [List.getLast?_concat, List.reverse_append]
    rfl
  · rw [List.dropLast_concat, List.nodup_reverse]
    exact part.sublist.nodup walk.simple
  · -- Turned around, the path leads along its edges, and the last edge is the one just found.
    refine List.isChain_append.2 ⟨?_, .singleton next, ?_⟩
    · exact List.isChain_reverse.2 <| List.IsChain.prefix walk.depends part
    · intro a ha b hb
      rw [List.getLast?_reverse, latest] at ha
      obtain rfl : code = a := Option.some.inj ha
      obtain rfl : next = b := Option.some.inj hb
      exact (nextOf?_eq_some found).2

/-- A walk ends, and with a cycle. -/
theorem exists_isCycle (depends : ∀ code ∈ left, ∃ other ∈ left, g.hasEdge code other = true)
    (walk : g.Walk left unseen path code) :
    ∃ cycle, g.follow left unseen path code = some cycle ∧ g.IsCycle cycle := by
  induction unseen, path, code using follow.induct g left with
  | case1 unseen path code nothing =>
      obtain ⟨next, found⟩ := exists_nextOf? (depends code walk.mem)
      cases nothing.symm.trans found
  | case2 unseen path code next found closes =>
      exact ⟨_, follow_of_closes found closes, walk.isCycle_of_closes found closes⟩
  | case3 unseen path code next found offPath fresh ih =>
      obtain ⟨cycle, followed, isCycle⟩ := ih (walk.step found offPath)
      exact ⟨cycle, (follow_of_fresh found offPath fresh).trans followed, isCycle⟩
  | case4 unseen path code next found offPath known =>
      exact absurd (walk.seen next (nextOf?_eq_some found).1) (not_or.2 ⟨offPath, known⟩)

end Walk

/-! ### The cycle of a graph -/

/-- Where no node is left there is no walk. -/
theorem findCycle?_of_nil (nil : g.stuck = []) : g.findCycle? = none := by
  rw [findCycle?, nil]

/-- Where nodes are left that no order reaches, a cycle is found. -/
theorem exists_findCycle? (stuck : g.stuck ≠ []) :
    ∃ cycle, g.findCycle? = some cycle ∧ g.IsCycle cycle := by
  obtain ⟨first, rest, split⟩ := List.exists_cons_of_ne_nil stuck
  have depends : ∀ code ∈ g.stuck, ∃ other ∈ g.stuck, g.hasEdge code other = true :=
    fun code hcode => exists_hasEdge_of_mem_peel hcode
  have start : g.Walk (first :: rest) rest [] first :=
    ⟨List.mem_cons_self, List.nodup_singleton first, .singleton first, fun other hother => by
      rwa [List.mem_singleton, ← List.mem_cons]⟩
  rw [split] at depends
  rw [findCycle?, split]
  exact start.exists_isCycle depends

/-- And where one is left, the walk ends with a cycle. The search never comes back with nothing in
that case. -/
theorem findCycle?_eq_none_iff_stuck : g.findCycle? = none ↔ g.stuck = [] := by
  refine ⟨fun nothing => ?_, findCycle?_of_nil⟩
  by_contra stuck
  obtain ⟨cycle, found, -⟩ := exists_findCycle? stuck
  cases nothing.symm.trans found

/-- What is found is a cycle. -/
theorem isCycle_of_findCycle? {cycle : List String} (found : g.findCycle? = some cycle) :
    g.IsCycle cycle := by
  have stuck : g.stuck ≠ [] := fun nil => by cases (findCycle?_of_nil nil).symm.trans found
  obtain ⟨cycle', found', isCycle⟩ := exists_findCycle? stuck
  rwa [Option.some.inj (found.symm.trans found')]

/-- A graph has an order or a cycle is found in it, never both. -/
theorem exists_order_iff_findCycle? :
    (∃ codes, g.order = .ok codes) ↔ g.findCycle? = none :=
  exists_order_iff_peel.trans findCycle?_eq_none_iff_stuck.symm

/-- A graph without an order answers with the cycle that is found. -/
theorem order_eq_error_iff {cycle : List String} :
    g.order = .error cycle ↔ g.findCycle? = some cycle := by
  show (if g.stuck.isEmpty then _ else Except.error (g.findCycle?.getD [])) = _ ↔ _
  split
  · next empty =>
    rw [findCycle?_of_nil (List.isEmpty_iff.1 empty)]
    exact iff_of_false nofun nofun
  · next stuck =>
    obtain ⟨cycle', found, -⟩ := exists_findCycle? fun nil => stuck (List.isEmpty_iff.2 nil)
    rw [found]
    simp

end Rollforward.Graph
