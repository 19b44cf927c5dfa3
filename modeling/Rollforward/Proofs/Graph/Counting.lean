import Mathlib.Algebra.Order.BigOperators.Group.List
import Mathlib.Algebra.Order.Ring.Nat
import Mathlib.Data.List.Nodup
import Mathlib.Data.List.Sort
import Rollforward.Proofs.Graph.Least

/-!
# `Rollforward.Proofs.Graph.Counting`: taking nodes off by counting

`Graph.peel` looks through the nodes left for one that is ready, again and again. The same is done
faster with a tally: how many dependencies each node still waits for, and a worklist of the nodes
that wait for none. Who takes a node off counts down those that depend on it, and puts those that
come to zero on the worklist.

Two things are left open by that, and a `Discipline` fixes them: in what order the dependents of a
node are gone over, and where the worklist puts a node. A heap hands out the node mentioned first, a
queue the one that came first.

`Tallies` is what the counting keeps (`Tallies.step`): the tally is that of the nodes left. With a
heap the nodes are therefore taken off in the order of `peel` (`drain_eq_of_isHeap`). Without one
the order may be another, but the nodes that stay are the same (`filter_drain_eq`), since a node
that is ready stays ready until it is taken (`peel_erase_of_isReady`).
-/

set_option autoImplicit false

namespace Rollforward.Graph

variable {g : Graph} {left : List String} {code : String}

/-! ### The counting -/

/-- How many dependencies each node waits for, and the nodes to be taken off next. -/
structure Tally where
  waiting : String → Nat
  ready : List String

/-- What a pass over a graph may do one way or another. -/
structure Discipline (g : Graph) where
  /-- The dependents of a node, in the order in which they are counted down. -/
  dependents : String → List String
  /-- Puts a node on the worklist. -/
  push : List String → String → List String
  dependents_perm : ∀ code, (dependents code).Perm (g.dependentsOf code)
  push_perm : ∀ ready code, (push ready code).Perm (code :: ready)

namespace Discipline

/-- One dependency of the node has been taken off. -/
def countDown (d : g.Discipline) (t : Tally) (code : String) : Tally :=
  match t.waiting code with
  -- No pass comes here: the dependents of a node wait for it as long as it is left.
  | 0 => t
  | n + 1 =>
    ⟨Function.update t.waiting code n, if n = 0 then d.push t.ready code else t.ready⟩

/-- What there is still to count down and to take off. -/
def weight (g : Graph) (t : Tally) : Nat := (g.nodes.map t.waiting).sum + t.ready.length

/-- Counting down takes one from what a node waits for and puts one node on the worklist at most, so
the weight does not go up. The loop ends because of it. -/
theorem weight_countDown_le (d : g.Discipline) (t : Tally) (node : code ∈ g.nodes) :
    weight g (d.countDown t code) ≤ weight g t := by
  unfold countDown
  split
  · exact Nat.le_refl _
  · next n waits =>
    have less : (g.nodes.map (Function.update t.waiting code n)).sum <
        (g.nodes.map t.waiting).sum := by
      refine List.sum_lt_sum _ _ (fun other _ => ?_) ⟨code, node, ?_⟩
      · by_cases same : other = code
        · subst same
          rw [Function.update_self, waits]
          exact Nat.le_succ n
        · exact Nat.le_of_eq (Function.update_of_ne same n t.waiting)
      · rw [Function.update_self, waits]
        exact Nat.lt_succ_self n
    have longer : (if n = 0 then d.push t.ready code else t.ready).length ≤ t.ready.length + 1 := by
      split
      · exact Nat.le_of_eq (d.push_perm t.ready code).length_eq
      · exact Nat.le_succ _
    simp only [weight]
    omega

/-- Nodes that are put on the worklist one by one are on it, with those that were before. -/
theorem foldl_push_perm (d : g.Discipline) (codes ready : List String) :
    (codes.foldl d.push ready).Perm (codes ++ ready) := by
  induction codes generalizing ready with
  | nil => exact List.Perm.refl ready
  | cons code codes ih =>
      exact (ih _).trans (((d.push_perm ready code).append_left codes).trans List.perm_middle)

/-- Only nodes are counted down. -/
theorem mem_nodes_of_mem_dependents (d : g.Discipline) {other : String}
    (h : other ∈ d.dependents code) : other ∈ g.nodes :=
  List.mem_of_mem_filter ((d.dependents_perm code).subset h)

/-- The node has been taken off. -/
def countOff (d : g.Discipline) (t : Tally) (code : String) : Tally :=
  (d.dependents code).foldl d.countDown t

/-- Nor does counting down all dependents of a node raise the weight. -/
theorem weight_countOff_le (d : g.Discipline) (t : Tally) (code : String) :
    weight g (d.countOff t code) ≤ weight g t := by
  have counted {codes : List String} (nodes : ∀ other ∈ codes, other ∈ g.nodes) (t : Tally) :
      weight g (codes.foldl d.countDown t) ≤ weight g t := by
    induction codes generalizing t with
    | nil => exact Nat.le_refl _
    | cons other codes ih =>
        obtain ⟨node, nodes⟩ := List.forall_mem_cons.1 nodes
        exact Nat.le_trans (ih nodes _) (d.weight_countDown_le t node)
  exact counted (fun other => d.mem_nodes_of_mem_dependents) t

/-- The nodes that are taken off, the first taken first. -/
def drain (d : g.Discipline) (t : Tally) : List String :=
  match _next : t.ready with
  | [] => []
  | code :: rest => code :: d.drain (d.countOff ⟨t.waiting, rest⟩ code)
termination_by weight g t
decreasing_by
  refine Nat.lt_of_le_of_lt (d.weight_countOff_le _ code) ?_
  simp only [weight, _next, List.length_cons]
  omega

/-- The tally of the whole graph. -/
def start (d : g.Discipline) : Tally :=
  let waiting code := (g.dependenciesOf code).length
  ⟨waiting, (g.nodes.filter (waiting · == 0)).foldl d.push []⟩

/-- The nodes that a pass takes off. -/
def taken (d : g.Discipline) : List String := d.drain d.start

/-- The nodes that a pass does not take off. -/
def remainder (d : g.Discipline) : List String := g.nodes.filter fun code => code ∉ d.taken

/-- The loop ends where no node is ready. -/
theorem drain_of_nil (d : g.Discipline) {t : Tally} (none : t.ready = []) : d.drain t = [] := by
  rw [drain]
  split
  · rfl
  · next code rest next => cases none.symm.trans next

/-- One round of the loop: a node is taken, and what depends on it is counted down. -/
theorem drain_of_cons (d : g.Discipline) {t : Tally} {rest : List String}
    (next : t.ready = code :: rest) :
    d.drain t = code :: d.drain (d.countOff ⟨t.waiting, rest⟩ code) := by
  rw [drain]
  split
  · next none => cases none.symm.trans next
  · next code' rest' next' =>
    obtain ⟨rfl, rfl⟩ := List.cons.inj (next'.symm.trans next)
    rfl

/-! ### Counting down the dependents of a node -/

/-- Nodes that all wait for something wait for one less afterwards. Those that waited for one thing
only are put on the worklist. -/
theorem foldl_countDown (d : g.Discipline) {codes : List String} (nodup : codes.Nodup) (t : Tally)
    (waits : ∀ other ∈ codes, 0 < t.waiting other) :
    (∀ other, (codes.foldl d.countDown t).waiting other =
      t.waiting other - if other ∈ codes then 1 else 0) ∧
    (codes.foldl d.countDown t).ready.Perm (codes.filter (t.waiting · == 1) ++ t.ready) := by
  induction codes generalizing t with
  | nil => exact ⟨fun other => by simp, List.Perm.refl _⟩
  | cons code codes ih =>
      obtain ⟨fresh, nodup⟩ := List.nodup_cons.1 nodup
      -- No count is taken below zero, where the subtraction would hide it.
      obtain ⟨n, hn⟩ := Nat.exists_eq_succ_of_ne_zero (waits code List.mem_cons_self).ne'
      have counted : d.countDown t code =
          ⟨Function.update t.waiting code n, if n = 0 then d.push t.ready code else t.ready⟩ := by
        rw [countDown, hn]
      -- The codes differ, so the counts of the later ones are still the old ones.
      have others {other : String} (h : other ∈ codes) :
          Function.update t.waiting code n other = t.waiting other :=
        Function.update_of_ne (by rintro rfl; exact fresh h) n t.waiting
      obtain ⟨waiting, ready⟩ := ih nodup (d.countDown t code) fun other hother => by
        rw [counted]
        simp only [others hother]
        exact waits other (List.mem_cons_of_mem code hother)
      rw [List.foldl_cons]
      constructor
      · intro other
        rw [waiting, counted]
        by_cases same : other = code
        · subst same
          simp [fresh, hn]
        · simp [same]
      · refine ready.trans ?_
        rw [counted]
        simp only
        rw [List.filter_congr fun other hother => by rw [others hother], List.filter_cons, hn]
        cases n with
        | zero =>
            simp only [BEq.rfl, if_true, List.cons_append]
            exact ((d.push_perm t.ready code).append_left _).trans List.perm_middle
        | succ n => simp

end Discipline

/-! ### What the counting keeps -/

/-- A node is ready when it waits for none of those left. Edges are counted here, and each
dependency has one. -/
theorem isReady_iff_countP : g.isReady left code = true ↔ left.countP (g.hasEdge code) = 0 := by
  simp [isReady_eq_true_iff, List.countP_eq_zero]

/-- Taking a node off takes one dependency from each node that depends on it. -/
theorem countP_eq_erase (mem : code ∈ left) (other : String) :
    left.countP (g.hasEdge other) =
      (left.erase code).countP (g.hasEdge other) + if g.hasEdge other code then 1 else 0 := by
  rw [(List.perm_cons_erase mem).countP_eq, List.countP_cons]

/-- The tally is that of the nodes left, and the nodes taken off wait for none of these. -/
structure Tallies (g : Graph) (left : List String) (t : Tally) : Prop where
  sublist : left.Sublist g.nodes
  waiting : ∀ code ∈ g.nodes, t.waiting code = left.countP (g.hasEdge code)
  ready : t.ready.Perm (left.filter (g.isReady left))
  done : ∀ code ∈ g.nodes, code ∉ left → left.countP (g.hasEdge code) = 0

namespace Tallies

variable {d : g.Discipline} {t : Tally} {rest : List String}

/-- The worklist has the nodes that are ready, and those alone. -/
theorem mem_ready_iff (h : g.Tallies left t) :
    code ∈ t.ready ↔ code ∈ left ∧ left.countP (g.hasEdge code) = 0 := by
  rw [h.ready.mem_iff, List.mem_filter, isReady_iff_countP]

/-- The node at the front of the worklist is left and waits for nothing, and the rest of the
worklist are the other nodes of which this holds. -/
theorem of_next (nodup : g.nodes.Nodup) (h : g.Tallies left t) (next : t.ready = code :: rest) :
    (code ∈ left ∧ left.countP (g.hasEdge code) = 0) ∧ rest.Nodup ∧
      ∀ other, other ∈ rest ↔
        other ≠ code ∧ other ∈ left ∧ left.countP (g.hasEdge other) = 0 := by
  have unique : (code :: rest).Nodup := by
    rw [← next]
    exact h.ready.nodup_iff.2 ((h.sublist.nodup nodup).filter _)
  obtain ⟨fresh, unique⟩ := List.nodup_cons.1 unique
  refine ⟨h.mem_ready_iff.1 (by rw [next]; exact List.mem_cons_self), unique, fun other => ?_⟩
  rw [← h.mem_ready_iff, next, List.mem_cons]
  refine ⟨fun hother => ⟨?_, Or.inr hother⟩, fun ⟨different, hother⟩ => ?_⟩
  · rintro rfl
    exact fresh hother
  · exact hother.resolve_left different

/-- What is ready when `code` is gone: the nodes that waited for `code` alone, and those that were
ready before. -/
theorem mem_ready_after_iff (nodup : g.nodes.Nodup) (h : g.Tallies left t)
    (next : t.ready = code :: rest) (other : String) :
    ((other ∈ g.nodes ∧ g.hasEdge other code = true) ∧ t.waiting other = 1) ∨ other ∈ rest ↔
      other ∈ left.erase code ∧ (left.erase code).countP (g.hasEdge other) = 0 := by
  obtain ⟨⟨mem, free⟩, -, mem_rest⟩ := h.of_next nodup next
  have dropped := countP_eq_erase (g := g) mem other
  rw [mem_rest, (h.sublist.nodup nodup).mem_erase_iff]
  constructor
  · rintro (⟨⟨node, edge⟩, one⟩ | ⟨different, stays, zero⟩)
    · rw [h.waiting other node] at one
      rw [if_pos edge] at dropped
      refine ⟨⟨?_, ?_⟩, by omega⟩
      · rintro rfl
        exact absurd (free.symm.trans one) (by decide)
      · by_contra gone
        exact absurd ((h.done other node gone).symm.trans one) (by decide)
    · exact ⟨⟨different, stays⟩, by omega⟩
  · rintro ⟨⟨different, stays⟩, zero⟩
    have node := h.sublist.subset stays
    by_cases edge : g.hasEdge other code = true
    · exact Or.inl ⟨⟨node, edge⟩, by rw [h.waiting other node, dropped, if_pos edge, zero]⟩
    · exact Or.inr ⟨different, stays, by rw [dropped, if_neg edge, zero]⟩

/-- Taking a node off the worklist keeps the tally. -/
theorem step (nodup : g.nodes.Nodup) (h : g.Tallies left t) (next : t.ready = code :: rest) :
    g.Tallies (left.erase code) (d.countOff ⟨t.waiting, rest⟩ code) := by
  obtain ⟨⟨mem, free⟩, unique, mem_rest⟩ := h.of_next nodup next
  have unique' : (d.dependents code).Nodup :=
    (d.dependents_perm code).nodup_iff.2 (nodup.filter _)
  have mem_dependents {other : String} :
      other ∈ d.dependents code ↔ other ∈ g.nodes ∧ g.hasEdge other code = true := by
    rw [(d.dependents_perm code).mem_iff, dependentsOf, List.mem_filter]
  -- A dependent still waits for `code`, which was among those left.
  have waits : ∀ other ∈ d.dependents code, 0 < t.waiting other := by
    intro other hother
    obtain ⟨node, edge⟩ := mem_dependents.1 hother
    rw [h.waiting other node, List.countP_pos_iff]
    exact ⟨code, mem, edge⟩
  obtain ⟨waiting, ready⟩ := d.foldl_countDown unique' ⟨t.waiting, rest⟩ waits
  have dropped := countP_eq_erase (g := g) mem
  refine ⟨List.erase_sublist.trans h.sublist, ?_, ready.trans ?_, ?_⟩
  · intro other node
    rw [Discipline.countOff, waiting, h.waiting other node, dropped other]
    simp [mem_dependents, node]
  -- A node put on the worklist now waited for `code`, so it was not on it before.
  · have apart : ((d.dependents code).filter (t.waiting · == 1)).Disjoint rest := by
      intro other counted waited
      obtain ⟨dependent, one⟩ := List.mem_filter.1 counted
      rw [h.waiting other (mem_dependents.1 dependent).1, ((mem_rest other).1 waited).2.2] at one
      cases one
    refine (List.perm_ext_iff_of_nodup ((unique'.filter _).append unique apart)
      (((h.sublist.nodup nodup).erase code).filter _)).2 fun other => ?_
    rw [List.mem_append, List.mem_filter, List.mem_filter, mem_dependents, isReady_iff_countP,
      beq_iff_eq]
    exact h.mem_ready_after_iff nodup next other
  · intro other node gone
    have := dropped other
    by_cases same : other = code
    · subst same
      omega
    · have := h.done other node fun stays => gone ((List.mem_erase_of_ne same).2 stays)
      omega

/-- The tally that the loop starts with is that of all nodes. -/
theorem start (d : g.Discipline) : g.Tallies g.nodes d.start := by
  have waiting (code : String) : (g.dependenciesOf code).length = g.nodes.countP (g.hasEdge code) :=
    List.countP_eq_length_filter.symm
  refine ⟨List.Sublist.refl _, fun code _ => waiting code, ?_, fun code node gone => ?_⟩
  · refine (d.foldl_push_perm _ []).trans ?_
    rw [List.append_nil]
    refine List.Perm.of_eq (List.filter_congr fun code _ => ?_)
    rw [Bool.eq_iff_iff, beq_iff_eq, isReady_iff_countP, ← waiting]
  · exact absurd node gone

end Tallies

/-! ### What stays -/

/-- It makes no difference to the nodes that stay which ready node is taken off first. -/
theorem peel_erase_of_isReady (mem : code ∈ left) (ready : g.isReady left code = true) :
    (g.peel (left.erase code)).2 = (g.peel left).2 := by
  induction hsize : left.length using Nat.strongRecOn generalizing left code with
  | ind size ih =>
      obtain ⟨-, none⟩ | ⟨first, first_mem, first_ready, split⟩ := peel_cases g left
      · rw [none code mem] at ready
        cases ready
      · by_cases same : first = code
        · subst same
          rw [split]
        -- Each of the two is still ready when the other is taken off.
        · have shorter {other : String} (h : other ∈ left) : (left.erase other).length < size := by
            have := List.length_erase_of_mem h
            have := List.length_pos_of_mem h
            omega
          have still {a b : String} (ha : g.isReady left a = true) :
              g.isReady (left.erase b) a = true := by
            rw [isReady_eq_true_iff] at ha ⊢
            exact fun other hother => ha other (List.mem_of_mem_erase hother)
          have first_left : first ∈ left.erase code := (List.mem_erase_of_ne same).2 first_mem
          have code_left : code ∈ left.erase first :=
            (List.mem_erase_of_ne (Ne.symm same)).2 mem
          rw [split, ← ih _ (shorter mem) first_left (still first_ready) rfl,
            ← ih _ (shorter first_mem) code_left (still ready) rfl, List.erase_comm]

namespace Discipline

variable {d : g.Discipline} {t : Tally}

/-- The nodes that a pass does not take off are those that `peel` does not. -/
theorem filter_drain_eq (nodup : g.nodes.Nodup) (h : g.Tallies left t) :
    (left.filter fun code => code ∉ d.drain t) = (g.peel left).2 := by
  induction t using drain.induct d generalizing left with
  | case1 t next =>
      have none : ∀ code ∈ left, ¬ g.isReady left code = true := by
        have nothing := h.ready
        rw [next, List.nil_perm, List.filter_eq_nil_iff] at nothing
        exact nothing
      rw [d.drain_of_nil next, peel_of_none (List.find?_eq_none.2 none)]
      simp
  | case2 t code rest next ih =>
      obtain ⟨⟨mem, free⟩, -⟩ := h.of_next nodup next
      have others := ih (h.step nodup next)
      rw [peel_erase_of_isReady mem (isReady_iff_countP.2 free)] at others
      rw [← others, d.drain_of_cons next, (h.sublist.nodup nodup).erase_eq_filter,
        List.filter_filter]
      refine List.filter_congr fun other _ => ?_
      by_cases same : other = code <;> simp [same]

/-- What the loop leaves is what `Graph.stuck` has, whichever discipline it follows. So both look
for a cycle among the same nodes. -/
theorem remainder_eq_stuck (wellFormed : g.WellFormed) (d : g.Discipline) : d.remainder = g.stuck :=
  filter_drain_eq wellFormed.nodup (.start d)

/-! ### What a heap hands out -/

/-- The codes stand in the order of the nodes. -/
abbrev InPlace (g : Graph) (codes : List String) : Prop :=
  codes.Pairwise fun a b => g.nodes.idxOf a ≤ g.nodes.idxOf b

/-- The worklist is kept in the order of the nodes. -/
def IsHeap (d : g.Discipline) : Prop :=
  ∀ ready code, InPlace g ready → InPlace g (d.push ready code)

/-- A heap keeps its order while the dependents of a node are counted down. -/
theorem inPlace_foldl_countDown (heap : d.IsHeap) (codes : List String) (t : Tally)
    (sorted : InPlace g t.ready) : InPlace g (codes.foldl d.countDown t).ready := by
  induction codes generalizing t with
  | nil => exact sorted
  | cons code codes ih =>
      refine ih _ ?_
      unfold countDown
      split
      · exact sorted
      · next n _ =>
        by_cases zero : n = 0
        · simp only [if_pos zero]
          exact heap t.ready code sorted
        · simp only [if_neg zero]
          exact sorted

/-- With a heap the worklist holds the ready nodes in the order of the graph. -/
theorem ready_eq_filter (nodup : g.nodes.Nodup) (h : g.Tallies left t)
    (sorted : InPlace g t.ready) : t.ready = left.filter (g.isReady left) := by
  have inPlace : InPlace g (left.filter (g.isReady left)) :=
    ((pairwise_before nodup).imp Nat.le_of_lt).sublist (List.filter_sublist.trans h.sublist)
  refine h.ready.eq_of_pairwise (fun a b _ hb first second => ?_) sorted inPlace
  have node : b ∈ g.nodes := h.sublist.subset (List.mem_of_mem_filter hb)
  exact ((List.idxOf_inj node).1 (Nat.le_antisymm second first)).symm

/-- With a heap the nodes are taken off as `peel` takes them off. -/
theorem drain_eq_of_isHeap (heap : d.IsHeap) (nodup : g.nodes.Nodup) (h : g.Tallies left t)
    (sorted : InPlace g t.ready) : d.drain t = (g.peel left).1 := by
  induction t using drain.induct d generalizing left with
  | case1 t next =>
      have first := congrArg List.head? (ready_eq_filter nodup h sorted)
      rw [next, List.head?_nil, List.head?_filter] at first
      rw [d.drain_of_nil next, peel_of_none first.symm]
  | case2 t code rest next ih =>
      have first := congrArg List.head? (ready_eq_filter nodup h sorted)
      rw [next, List.head?_cons, List.head?_filter] at first
      rw [next] at sorted
      rw [d.drain_of_cons next, peel_of_some first.symm,
        ih (h.step nodup next) (inPlace_foldl_countDown heap _ _ sorted.of_cons)]

/-- A heap is in order from the start, as the nodes that wait for none are put on it in their own
order. -/
theorem inPlace_start (heap : d.IsHeap) : InPlace g d.start.ready := by
  have pushed (codes ready : List String) (sorted : InPlace g ready) :
      InPlace g (codes.foldl d.push ready) := by
    induction codes generalizing ready with
    | nil => exact sorted
    | cons code codes ih => exact ih _ (heap ready code sorted)
  exact pushed _ [] .nil

end Discipline

end Rollforward.Graph
