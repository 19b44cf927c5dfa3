import Rollforward.Proofs.Graph.Counting
import Rollforward.Proofs.Graph.Reach

/-!
# `Rollforward.Proofs.Graph.Worklist`: what is downstream, by a worklist

`Graph.spread` looks for a fresh node that depends on what is reached, again and again. The same is
found faster with a worklist: a node from the worklist that was not visited is visited, and all its
dependents are put on the worklist. A node may be there many times, and visited ones may be put
there again; they are passed over when it is their turn. Each node is visited once, so this comes to
an end on graphs with cycles too (`Discipline.visit`).

`Searches` is what the search keeps. With an empty worklist it says that the nodes visited are those
that lead to a start, so they are the ones of `Graph.downstream`, whatever the discipline
(`Discipline.visit_perm`).
-/

set_option autoImplicit false

namespace Rollforward.Graph

variable {g : Graph} {starts visited ready rest : List String} {a b code : String}

namespace Discipline

/-- The worklist with the dependents of a node put on it. -/
def pushDependents (d : g.Discipline) (ready : List String) (code : String) : List String :=
  (d.dependents code).foldl d.push ready

/-- What depends on a node is put on the worklist, visited or not, and what was there stays. -/
theorem mem_pushDependents (d : g.Discipline) :
    a ∈ d.pushDependents ready code ↔ (a ∈ g.nodes ∧ g.hasEdge a code = true) ∨ a ∈ ready := by
  rw [pushDependents, (d.foldl_push_perm _ ready).mem_iff, List.mem_append,
    (d.dependents_perm code).mem_iff, dependentsOf, List.mem_filter]

/-- The nodes that are visited in the end. What is no node is passed over. -/
def visit (d : g.Discipline) (visited : List String) : List String → List String
  | [] => visited
  | code :: rest =>
    if code ∈ g.nodes ∧ code ∉ visited then
      d.visit (code :: visited) (d.pushDependents rest code)
    else d.visit visited rest
termination_by ready => ((g.nodes.filter (· ∉ visited)).length, ready.length)
decreasing_by
  · next fresh =>
    -- The node itself is one of those that were not visited and are now.
    refine Prod.Lex.left _ _ ?_
    have fewer : g.nodes.filter (· ∉ code :: visited) =
        (g.nodes.filter (· ∉ visited)).filter (· ≠ code) := by
      rw [List.filter_filter]
      refine List.filter_congr fun other _ => ?_
      simp
    have mem : code ∈ g.nodes.filter (· ∉ visited) :=
      List.mem_filter.2 ⟨fresh.1, decide_eq_true fresh.2⟩
    rw [fewer]
    exact List.length_filter_lt_length_iff_exists.2 ⟨code, mem, by simp⟩
  · exact Prod.Lex.right _ (Nat.lt_succ_self _)

end Discipline

/-- What a search from the starts keeps: the nodes visited and those on the worklist lead to a
start, each start was put on the worklist, and so was each node that depends on one visited. No node
was visited twice. -/
structure Searches (g : Graph) (starts visited ready : List String) : Prop where
  nodup : visited.Nodup
  nodes : ∀ a ∈ visited, a ∈ g.nodes
  leads : ∀ a ∈ visited ++ ready, a ∈ g.nodes → ∃ b ∈ starts, b ∈ g.nodes ∧ g.Leads a b
  started : ∀ b ∈ starts, b ∈ g.nodes → b ∈ visited ++ ready
  closed : ∀ b ∈ visited, ∀ a ∈ g.nodes, g.hasEdge a b = true → a ∈ visited ++ ready

namespace Searches

/-- A search begins with its starts on the worklist. -/
theorem start (g : Graph) (starts : List String) : g.Searches starts [] starts where
  nodup := List.nodup_nil
  nodes := nofun
  leads a ha node := ⟨a, ha, node, .refl⟩
  started _ hb _ := hb
  closed := nofun

/-- Nothing is lost when a node that was visited, or what is no node, is passed over. -/
theorem pass (h : g.Searches starts visited (code :: rest))
    (known : code ∈ g.nodes → code ∈ visited) : g.Searches starts visited rest := by
  have still {a : String} (node : a ∈ g.nodes) (ha : a ∈ visited ++ code :: rest) :
      a ∈ visited ++ rest := by
    rw [List.mem_append, List.mem_cons] at ha
    rw [List.mem_append]
    obtain ha | rfl | ha := ha
    · exact .inl ha
    · exact .inl (known node)
    · exact .inr ha
  constructor
  case nodup => exact h.nodup
  case nodes => exact h.nodes
  case leads =>
    intro a ha node
    refine h.leads a ?_ node
    exact (List.Sublist.append_left (List.sublist_cons_self code rest) visited).subset ha
  case started => exact fun b hb node => still node (h.started b hb node)
  case closed => exact fun b hb a node edge => still node (h.closed b hb a node edge)

/-- A node is visited, and its dependents are put on the worklist. -/
theorem take (d : g.Discipline) (h : g.Searches starts visited (code :: rest))
    (node : code ∈ g.nodes) (fresh : code ∉ visited) :
    g.Searches starts (code :: visited) (d.pushDependents rest code) := by
  -- What was known is known still, only `code` has moved.
  have still {a : String} (ha : a ∈ visited ++ code :: rest) :
      a ∈ code :: visited ++ d.pushDependents rest code := by
    rw [List.mem_append, List.mem_cons, d.mem_pushDependents]
    rw [List.mem_append, List.mem_cons] at ha
    tauto
  constructor
  case nodup => exact List.nodup_cons.2 ⟨fresh, h.nodup⟩
  case nodes => exact List.forall_mem_cons.2 ⟨node, h.nodes⟩
  case leads =>
    intro a ha node'
    rw [List.mem_append, List.mem_cons, d.mem_pushDependents] at ha
    have here : ∃ b ∈ starts, b ∈ g.nodes ∧ g.Leads code b :=
      h.leads code (List.mem_append_right _ List.mem_cons_self) node
    obtain (rfl | ha) | ⟨-, edge⟩ | ha := ha
    · exact here
    · exact h.leads a (List.mem_append_left _ ha) node'
    · -- A dependent leads to a start by way of the node visited.
      obtain ⟨b, hb, known, path⟩ := here
      exact ⟨b, hb, known, .head ⟨node', edge⟩ path⟩
    · exact h.leads a (List.mem_append_right _ (List.mem_cons_of_mem code ha)) node'
  case started => exact fun b hb known => still (h.started b hb known)
  case closed =>
    refine List.forall_mem_cons.2 ⟨fun a known edge => ?_, fun b hb a known edge => ?_⟩
    · exact List.mem_append_right _ (d.mem_pushDependents.2 (.inl ⟨known, edge⟩))
    · exact still (h.closed b hb a known edge)

/-- The search goes on until the worklist is empty. -/
theorem visit (d : g.Discipline) (h : g.Searches starts visited ready) :
    g.Searches starts (d.visit visited ready) [] := by
  induction visited, ready using Discipline.visit.induct d with
  | case1 visited =>
      rw [Discipline.visit]
      exact h
  | case2 visited code rest fresh ih =>
      rw [Discipline.visit, if_pos fresh]
      exact ih (h.take d fresh.1 fresh.2)
  | case3 visited code rest stale ih =>
      rw [Discipline.visit, if_neg stale]
      exact ih (h.pass fun node => by_contra fun unseen => stale ⟨node, unseen⟩)

/-- With an empty worklist the nodes visited are those that are downstream of the starts. -/
theorem mem_iff (h : g.Searches starts visited []) : a ∈ visited ↔ a ∈ g.downstream starts := by
  rw [mem_downstream_iff]
  constructor
  · intro ha
    exact h.leads a (List.mem_append_left _ ha) (h.nodes a ha)
  · rintro ⟨b, hb, node, leads⟩
    -- The induction is on the way to the start, one edge longer at its front.
    induction leads using Relation.ReflTransGen.head_induction_on with
    | refl => simpa using h.started b hb node
    | head edge _ ih => simpa using h.closed _ ih _ edge.1 edge.2

end Searches

/-- What is found is listed in the order of the nodes. -/
theorem downstream_sublist (g : Graph) (starts : List String) :
    (g.downstream starts).Sublist g.nodes := by
  rw [downstream_eq]
  exact List.filter_sublist

/-- A search with a worklist visits what is downstream of the starts, each node once, whatever the
discipline. -/
theorem Discipline.visit_perm (d : g.Discipline) (nodup : g.nodes.Nodup) (starts : List String) :
    (d.visit [] starts).Perm (g.downstream starts) := by
  have searched := (Searches.start g starts).visit d
  have apart : (g.downstream starts).Nodup := nodup.sublist (g.downstream_sublist starts)
  exact (List.perm_ext_iff_of_nodup searched.nodup apart).2 fun code => searched.mem_iff

end Rollforward.Graph
