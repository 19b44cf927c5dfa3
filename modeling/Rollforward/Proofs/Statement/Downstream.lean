import Rollforward.Proofs.Collection.Occurrence
import Rollforward.Proofs.Graph.Additions
import Rollforward.Proofs.Graph.Worklist
import Rollforward.Proofs.Statement.Impact
import Rollforward.Proofs.Statement.WellFormed

/-!
# `Rollforward.Proofs.Statement.Downstream`: the impact is the transitive closure, in order

What is downstream of some nodes is these nodes and whatever depends on them, directly or not
(`mem_downstream_iff_depends`). The impact of an item is what is downstream of it without the item
itself, so it is the transitive closure of the dependencies of the template
(`mem_impactOf_iff_depends`).

The impact is picked out of the order of evaluation, and that is the order of the graph
(`order_eq_map_code_inOrder`). Along it nothing depends on what comes later, so the same holds along
the impact.
-/

set_option autoImplicit false

namespace Rollforward

open Collection (idxOf_lt_of_pairwise_not)

namespace Graph

variable {g : Graph} {a b : String} {starts : List String}

/-- A way that ends at a node is a way along dependencies. -/
theorem leads_iff_depends (hb : b ∈ g.nodes) :
    g.Leads a b ↔ Relation.ReflTransGen g.Depends a b := by
  constructor
  · intro leads
    induction leads using Relation.ReflTransGen.head_induction_on with
    | refl => exact .refl
    | @head code other edge _ ih =>
        -- The next node on the way is the start of an edge itself, or it is the last.
        have known : other ∈ g.nodes := by
          cases ih.cases_head with
          | inl last => rwa [last]
          | inr more => exact more.choose_spec.1.1
        exact .head ⟨edge.1, known, edge.2⟩ ih
  · intro depends
    exact Relation.ReflTransGen.mono (fun _ _ edge => ⟨edge.1, edge.2.2⟩) _ _ depends

/-- The starts that are nodes are downstream, and whatever depends on one of them. -/
theorem mem_downstream_iff_depends :
    a ∈ g.downstream starts ↔
      ∃ start ∈ starts, g.contains start = true ∧ Relation.ReflTransGen g.Depends a start := by
  rw [mem_downstream_iff]
  refine exists_congr fun start => and_congr_right fun _ => ?_
  rw [contains, List.contains_iff_mem]
  exact and_congr_right leads_iff_depends

end Graph

namespace Statement

variable {t : Template} {s : Statement} {code : String}

/-! ### The order of evaluation -/

/-- What the graph calls a dependency is what the template does. -/
theorem depends_graph_of_compile (compiled : compile t = .ok s) : s.graph.Depends = t.Depends := by
  obtain ⟨read, graph, -⟩ := compile_eq_ok compiled
  rw [graph, depends_graphOf read]

/-- The items are evaluated in the order of the graph. -/
theorem order_eq_map_code_inOrder (compiled : compile t = .ok s) :
    s.graph.order = .ok (s.inOrder.map Item.code) := by
  obtain ⟨read, graph, codes, ordered, order⟩ := compile_eq_ok compiled
  have nodup : s.codes.Nodup := (isCompiled_of_compile compiled).codes_nodup
  have known : ∀ c ∈ codes, c ∈ s.codes := by
    intro c hc
    have node := (Graph.order_eq_ok ordered).1.subset hc
    rwa [nodes_graphOf nodup] at node
  -- The position of a code leads back to the item with the code.
  have back : ∀ c ∈ codes, ((s.position? c).bind fun p => s.items[p]?.map Item.code) = some c := by
    intro c hc
    obtain ⟨i, hi, hcode⟩ := List.mem_map.1 (known c hc)
    obtain ⟨p, hp⟩ := List.mem_iff_getElem?.1 hi
    rw [(position?_eq_some_iff nodup).2 ⟨i, hp, hcode⟩, Option.bind_some, hp, Option.map_some,
      hcode]
  rw [graph, ordered, inOrder, order, List.map_filterMap, List.filterMap_filterMap,
    List.filterMap_congr back, List.filterMap_some]

/-- Along the order of evaluation nothing depends on what comes later. -/
theorem pairwise_not_depends_inOrder (compiled : compile t = .ok s) :
    (s.inOrder.map Item.code).Pairwise fun a b => ¬Relation.TransGen t.Depends a b := by
  have ordered := order_eq_map_code_inOrder compiled
  have nodup : (s.inOrder.map Item.code).Nodup := by
    have ready := isCompiled_of_compile compiled
    rw [(Graph.order_eq_ok ordered).1.nodup_iff, ready.nodes]
    exact ready.codes_nodup
  rw [← depends_graph_of_compile compiled, List.pairwise_iff_getElem]
  intro i j hi hj before depends
  have behind := Graph.idxOf_lt_of_transGen ordered depends
  rw [nodup.idxOf_getElem, nodup.idxOf_getElem] at behind
  omega

/-! ### The impact -/

/-- The impact comes in the order of evaluation, whatever order it was found in. -/
theorem impactOf_sublist (s : Statement) (code : String) :
    (s.impactOf code).Sublist (s.inOrder.map Item.code) := List.filter_sublist

/-- The impact of an item is whatever else depends on it, directly or not. -/
theorem mem_impactOf_iff_depends (compiled : compile t = .ok s) {other : String} :
    other ∈ s.impactOf code ↔ other ≠ code ∧ Relation.TransGen t.Depends other code := by
  have ready := isCompiled_of_compile compiled
  rw [ready.mem_impactOf_iff, ← depends_graph_of_compile compiled]
  constructor
  · rintro ⟨-, differ, known, leads⟩
    rw [← ready.nodes] at known
    have depends := (Graph.leads_iff_depends known).1 leads
    exact ⟨differ, (Relation.reflTransGen_iff_eq_or_transGen.1 depends).resolve_left differ.symm⟩
  · rintro ⟨differ, depends⟩
    have last : code ∈ s.graph.nodes := by
      obtain ⟨_, -, edge⟩ := Relation.TransGen.tail'_iff.1 depends
      exact edge.2.1
    have first : other ∈ s.graph.nodes := by
      obtain ⟨_, edge, -⟩ := Relation.TransGen.head'_iff.1 depends
      exact edge.1
    rw [← ready.nodes]
    exact ⟨first, differ, last, (Graph.leads_iff_depends last).2 depends.to_reflTransGen⟩

/-- Downstream of some nodes of a graph are these nodes and whatever depends on one of them,
directly or not, each once; starts that are no nodes contribute nothing. A search with a worklist
visits the same nodes, in whatever order it takes them.

The impact of an item is the same for the dependencies of the template, without the item itself. It
is listed in the order of evaluation, each item once and behind whatever it depends on, and an
unknown code has none. -/
theorem impactOf_is_transitive_closure :
    (∀ (additions : List Graph.Addition) (starts : List String),
      let g := Graph.ofAdditions additions
      (∀ d : g.Discipline, (d.visit [] starts).Perm (g.downstream starts)) ∧
      (g.downstream starts).Nodup ∧
      ∀ code, code ∈ g.downstream starts ↔ ∃ start ∈ starts, g.contains start = true ∧
        Relation.ReflTransGen g.Depends code start) ∧
    ∀ (t : Template) (s : Statement) (code : String), compile t = .ok s →
      (∀ other, other ∈ s.impactOf code ↔
        other ≠ code ∧ Relation.TransGen t.Depends other code) ∧
      (s.impactOf code).Nodup ∧
      (s.impactOf code).Sublist (s.inOrder.map Item.code) ∧
      (∀ a ∈ s.impactOf code, ∀ b ∈ s.impactOf code, Relation.TransGen t.Depends a b →
        (s.impactOf code).idxOf b < (s.impactOf code).idxOf a) ∧
      (code ∉ t.codes → s.impactOf code = []) := by
  constructor
  · intro additions starts g
    have wellFormed : g.WellFormed := Graph.wellFormed_ofAdditions additions
    exact ⟨fun d => d.visit_perm wellFormed.nodup starts,
      wellFormed.nodup.sublist (g.downstream_sublist starts),
      fun code => Graph.mem_downstream_iff_depends⟩
  · intro t s code compiled
    have ready := isCompiled_of_compile compiled
    have inOrder := impactOf_sublist s code
    have notLater := (pairwise_not_depends_inOrder compiled).sublist inOrder
    -- What holds of the order of evaluation passes to the impact, which is a sublist of it.
    refine ⟨fun other => mem_impactOf_iff_depends compiled, ?_, inOrder, ?_, ?_⟩
    · have perm := (Graph.order_eq_ok (order_eq_map_code_inOrder compiled)).1
      rw [ready.nodes] at perm
      exact (perm.nodup_iff.2 ready.codes_nodup).sublist inOrder
    · intro a ha b hb depends
      have acyclic : t.Acyclic := (wellFormed_of_compile compiled).acyclic
      exact idxOf_lt_of_pairwise_not notLater (acyclic a) ha hb depends
    · intro unknown
      refine List.eq_nil_iff_forall_not_mem.2 fun other affected => unknown ?_
      have known := (ready.mem_impactOf_iff.1 affected).2.2.1
      rwa [codes_of_compile compiled] at known

/-- `A` depends on `C` by way of `B`, which reads itself at another time; in the template `A` stands
before both. -/
theorem impactOf_is_transitive_closure_other_times :
    let t : Template :=
      { items := [{ code := "A", formula := some "B[t-1]" },
          { code := "B", formula := some "B[t-1]+C" }, { code := "C" }] }
    ∃ s, compile t = .ok s ∧ s.impactOf "C" = ["B", "A"] ∧ s.impactOf "D" = [] ∧
      Relation.TransGen t.Depends "A" "C" ∧
      (s.impactOf "C").idxOf "B" < (s.impactOf "C").idxOf "A" := by
  intro t
  let before : Formula.Reference := ⟨none, "B", -1⟩
  let now : Formula.Reference := ⟨none, "C", 0⟩
  let s : Statement :=
    { code := ""
      items := [
        { code := "A", formula := some ⟨"B[t-1]", .reference before, [before]⟩
          declared := { code := "A", formula := some "B[t-1]" } },
        { code := "B"
          formula := some
            ⟨"B[t-1]+C", .binary .add (.reference before) (.reference now), [before, now]⟩
          declared := { code := "B", formula := some "B[t-1]+C" } },
        { code := "C", formula := none, declared := { code := "C" } }]
      order := [2, 1, 0]
      graph := ⟨["A", "B", "C"], [("A", "B"), ("B", "C")]⟩
      checks := [] }
  have compiled : compile t = .ok s := by
    unfold t s before now
    cbv
  have impact : s.impactOf "C" = ["B", "A"] := by
    unfold s before now
    cbv
  have impact' : s.impactOf "B" = ["A"] := by
    unfold s before now
    cbv
  have codes : t.codes = ["A", "B", "C"] := by cbv
  obtain ⟨affected, -, -, behind, -⟩ := impactOf_is_transitive_closure.2 t s "C" compiled
  obtain ⟨-, -, -, -, unknown⟩ := impactOf_is_transitive_closure.2 t s "D" compiled
  have depends : Relation.TransGen t.Depends "A" "C" := by
    refine ((affected "A").1 ?_).2
    rw [impact]
    decide
  have direct : Relation.TransGen t.Depends "A" "B" := by
    refine (((impactOf_is_transitive_closure.2 t s "B" compiled).1 "A").1 ?_).2
    rw [impact']
    decide
  refine ⟨s, compiled, impact, unknown ?_, depends, behind "A" ?_ "B" ?_ direct⟩
  · rw [codes]
    decide
  · rw [impact]
    decide
  · rw [impact]
    decide

end Statement

end Rollforward
