import Rollforward.Proofs.Collection.Occurrence
import Rollforward.Proofs.Graph.Numbered

/-!
# `Rollforward.Proofs.Graph.Mentions`: what a graph keeps of its additions

The nodes of a graph are the codes that its additions mention, in the order of the first mentions,
and its edges are the pairs that were added, each once. Both follow from one addition
(`nodes_add_of_eraseDups`, `edges_add_of_eraseDups`), by induction over the additions from their
end. An edge mentions the item before what it depends on, and a code that is mentioned again changes
nothing.

Additions only ever lengthen the nodes (`nodes_prefix_append`), so a node keeps its number. And what
is stored by numbers represents the graph (`represents_ofAdditions`), so it holds the same.
-/

set_option autoImplicit false

namespace Rollforward.Graph

open Collection (eraseDups_concat pairwise_idxOf_eraseDups length_eraseDups)

/-- The codes that an addition mentions, an item before what it depends on. -/
def Addition.mentions : Addition → List String
  | .node code => [code]
  | .edge item dependency => [item, dependency]

/-- The edges that an addition adds. -/
def Addition.edges : Addition → List (String × String)
  | .node _ => []
  | .edge item dependency => [(item, dependency)]

/-- The codes that additions mention, as often as they do. -/
def mentionsOf (additions : List Addition) : List String := additions.flatMap Addition.mentions

/-- The edges that additions add, as often as they do. -/
def edgesOf (additions : List Addition) : List (String × String) :=
  additions.flatMap Addition.edges

variable {g : Graph} {additions : List Addition} {a b code : String}

/-! ### One addition -/

/-- A mention counts as a node the first time only. -/
theorem nodes_addNode_of_eraseDups {mentions : List String}
    (nodes : g.nodes = mentions.eraseDups) (a : String) :
    (g.addNode a).nodes = (mentions ++ [a]).eraseDups := by
  rw [eraseDups_concat]
  split
  · next known => rw [addNode_of_mem (by rwa [nodes, List.mem_eraseDups]), nodes]
  · next fresh => rw [nodes_addNode_of_not_mem (by rwa [nodes, List.mem_eraseDups]), nodes]

/-- An addition has one mention or two, and each is a node the first time only. -/
theorem nodes_add_of_eraseDups {mentions : List String} (nodes : g.nodes = mentions.eraseDups)
    (addition : Addition) :
    (g.add addition).nodes = (mentions ++ addition.mentions).eraseDups := by
  cases addition with
  | node code => exact nodes_addNode_of_eraseDups nodes code
  | edge item dependency =>
      -- The item is mentioned first, so it gets the lower number when both are new.
      have first := nodes_addNode_of_eraseDups nodes item
      have both := nodes_addNode_of_eraseDups first dependency
      rw [List.append_assoc] at both
      rw [add, nodes_addEdge]
      exact both

/-- A pair is kept the first time that it is added. -/
theorem edges_add_of_eraseDups {pairs : List (String × String)} (edges : g.edges = pairs.eraseDups)
    (addition : Addition) :
    (g.add addition).edges = (pairs ++ addition.edges).eraseDups := by
  cases addition with
  | node code =>
      rw [add, edges_addNode, edges, Addition.edges, List.append_nil]
  | edge item dependency =>
      have same : ((g.addNode item).addNode dependency).edges = pairs.eraseDups := by
        rw [edges_addNode, edges_addNode, edges]
      show (g.addEdge item dependency).edges = (pairs ++ [(item, dependency)]).eraseDups
      rw [eraseDups_concat, addEdge]
      simp only [same, List.mem_eraseDups]
      split
      · exact same
      · rfl

/-! ### A row of additions -/

/-- The nodes are the codes mentioned, in the order of their first mentions. -/
theorem nodes_ofAdditions (additions : List Addition) :
    (ofAdditions additions).nodes = (mentionsOf additions).eraseDups := by
  induction additions using List.reverseRecOn with
  | nil => rfl
  | append_singleton additions addition ih =>
      have step := nodes_add_of_eraseDups ih addition
      simpa [ofAdditions, mentionsOf] using step

/-- The edges are the pairs added, in the order in which they were first added. -/
theorem edges_ofAdditions (additions : List Addition) :
    (ofAdditions additions).edges = (edgesOf additions).eraseDups := by
  induction additions using List.reverseRecOn with
  | nil => rfl
  | append_singleton additions addition ih =>
      have step := edges_add_of_eraseDups ih addition
      simpa [ofAdditions, edgesOf] using step

/-- Additions keep the nodes and put new ones behind them. -/
theorem nodes_prefix_append (additions more : List Addition) :
    (ofAdditions additions).nodes <+: (ofAdditions (additions ++ more)).nodes := by
  rw [nodes_ofAdditions, nodes_ofAdditions, mentionsOf, mentionsOf, List.flatMap_append,
    List.eraseDups_append]
  exact List.prefix_append _ _

/-! ### Neighbours -/

/-- What an item depends on is where its edges lead. -/
theorem mem_dependenciesOf_iff (wellFormed : g.WellFormed) :
    b ∈ g.dependenciesOf a ↔ g.hasEdge a b = true := by
  rw [dependenciesOf, List.mem_filter]
  exact and_iff_right_of_imp fun edge => (wellFormed.ends a b edge).2

/-- What depends on an item is where edges to it come from. -/
theorem mem_dependentsOf_iff (wellFormed : g.WellFormed) :
    a ∈ g.dependentsOf b ↔ g.hasEdge a b = true := by
  rw [dependentsOf, List.mem_filter]
  exact and_iff_right_of_imp fun edge => (wellFormed.ends a b edge).1

/-- Nodes in the order of their numbers are in the order of their first mentions. -/
theorem pairwise_firstMention {nodes : List String}
    (inOrder : nodes.Sublist (ofAdditions additions).nodes) :
    nodes.Pairwise fun a b =>
      (mentionsOf additions).idxOf a < (mentionsOf additions).idxOf b := by
  rw [nodes_ofAdditions] at inOrder
  exact (pairwise_idxOf_eraseDups _).sublist inOrder

/-- A graph holds what was added to it and nothing else. Its nodes are the codes mentioned, numbered
in the order of their first mentions, and its edges the pairs added, each once. The three ways to
ask for an edge agree, and both lists of neighbours name each once, in the order of the first
mentions. A node keeps its number whatever is added later. The same holds of a graph that is stored
by numbers, with an index of the codes beside it. -/
theorem ofAdditions_holds_exactly (additions : List Addition) :
    let g := ofAdditions additions
    g.nodes = (mentionsOf additions).eraseDups ∧
      (∀ code n, g.index? code = some n ↔ g.nodes[n]? = some code) ∧
      g.nodes.length = (mentionsOf additions).toFinset.card ∧
      g.edges.length = (edgesOf additions).toFinset.card ∧
      (∀ a b,
        (g.hasEdge a b = true ↔ .edge a b ∈ additions) ∧
        (b ∈ g.dependenciesOf a ↔ .edge a b ∈ additions) ∧
        (a ∈ g.dependentsOf b ↔ .edge a b ∈ additions)) ∧
      (∀ code, ∀ neighbours ∈ [g.dependenciesOf code, g.dependentsOf code],
        neighbours.Nodup ∧ neighbours.Pairwise fun a b =>
          (mentionsOf additions).idxOf a < (mentionsOf additions).idxOf b) ∧
      (∀ more code n, g.index? code = some n →
        (ofAdditions (additions ++ more)).index? code = some n) ∧
      let st := Numbered.ofAdditions additions
      st.codes = g.nodes ∧ (∀ code, st.index.get? code = g.index? code) ∧
        st.arcs.length = g.edges.length ∧ (∀ a b, st.hasEdge a b = g.hasEdge a b) ∧
        ∀ code, st.dependenciesOf code = g.dependenciesOf code ∧
          st.dependentsOf code = g.dependentsOf code := by
  intro g
  have wellFormed : g.WellFormed := wellFormed_ofAdditions additions
  refine ⟨nodes_ofAdditions additions, fun code n => index?_eq_some_iff wellFormed.nodup, ?_, ?_,
    ?_, ?_, ?_, ?_⟩
  · rw [nodes_ofAdditions, length_eraseDups]
  · rw [edges_ofAdditions, length_eraseDups]
  · intro a b
    rw [mem_dependenciesOf_iff wellFormed, mem_dependentsOf_iff wellFormed]
    exact ⟨hasEdge_ofAdditions_iff, hasEdge_ofAdditions_iff, hasEdge_ofAdditions_iff⟩
  · intro code neighbours hmem
    -- Both lists are picked from the nodes, which stand in the order of their mentions.
    have inOrder : neighbours.Sublist g.nodes := by
      simp only [List.mem_cons, List.not_mem_nil, or_false] at hmem
      obtain rfl | rfl := hmem
      · exact List.filter_sublist
      · exact List.filter_sublist
    exact ⟨wellFormed.nodup.sublist inOrder, pairwise_firstMention inOrder⟩
  · intro more code n numbered
    have later := wellFormed_ofAdditions (additions ++ more)
    exact index?_of_longer later.nodup (nodes_prefix_append additions more) numbered
  · have represents := represents_ofAdditions additions
    have same := congrArg List.length represents.arcs
    rw [List.length_map, List.length_map] at same
    exact ⟨represents.codes, represents.index, same, represents.hasEdge_eq wellFormed,
      fun code => ⟨represents.dependenciesOf_eq wellFormed code,
        represents.dependentsOf_eq wellFormed code⟩⟩

/-- `B` is mentioned before `A`, which it depends on; the edge to itself counts, and the edge that
is added again does not. Later additions leave `A` its number. -/
theorem ofAdditions_holds_exactly_repeated :
    let additions : List Addition := [.edge "B" "A", .node "A", .edge "B" "B", .edge "B" "A"]
    let g := ofAdditions additions
    g.nodes = ["B", "A"] ∧ g.edges.length = 2 ∧ g.dependenciesOf "B" = ["B", "A"] ∧
      g.index? "A" = some 1 ∧
      (ofAdditions (additions ++ [.edge "A" "C", .node "B"])).index? "A" = some 1 := by
  intro additions g
  obtain ⟨nodes, -, -, edges, -, -, stays, -⟩ := ofAdditions_holds_exactly additions
  have numbered : g.index? "A" = some 1 := by decide +kernel
  refine ⟨nodes.trans (by decide +kernel), edges.trans (by decide +kernel), by decide +kernel,
    numbered, stays _ _ _ numbered⟩

end Rollforward.Graph
