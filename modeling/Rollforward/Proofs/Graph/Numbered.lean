import Mathlib.Data.List.Sort
import Rollforward.Collection.OrderedMap
import Rollforward.Proofs.Collection.OrderedMap
import Rollforward.Proofs.Graph.Additions

/-!
# `Rollforward.Proofs.Graph.Numbered`: graphs between numbers

A graph can be stored by numbers: an index from codes to numbers, the codes in the order of their
numbers, and arcs between numbers, each from a dependency to what depends on it. The index and the
codes are two tables that have to stay in step, whatever is added and however often.

`Represents` says that they do, and that the arcs are the edges of the graph turned round. It is
kept by giving a code its number (`Represents.number`) and by adding an arc (`Represents.arc`),
hence by every addition (`represents_ofAdditions`). What such a graph answers is then what the graph
answers: for an edge (`Represents.hasEdge_eq`), and for the neighbours of a code, whose numbers are
sorted first (`Represents.dependenciesOf_eq`, `Represents.dependentsOf_eq`).
-/

set_option autoImplicit false

namespace Rollforward.Graph

variable {g g' : Graph} {code a b : String} {n m : Nat}

/-! ### Numbers of nodes -/

/-- The number of a node is its place among the nodes. -/
theorem index?_eq_some_iff (nodup : g.nodes.Nodup) :
    g.index? code = some n ↔ g.nodes[n]? = some code := by
  rw [index?, List.idxOf?_eq_some_iff, List.getElem?_eq_some_iff]
  constructor
  · rintro ⟨bound, here, -⟩
    exact ⟨bound, here⟩
  · rintro ⟨bound, here⟩
    refine ⟨bound, here, fun m before again => ?_⟩
    have same : m = n := nodup.getElem_inj_iff.1 (again.trans here.symm)
    omega

/-- A code has no number when it is no node. -/
theorem index?_eq_none_iff : g.index? code = none ↔ code ∉ g.nodes := List.idxOf?_eq_none_iff

/-- Every node has a number. -/
theorem exists_index? (node : code ∈ g.nodes) : ∃ n, g.index? code = some n :=
  Option.ne_none_iff_exists'.1 fun none => index?_eq_none_iff.1 none node

/-- Where nodes are only put behind those there were, these keep their numbers. -/
theorem index?_of_longer (nodup : g'.nodes.Nodup) (longer : g.nodes <+: g'.nodes)
    (numbered : g.index? code = some n) : g'.index? code = some n := by
  have apart : g.nodes.Nodup := nodup.sublist longer.sublist
  obtain ⟨bound, here⟩ := List.getElem?_eq_some_iff.1 ((index?_eq_some_iff apart).1 numbered)
  rw [index?_eq_some_iff nodup, ← here]
  exact List.prefix_iff_getElem?.1 longer n bound

/-- An addition puts nodes at the end only, so the numbers that were given out stay. -/
theorem nodes_prefix_addNode (g : Graph) (a : String) : g.nodes <+: (g.addNode a).nodes := by
  by_cases known : a ∈ g.nodes
  · rewrite [addNode_of_mem known]
    exact List.prefix_refl _
  · rw [nodes_addNode_of_not_mem known]
    exact List.prefix_append _ _

/-- A node comes without arcs. -/
theorem edges_addNode (g : Graph) (a : String) : (g.addNode a).edges = g.edges := by
  rw [addNode]
  split <;> rfl

/-! ### Graphs between numbers -/

/-- A graph as it is stored. -/
structure Numbered where
  /-- The codes, in the order of their numbers. -/
  codes : List String
  /-- The arcs, each once: a dependency, and what depends on it. -/
  arcs : List (Nat × Nat)
  /-- The index of the codes. -/
  index : Collection.OrderedMap String Nat

namespace Numbered

/-- The graph without nodes. -/
def empty : Numbered := ⟨[], [], .empty⟩

/-- The number of a code. A code without one gets the next. -/
def number (st : Numbered) (code : String) : Numbered × Nat :=
  match st.index.get? code with
  | some n => (st, n)
  | none =>
    let next := st.codes.length
    (⟨st.codes ++ [code], st.arcs, st.index.insert code next⟩, next)

/-- Adds an arc, unless it is there. -/
def arc (st : Numbered) (dependency dependent : Nat) : Numbered :=
  if (dependency, dependent) ∈ st.arcs then st
  else { st with arcs := st.arcs ++ [(dependency, dependent)] }

/-- The graph with one more addition. -/
def add (st : Numbered) : Addition → Numbered
  | .node code => (st.number code).1
  | .edge item dependency =>
    let (st, dependent) := st.number item
    let (st, n) := st.number dependency
    st.arc n dependent

/-- The graph that additions build, the first of them first. -/
def ofAdditions (additions : List Addition) : Numbered := additions.foldl add empty

/-- Whether `item` depends on `dependency`. -/
def hasEdge (st : Numbered) (item dependency : String) : Bool :=
  match st.index.get? item, st.index.get? dependency with
  | some dependent, some n => st.arcs.contains (n, dependent)
  | _, _ => false

/-- The codes of numbers, in ascending order. -/
def codesOf (st : Numbered) (found : List Nat) : List String :=
  found.mergeSort.filterMap (st.codes[·]?)

/-- The neighbours of a code: the far ends of the arcs that have it as their near end. -/
def neighbours (st : Numbered) (near far : Nat × Nat → Nat) (code : String) : List String :=
  match st.index.get? code with
  | some n => st.codesOf ((st.arcs.filter fun arc => near arc == n).map far)
  | none => []

/-- What a code depends on. -/
def dependenciesOf (st : Numbered) : String → List String := st.neighbours Prod.snd Prod.fst

/-- What depends on a code. -/
def dependentsOf (st : Numbered) : String → List String := st.neighbours Prod.fst Prod.snd

end Numbered

/-- The tables of a stored graph are in step, and its arcs are the edges of the graph turned
round. -/
structure Represents (st : Numbered) (g : Graph) : Prop where
  nodup : st.arcs.Nodup
  codes : st.codes = g.nodes
  index : ∀ code, st.index.get? code = g.index? code
  arcs : st.arcs.map (fun arc => (some arc.2, some arc.1)) =
    g.edges.map fun edge => (g.index? edge.1, g.index? edge.2)

namespace Represents

variable {st : Numbered}

/-- Arcs are edges turned round: from the number of the dependency to that of the item. -/
theorem mem_arcs_iff (h : Represents st g) (wellFormed : g.WellFormed) (ha : g.index? a = some n)
    (hb : g.index? b = some m) : (m, n) ∈ st.arcs ↔ g.hasEdge a b = true := by
  rw [hasEdge_eq_true_iff]
  have turned : (some n, some m) ∈ st.arcs.map (fun arc => (some arc.2, some arc.1)) ↔
      (m, n) ∈ st.arcs := by
    simp
  rw [← turned, h.arcs, List.mem_map]
  constructor
  · rintro ⟨⟨a', b'⟩, edge, same⟩
    obtain ⟨ha', hb'⟩ := Prod.mk.inj same
    rw [index?_eq_some_iff wellFormed.nodup] at ha hb ha' hb'
    obtain rfl := Option.some.inj (ha.symm.trans ha')
    obtain rfl := Option.some.inj (hb.symm.trans hb')
    exact edge
  · exact fun edge => ⟨(a, b), edge, by rw [ha, hb]⟩

/-- Giving a code its number adds it as a node. -/
theorem number (h : Represents st g) (wellFormed : g.WellFormed) (code : String) :
    Represents (st.number code).1 (g.addNode code) ∧
      (g.addNode code).index? code = some (st.number code).2 := by
  have wider := wellFormed.addNode code
  cases found : st.index.get? code with
  | some n =>
      have numbered : g.index? code = some n := (h.index code).symm.trans found
      have known : code ∈ g.nodes := by
        by_contra fresh
        rw [index?_eq_none_iff.2 fresh] at numbered
        cases numbered
      rw [addNode_of_mem known, Numbered.number, found]
      exact ⟨h, numbered⟩
  | none =>
      have fresh : code ∉ g.nodes := index?_eq_none_iff.1 ((h.index code).symm.trans found)
      have nodes := nodes_addNode_of_not_mem fresh
      have last : (g.addNode code).index? code = some g.nodes.length := by
        rw [index?_eq_some_iff wider.nodup, nodes, List.getElem?_concat_length]
      -- The other codes keep their numbers, or still have none.
      have others {c : String} (other : c ≠ code) : (g.addNode code).index? c = g.index? c := by
        cases numbered : g.index? c with
        | some n => exact index?_of_longer wider.nodup (nodes_prefix_addNode g code) numbered
        | none =>
            rw [index?_eq_none_iff, mem_nodes_addNode]
            exact fun known => known.elim (index?_eq_none_iff.1 numbered) other
      rw [Numbered.number, found]
      refine ⟨⟨h.nodup, by rw [h.codes, nodes], fun c => ?_, ?_⟩, by rw [last, h.codes]⟩
      · rw [Collection.OrderedMap.get?_insert, h.codes]
        split
        · next same => rw [same, last]
        · next other => rw [others other, h.index]
      · rw [edges_addNode, h.arcs]
        refine List.map_congr_left fun edge hedge => ?_
        obtain ⟨ha, hb⟩ := wellFormed.ends edge.1 edge.2 (hasEdge_eq_true_iff.2 hedge)
        rw [others fun same => fresh (same ▸ ha), others fun same => fresh (same ▸ hb)]

/-- Adding an arc adds the edge. -/
theorem arc (h : Represents st g) (wellFormed : g.WellFormed) (ha : g.index? a = some n)
    (hb : g.index? b = some m) :
    Represents (st.arc m n)
      (if (a, b) ∈ g.edges then g else { g with edges := g.edges ++ [(a, b)] }) := by
  have present := h.mem_arcs_iff wellFormed ha hb
  rw [hasEdge_eq_true_iff] at present
  by_cases known : (a, b) ∈ g.edges
  · rw [Numbered.arc, if_pos known, if_pos (present.2 known)]
    exact h
  · have fresh : (m, n) ∉ st.arcs := fun arc => known (present.1 arc)
    rw [Numbered.arc, if_neg known, if_neg fresh]
    refine ⟨h.nodup.append (List.nodup_singleton _) (List.disjoint_singleton.2 fresh), h.codes,
      h.index, ?_⟩
    show List.map _ (st.arcs ++ [(m, n)]) = List.map _ (g.edges ++ [(a, b)])
    rw [List.map_append, List.map_append, h.arcs]
    show _ ++ [(some n, some m)] = _ ++ [(g.index? a, g.index? b)]
    rw [ha, hb]
    rfl

/-- Every addition gives out numbers and may add an arc. The two tables stay in step through both.
-/
theorem add (h : Represents st g) (wellFormed : g.WellFormed) (addition : Addition) :
    Represents (st.add addition) (g.add addition) := by
  cases addition with
  | node code => exact (h.number wellFormed code).1
  | edge item dependency =>
      obtain ⟨first, ha⟩ := h.number wellFormed item
      have once := wellFormed.addNode item
      obtain ⟨both, hb⟩ := first.number once dependency
      have twice := once.addNode dependency
      have longer := nodes_prefix_addNode (g.addNode item) dependency
      exact both.arc twice (index?_of_longer twice.nodup longer ha) hb

/-- A row of additions, by induction along it. -/
theorem foldl_add (h : Represents st g) (wellFormed : g.WellFormed) (additions : List Addition) :
    Represents (additions.foldl Numbered.add st) (additions.foldl Graph.add g) := by
  induction additions generalizing st g with
  | nil => exact h
  | cons addition additions ih => exact ih (h.add wellFormed addition) (wellFormed.add addition)

/-! ### Answers -/

/-- The index leads from two codes to their numbers, and the arcs say whether there is one between
them. -/
theorem hasEdge_eq (h : Represents st g) (wellFormed : g.WellFormed) (a b : String) :
    st.hasEdge a b = g.hasEdge a b := by
  rw [Numbered.hasEdge, h.index, h.index]
  cases ha : g.index? a with
  | none =>
      have fresh := index?_eq_none_iff.1 ha
      exact (eq_false_of_ne_true fun edge => fresh (wellFormed.ends a b edge).1).symm
  | some n =>
      cases hb : g.index? b with
      | none =>
          have fresh := index?_eq_none_iff.1 hb
          exact (eq_false_of_ne_true fun edge => fresh (wellFormed.ends a b edge).2).symm
      | some m =>
          rw [Bool.eq_iff_iff, List.contains_iff_mem]
          exact h.mem_arcs_iff wellFormed ha hb

/-- Sorted by their numbers, codes are in the order of the nodes. -/
theorem codesOf_eq (h : Represents st g) (wellFormed : g.WellFormed) {found : List Nat}
    (nodup : found.Nodup) {p : String → Bool}
    (mem : ∀ n code, g.index? code = some n → (n ∈ found ↔ p code = true)) :
    st.codesOf found = g.nodes.filter p := by
  have at? {n : Nat} {code : String} : st.codes[n]? = some code ↔ g.index? code = some n := by
    rw [h.codes, index?_eq_some_iff wellFormed.nodup]
  have place {n : Nat} {code : String} (numbered : g.index? code = some n) :
      g.nodes.idxOf code = n := by
    rw [index?_eq_some_iff wellFormed.nodup] at numbered
    obtain ⟨bound, here⟩ := List.getElem?_eq_some_iff.1 numbered
    rw [← here, wellFormed.nodup.idxOf_getElem]
  have same : (st.codesOf found).Perm (g.nodes.filter p) := by
    refine (List.perm_ext_iff_of_nodup ?_ (wellFormed.nodup.filter p)).2 fun code => ?_
    · refine (nodup.mergeSort).filterMap fun n m code hn hm => ?_
      rw [Option.mem_def, at?] at hn hm
      exact Option.some.inj (hn.symm.trans hm)
    · rw [Numbered.codesOf, List.mem_filterMap, List.mem_filter]
      constructor
      · rintro ⟨n, hn, here⟩
        rw [List.mem_mergeSort] at hn
        have numbered := at?.1 here
        refine ⟨?_, (mem n code numbered).1 hn⟩
        rw [← h.codes]
        exact List.mem_of_getElem? here
      · rintro ⟨node, holds⟩
        obtain ⟨n, numbered⟩ := exists_index? node
        exact ⟨n, List.mem_mergeSort.2 ((mem n code numbered).2 holds), at?.2 numbered⟩
  -- Both lists ascend by the places of the nodes.
  have sorted : (st.codesOf found).Pairwise fun a b => g.nodes.idxOf a ≤ g.nodes.idxOf b := by
    refine List.pairwise_filterMap.2 ((List.pairwise_mergeSort' (· ≤ ·) found).imp ?_)
    intro n m below a ha b hb
    rwa [place (at?.1 ha), place (at?.1 hb)]
  have nodes : g.nodes.Pairwise fun a b => g.nodes.idxOf a ≤ g.nodes.idxOf b := by
    refine List.pairwise_iff_getElem.2 fun i j hi hj below => ?_
    rw [wellFormed.nodup.idxOf_getElem, wellFormed.nodup.idxOf_getElem]
    exact Nat.le_of_lt below
  refine same.eq_of_pairwise (fun a b ha hb below above => ?_) sorted (nodes.filter p)
  have node : a ∈ g.nodes := List.mem_of_mem_filter (same.subset ha)
  exact (List.idxOf_inj node).1 (Nat.le_antisymm below above)

/-- The neighbours of a code are the nodes that have the edge in question with it. -/
theorem neighbours_eq (h : Represents st g) (wellFormed : g.WellFormed) {near far : Nat × Nat → Nat}
    (determined : ∀ x y, near x = near y → far x = far y → x = y) {edge : String → Bool}
    (between : ∀ n m b, g.index? code = some n → g.index? b = some m →
      ((∃ arc ∈ st.arcs, near arc = n ∧ far arc = m) ↔ edge b = true))
    (unknown : code ∉ g.nodes → ∀ b, edge b = false) :
    st.neighbours near far code = g.nodes.filter edge := by
  rw [Numbered.neighbours, h.index]
  cases numbered : g.index? code with
  | none =>
      have none := unknown (index?_eq_none_iff.1 numbered)
      refine (List.filter_eq_nil_iff.2 fun b _ edge => ?_).symm
      exact nomatch edge.symm.trans (none b)
  | some n =>
      refine h.codesOf_eq wellFormed ?_ fun m b hb => ?_
      · refine (h.nodup.filter _).map_on fun x hx y hy same => determined x y ?_ same
        obtain ⟨-, nearX⟩ := List.mem_filter.1 hx
        obtain ⟨-, nearY⟩ := List.mem_filter.1 hy
        exact (eq_of_beq nearX).trans (eq_of_beq nearY).symm
      · rw [← between n m b numbered hb, List.mem_map]
        refine exists_congr fun arc => ?_
        rw [List.mem_filter, beq_iff_eq, and_assoc]

/-- The numbers of the dependencies are sorted, so they come in the order of the nodes. -/
theorem dependenciesOf_eq (h : Represents st g) (wellFormed : g.WellFormed) (code : String) :
    st.dependenciesOf code = g.dependenciesOf code := by
  refine h.neighbours_eq wellFormed (fun x y near far => Prod.ext far near) (fun n m b ha hb => ?_)
    fun fresh b => eq_false_of_ne_true fun edge => fresh (wellFormed.ends code b edge).1
  rw [← h.mem_arcs_iff wellFormed ha hb]
  exact ⟨fun ⟨arc, harc, hn, hm⟩ => by rwa [← hn, ← hm], fun harc => ⟨(m, n), harc, rfl, rfl⟩⟩

/-- The same for what depends on a node, with the arcs read the other way. -/
theorem dependentsOf_eq (h : Represents st g) (wellFormed : g.WellFormed) (code : String) :
    st.dependentsOf code = g.dependentsOf code := by
  refine h.neighbours_eq wellFormed (fun x y near far => Prod.ext near far) (fun n m b ha hb => ?_)
    fun fresh b => eq_false_of_ne_true fun edge => fresh (wellFormed.ends b code edge).2
  rw [← h.mem_arcs_iff wellFormed hb ha]
  exact ⟨fun ⟨arc, harc, hn, hm⟩ => by rwa [← hn, ← hm], fun harc => ⟨(n, m), harc, rfl, rfl⟩⟩

end Represents

/-- A graph between numbers represents the graph that the same additions build. -/
theorem represents_ofAdditions (additions : List Addition) :
    Represents (Numbered.ofAdditions additions) (ofAdditions additions) := by
  refine Represents.foldl_add ?_ WellFormed.empty additions
  exact ⟨List.nodup_nil, rfl, fun _ => rfl, rfl⟩

end Rollforward.Graph
