import Mathlib.Data.List.Induction
import Rollforward.Proofs.Formula.Scan
import Rollforward.Proofs.Graph.Basic
import Rollforward.Proofs.Graph.Order
import Rollforward.Proofs.Statement.Basic
import Rollforward.Statement.Compile

/-!
# `Rollforward.Proofs.Statement.Compile`: what `compile` makes sure of

`IsCompiled` collects what later proofs use of a statement: codes are told apart, formulas are
parsed, the edges of the graph are what the formulas read, and the order of evaluation holds every
position once, each behind the positions that its item reads. `isCompiled_of_compile` shows it all
of every statement that `compile` answers.

`Item.asks` lists what is asked for the value of an item, and `IsCompiled.mem_readsOf_of_asks` finds
the items in it among the edges of the graph.

`item_induction` is the one induction along the order. What holds of an item whenever it holds of
the items that its formula reads holds of every item; after this lemma the order itself is out of
sight.
-/

set_option autoImplicit false

namespace Rollforward.Statement

open Formula (Reference)

/-! ### Items and their lines -/

/-- `item` is the line with its formula parsed. -/
structure Item.IsOf (line : LineItem) (item : Item) : Prop where
  code : item.code = Text.trim line.code
  declared : item.declared = line
  text : item.formula.map ItemFormula.text = line.activeFormula?
  parsed : ∀ f, item.formula = some f →
    Formula.parse f.text = .ok f.expr ∧ Formula.referencesOf f.text = .ok f.references

/-- An item has a formula where its line has one. -/
theorem Item.IsOf.formula_eq_none_iff {line : LineItem} {item : Item} (h : item.IsOf line) :
    item.formula = none ↔ line.activeFormula? = none := by
  rw [← h.text, Option.map_eq_none_iff]

/-- A line makes one item. -/
theorem Item.IsOf.unique {line : LineItem} {i j : Item} (hi : i.IsOf line) (hj : j.IsOf line) :
    i = j := by
  have formula : i.formula = j.formula := by
    have text := hi.text.trans hj.text.symm
    cases hf : i.formula with
    | none =>
        rw [hf] at text
        exact (Option.map_eq_none_iff.1 text.symm).symm
    | some f =>
        rw [hf, Option.map_some] at text
        obtain ⟨f', hf', same⟩ := Option.map_eq_some_iff.1 text.symm
        -- What the parser and the scan make of a text is one tree and one list.
        obtain ⟨parsed, listed⟩ := hi.parsed f hf
        obtain ⟨parsed', listed'⟩ := hj.parsed f' hf'
        rw [same, parsed] at parsed'
        rw [same, listed] at listed'
        rw [hf']
        cases f
        cases f'
        cases same
        cases parsed'
        cases listed'
        rfl
  have code := hi.code.trans hj.code.symm
  have declared := hi.declared.trans hj.declared.symm
  cases i
  cases j
  cases formula
  cases code
  cases declared
  rfl

/-- A formula that is read keeps its text and what the parser and the scan make of it. -/
theorem readFormula_eq_ok {code text : String} {f : ItemFormula}
    (h : readFormula code text = .ok f) :
    f.text = text ∧ Formula.parse f.text = .ok f.expr ∧
      Formula.referencesOf f.text = .ok f.references := by
  unfold readFormula at h
  split at h
  · exact nomatch h
  · next expr parsed =>
    split at h
    · exact nomatch h
    · next references listed =>
      rw [← Except.ok.inj h]
      exact ⟨rfl, parsed, listed⟩

/-- A line that is read has a code, and one that is new. -/
theorem readItem_eq_ok {seen : List String} {line : LineItem} {item : Item}
    (h : readItem seen line = .ok item) :
    item.IsOf line ∧ item.code ≠ "" ∧ item.code ∉ seen := by
  unfold readItem at h
  dsimp only at h
  split at h
  · cases h
  · next filled =>
    split at h
    · cases h
    · next fresh =>
      split at h
      · next none =>
        rw [← Except.ok.inj h]
        exact ⟨⟨rfl, rfl, none.symm, fun f hf => by cases hf⟩, filled, fresh⟩
      · next text active =>
        split at h
        · cases h
        · next formula read =>
          obtain ⟨htext, parsed⟩ := readFormula_eq_ok read
          rw [← Except.ok.inj h]
          refine ⟨⟨rfl, rfl, ?_, ?_⟩, filled, fresh⟩
          · rw [active, ← htext]
            rfl
          · intro f hf
            rw [← Option.some.inj hf]
            exact parsed

/-- The items that are read stand for their lines, and no code is empty or stands twice. -/
theorem readItems_eq_ok {seen : List String} {lines : List LineItem} {items : List Item}
    (h : readItems seen lines = .ok items) :
    List.Forall₂ (fun line item => item.IsOf line) lines items ∧ (items.map Item.code).Nodup ∧
      ∀ i ∈ items, i.code ≠ "" ∧ i.code ∉ seen := by
  induction lines generalizing seen items with
  | nil =>
      rw [← Except.ok.inj h]
      exact ⟨.nil, List.nodup_nil, fun i hi => absurd hi List.not_mem_nil⟩
  | cons line lines ih =>
      unfold readItems at h
      split at h
      · exact nomatch h
      · next item read =>
        split at h
        · exact nomatch h
        · next rest readRest =>
          obtain ⟨isOf, filled, fresh⟩ := readItem_eq_ok read
          obtain ⟨allOf, nodup, apart⟩ := ih readRest
          rw [← Except.ok.inj h]
          refine ⟨.cons isOf allOf, ?_, ?_⟩
          · refine List.nodup_cons.2 ⟨fun again => ?_, nodup⟩
            obtain ⟨i, hi, same⟩ := List.mem_map.1 again
            exact (apart i hi).2 (by rw [same]; exact List.mem_cons_self)
          · refine List.forall_mem_cons.2 ⟨⟨filled, fresh⟩, fun i hi => ?_⟩
            exact ⟨(apart i hi).1, fun known => (apart i hi).2 (List.mem_cons_of_mem _ known)⟩

/-- Every item comes from a line. -/
theorem exists_line_of_mem {lines : List LineItem} {items : List Item}
    (h : List.Forall₂ (fun line item => item.IsOf line) lines items) {i : Item} (hi : i ∈ items) :
    ∃ line ∈ lines, i.IsOf line := by
  induction h with
  | nil => exact absurd hi List.not_mem_nil
  | cons isOf rest ih =>
      cases List.mem_cons.1 hi with
      | inl first =>
          rw [first]
          exact ⟨_, List.mem_cons_self, isOf⟩
      | inr later =>
          obtain ⟨line, hline, isOf⟩ := ih later
          exact ⟨line, List.mem_cons_of_mem _ hline, isOf⟩

/-- And every line has become an item. -/
theorem exists_item_of_line {lines : List LineItem} {items : List Item}
    (h : List.Forall₂ (fun line item => item.IsOf line) lines items) {line : LineItem}
    (hline : line ∈ lines) : ∃ i ∈ items, i.IsOf line := by
  induction h with
  | nil => exact absurd hline List.not_mem_nil
  | cons isOf rest ih =>
      cases List.mem_cons.1 hline with
      | inl first =>
          rw [first]
          exact ⟨_, List.mem_cons_self, isOf⟩
      | inr later =>
          obtain ⟨i, hi, isOf⟩ := ih later
          exact ⟨i, List.mem_cons_of_mem _ hi, isOf⟩

/-- The items have the codes of their lines. -/
theorem map_code_of_isOf {lines : List LineItem} {items : List Item}
    (h : List.Forall₂ (fun line item => item.IsOf line) lines items) :
    items.map Item.code = lines.map fun line => Text.trim line.code := by
  induction h with
  | nil => rfl
  | cons isOf rest ih => rw [List.map_cons, List.map_cons, isOf.code, ih]

/-! ### The graph of the items -/

/-- What an item reads in its own period. It counts as reading itself only when it does so in the
present. -/
theorem mem_readsOf {codes : List String} {i : Item} {code : String} :
    code ∈ readsOf codes i ↔ code ∈ codes ∧ ∃ r ∈ i.references,
      r.source = none ∧ r.code = code ∧ (r.offset = 0 ∨ code ≠ i.code) := by
  simp only [readsOf, Reference.isUnqualified, List.mem_map, List.mem_filter, Bool.and_eq_true,
    Bool.or_eq_true, Option.isNone_iff_eq_none, List.contains_iff_mem, beq_iff_eq, bne_iff_ne]
  constructor
  · rintro ⟨r, ⟨hr, ⟨bare, known⟩, reads⟩, rfl⟩
    exact ⟨known, r, hr, bare, rfl, reads⟩
  · rintro ⟨known, r, hr, bare, rfl, reads⟩
    exact ⟨r, ⟨hr, ⟨bare, known⟩, reads⟩, rfl⟩

/-- The edges of a row of items. The two loops of the graph, over the items and over what each
reads, are opened here. -/
theorem hasEdge_foldl_items {codes : List String} {items : List Item} {g : Graph}
    {x y : String} :
    (items.foldl (fun g i => (readsOf codes i).foldl (fun g d => g.addEdge i.code d) g) g).hasEdge
        x y = true ↔
      (∃ i ∈ items, i.code = x ∧ y ∈ readsOf codes i) ∨ g.hasEdge x y = true := by
  induction items generalizing g with
  | nil => simp
  | cons i items ih =>
      rw [List.foldl_cons, ih, Graph.hasEdge_foldl_addEdge]
      simp only [List.mem_cons, exists_eq_or_imp]
      constructor
      · rintro (later | ⟨rfl, first⟩ | before)
        · exact Or.inl (Or.inr later)
        · exact Or.inl (Or.inl ⟨rfl, first⟩)
        · exact Or.inr before
      · rintro ((⟨rfl, first⟩ | later) | before)
        · exact Or.inr (Or.inl ⟨rfl, first⟩)
        · exact Or.inl later
        · exact Or.inr (Or.inr before)

/-- Items bring no nodes beside the codes that are there from the start. -/
theorem nodes_foldl_items {codes : List String} {items : List Item} {g : Graph}
    (nodes : g.nodes = codes) (known : ∀ i ∈ items, i.code ∈ codes) :
    (items.foldl (fun g i => (readsOf codes i).foldl (fun g d => g.addEdge i.code d) g) g).nodes =
      codes := by
  induction items generalizing g with
  | nil => exact nodes
  | cons i items ih =>
      have ⟨first, rest⟩ := List.forall_mem_cons.1 known
      refine ih ?_ rest
      rw [Graph.nodes_foldl_addEdge (by rwa [nodes]), nodes]
      intro d hd
      rw [nodes]
      exact (mem_readsOf.1 hd).1

variable {items : List Item}

/-- The nodes of the graph are the codes, in the order of the lines, and a code is a node at the
position of its item. -/
theorem nodes_graphOf (nodup : (items.map Item.code).Nodup) :
    (graphOf items).nodes = items.map Item.code := by
  refine nodes_foldl_items ?_ fun i hi => List.mem_map_of_mem hi
  rw [Graph.nodes_foldl_addNode (by simpa [Graph.empty] using nodup)]
  rfl

/-- An edge leads from an item to each code of the template that it reads. -/
theorem hasEdge_graphOf {x y : String} :
    (graphOf items).hasEdge x y = true ↔
      ∃ i ∈ items, i.code = x ∧ y ∈ readsOf (items.map Item.code) i := by
  rw [graphOf, hasEdge_foldl_items, Graph.hasEdge_foldl_addNode]
  exact or_iff_left (fun edge => nomatch edge)

/-- The edges from an item lead to what it reads, since no other item has its code. -/
theorem hasEdge_graphOf_item (nodup : (items.map Item.code).Nodup) {i : Item} (hi : i ∈ items)
    {code : String} :
    (graphOf items).hasEdge i.code code = true ↔ code ∈ readsOf (items.map Item.code) i := by
  rw [hasEdge_graphOf]
  constructor
  · rintro ⟨j, hj, same, reads⟩
    rwa [List.inj_on_of_nodup_map nodup hi hj same.symm]
  · intro reads
    exact ⟨i, hi, rfl, reads⟩

/-- With distinct codes an edge cannot come from another item of the same code. -/
theorem not_mem_readsOf_of_hasEdge_eq_false (nodup : (items.map Item.code).Nodup) {i : Item}
    (hi : i ∈ items) {code : String} (none : (graphOf items).hasEdge i.code code = false) :
    code ∉ readsOf (items.map Item.code) i := by
  rw [← hasEdge_graphOf_item nodup hi, none]
  exact Bool.false_ne_true

/-! ### What `compile` makes sure of -/

/-- A statement whose items are read, told apart and put in order. -/
structure IsCompiled (s : Statement) : Prop where
  codes_nodup : s.codes.Nodup
  codes_nonempty : ∀ i ∈ s.items, i.code ≠ ""
  parsed : ∀ i ∈ s.items, ∀ f, i.formula = some f →
    Formula.parse f.text = .ok f.expr ∧ Formula.referencesOf f.text = .ok f.references
  nodes : s.graph.nodes = s.codes
  hasEdge : ∀ i ∈ s.items, ∀ code, s.graph.hasEdge i.code code = true ↔ code ∈ readsOf s.codes i
  /-- Every position stands in the order once. -/
  order_perm : s.order.Perm (List.range s.items.length)
  not_reads_self : ∀ i ∈ s.items, i.code ∉ readsOf s.codes i
  /-- No item reads one behind it. -/
  not_reads_later : s.order.Pairwise fun p q => ∀ i j, s.items[p]? = some i →
    s.items[q]? = some j → j.code ∉ readsOf s.codes i

/-- The parts of a statement that `compile` answers. -/
theorem compile_eq_ok {t : Template} {s : Statement} (h : compile t = .ok s) :
    readItems [] t.items = .ok s.items ∧ s.graph = graphOf s.items ∧
      ∃ codes, (graphOf s.items).order = .ok codes ∧ s.order = codes.filterMap s.position? := by
  unfold compile at h
  split at h
  · exact nomatch h
  · next items read =>
    dsimp only at h
    split at h
    · exact nomatch h
    · next codes ordered =>
      split at h
      · exact nomatch h
      · rw [← Except.ok.inj h]
        exact ⟨read, rfl, codes, ordered, rfl⟩

/-- The rules of a statement are those of its template, parsed. -/
theorem checks_of_compile {t : Template} {s : Statement} (h : compile t = .ok s) :
    t.rules.mapM readRule = .ok s.checks := by
  unfold compile at h
  split at h
  · cases h
  · dsimp only at h
    split at h
    · cases h
    · split at h
      · cases h
      · next checks read =>
        rw [← Except.ok.inj h]
        exact read

/-- A statement has the codes of its template. -/
theorem codes_of_compile {t : Template} {s : Statement} (h : compile t = .ok s) :
    s.codes = t.items.map fun line => Text.trim line.code :=
  map_code_of_isOf (readItems_eq_ok (compile_eq_ok h).1).1

/-- The items of a statement are those that the lines of its template make. -/
theorem mem_items_of_compile {t : Template} {s : Statement} (h : compile t = .ok s) {i : Item} :
    i ∈ s.items ↔ ∃ line ∈ t.items, i.IsOf line := by
  have allOf := (readItems_eq_ok (compile_eq_ok h).1).1
  constructor
  · exact exists_line_of_mem allOf
  · rintro ⟨line, hline, isOf⟩
    obtain ⟨j, hj, isOf'⟩ := exists_item_of_line allOf hline
    rwa [isOf.unique isOf']

/-- The positions of all codes, in whatever order, are all positions. -/
theorem filterMap_position?_perm {s : Statement} (nodup : s.codes.Nodup) {codes : List String}
    (perm : codes.Perm s.codes) :
    (codes.filterMap s.position?).Perm (List.range s.items.length) := by
  have distinct : (codes.filterMap s.position?).Nodup := by
    refine (perm.nodup_iff.2 nodup).filterMap fun a b p ha hb => ?_
    obtain ⟨i, hi, hcode⟩ := (position?_eq_some_iff nodup).1 ha
    obtain ⟨j, hj, hcode'⟩ := (position?_eq_some_iff nodup).1 hb
    rw [← hcode, ← hcode', Option.some.inj (hi.symm.trans hj)]
  -- Neither list has a position twice, so it is enough that they have the same positions.
  refine (List.perm_ext_iff_of_nodup distinct List.nodup_range).2 fun p => ?_
  rw [List.mem_filterMap, List.mem_range]
  constructor
  · rintro ⟨code, -, found⟩
    obtain ⟨i, hi, -⟩ := (position?_eq_some_iff nodup).1 found
    exact (List.getElem?_eq_some_iff.1 hi).1
  · intro bound
    have hi := List.getElem?_eq_getElem bound
    refine ⟨s.items[p].code, ?_, (position?_eq_some_iff nodup).2 ⟨_, hi, rfl⟩⟩
    exact perm.mem_iff.2 (List.mem_map_of_mem (List.getElem_mem bound))

/-- In an order of the graph no position stands before one that its item reads. -/
theorem pairwise_filterMap_position? {s : Statement} (nodup : s.codes.Nodup)
    {codes : List String}
    (notLater : codes.Pairwise fun code later => (graphOf s.items).hasEdge code later = false) :
    (codes.filterMap s.position?).Pairwise fun p q => ∀ i j, s.items[p]? = some i →
      s.items[q]? = some j → j.code ∉ readsOf s.codes i := by
  rw [List.pairwise_filterMap]
  refine notLater.imp fun {a b} none p hp q hq i j hi hj => ?_
  -- The codes in the graph are those of the items that stand at the two positions.
  obtain ⟨i', hi', hcode⟩ := (position?_eq_some_iff nodup).1 hp
  obtain ⟨j', hj', hcode'⟩ := (position?_eq_some_iff nodup).1 hq
  obtain rfl := Option.some.inj (hi.symm.trans hi')
  obtain rfl := Option.some.inj (hj.symm.trans hj')
  rw [← hcode, ← hcode'] at none
  exact not_mem_readsOf_of_hasEdge_eq_false nodup (List.mem_of_getElem? hi) none

/-- A statement that `compile` answers has all that later proofs use. -/
theorem isCompiled_of_compile {t : Template} {s : Statement} (h : compile t = .ok s) :
    IsCompiled s := by
  obtain ⟨read, graph, codes, ordered, order⟩ := compile_eq_ok h
  obtain ⟨allOf, nodup, apart⟩ := readItems_eq_ok read
  obtain ⟨perm, notSelf, notLater⟩ := Graph.order_eq_ok ordered
  rw [nodes_graphOf nodup] at perm
  constructor
  case codes_nodup => exact nodup
  case codes_nonempty => exact fun i hi => (apart i hi).1
  case parsed =>
    intro i hi
    obtain ⟨line, -, isOf⟩ := exists_line_of_mem allOf hi
    exact isOf.parsed
  case nodes =>
    rw [graph]
    exact nodes_graphOf nodup
  case hasEdge =>
    intro i hi code
    rw [graph]
    exact hasEdge_graphOf_item nodup hi
  case order_perm =>
    rw [order]
    exact filterMap_position?_perm nodup perm
  -- An item that read itself would have no place in the order.
  case not_reads_self =>
    intro i hi
    have taken : i.code ∈ codes := perm.mem_iff.2 (List.mem_map_of_mem hi)
    exact not_mem_readsOf_of_hasEdge_eq_false nodup hi (notSelf i.code taken)
  case not_reads_later =>
    rw [order]
    exact pairwise_filterMap_position? nodup notLater

/-! ### What an item asks for -/

/-- What is asked for the value of an item: the references of its formula, or its bare code when it
has none. -/
def Item.asks (i : Item) : List Reference :=
  match i.formula with
  | some f => f.expr.references
  | none => [.bare i.code]

namespace IsCompiled

variable {s : Statement} {i : Item}

/-- The references of an item are those of the tree of its formula. -/
theorem mem_references (h : s.IsCompiled) (hi : i ∈ s.items) {f : ItemFormula}
    (hf : i.formula = some f) {r : Reference} : r ∈ i.references ↔ r ∈ f.expr.references := by
  have ⟨parsed, listed⟩ := h.parsed i hi f hf
  rw [Item.references, hf]
  exact Formula.mem_referencesOf_iff parsed listed

/-- An item reads what its formula refers to without a namespace at the period at hand. -/
theorem mem_readsOf_of_reference (h : s.IsCompiled) (hi : i ∈ s.items) {f : ItemFormula}
    (hf : i.formula = some f) {r : Reference} (hr : r ∈ f.expr.references) (bare : r.source = none)
    (now : r.offset = 0) (known : r.code ∈ s.codes) : r.code ∈ readsOf s.codes i := by
  have listed : r ∈ i.references := (h.mem_references hi hf).2 hr
  exact mem_readsOf.2 ⟨known, r, listed, bare, rfl, Or.inl now⟩

/-- An item reads every other item that it asks for, at whatever time. -/
theorem mem_readsOf_of_asks (h : s.IsCompiled) (hi : i ∈ s.items) {r : Reference} (hr : r ∈ i.asks)
    (bare : r.source = none) (other : r.code ≠ i.code) (known : r.code ∈ s.codes) :
    r.code ∈ readsOf s.codes i := by
  unfold Item.asks at hr
  cases hf : i.formula with
  | none =>
      rw [hf] at hr
      exact absurd (congrArg Reference.code (List.mem_singleton.1 hr)) other
  | some f =>
      rw [hf] at hr
      have listed : r ∈ i.references := (h.mem_references hi hf).2 hr
      exact mem_readsOf.2 ⟨known, r, listed, bare, rfl, Or.inr other⟩

end IsCompiled

/-! ### Along the order -/

namespace IsCompiled

variable {s : Statement}

/-- No position is filled twice. -/
theorem order_nodup (h : s.IsCompiled) : s.order.Nodup :=
  h.order_perm.nodup_iff.2 List.nodup_range

/-- Every position is filled. -/
theorem mem_order (h : s.IsCompiled) {p : Nat} : p ∈ s.order ↔ p < s.items.length := by
  rw [h.order_perm.mem_iff, List.mem_range]

/-- An item stands behind the items that it reads. -/
theorem mem_before_of_reads (h : s.IsCompiled) {before after : List Nat} {p q : Nat} {i j : Item}
    (order : s.order = before ++ p :: after) (hi : s.items[p]? = some i)
    (hj : s.items[q]? = some j) (reads : j.code ∈ readsOf s.codes i) : q ∈ before := by
  have hq : q ∈ before ++ p :: after := by
    rw [← order, h.mem_order]
    exact (List.getElem?_eq_some_iff.1 hj).1
  cases List.mem_append.1 hq with
  | inl earlier => exact earlier
  | inr rest =>
      cases List.mem_cons.1 rest with
      | inl self =>
          rw [self, hi] at hj
          rw [← Option.some.inj hj] at reads
          exact absurd reads (h.not_reads_self i (List.mem_of_getElem? hi))
      | inr later =>
          have pairwise := h.not_reads_later
          rw [order, List.pairwise_append, List.pairwise_cons] at pairwise
          exact absurd reads (pairwise.2.1.1 q later i j hi hj)

/-- An item comes later in the order than the items that it reads. -/
theorem idxOf_lt_of_reads (h : s.IsCompiled) {p q : Nat} {i j : Item} (hi : s.items[p]? = some i)
    (hj : s.items[q]? = some j) (reads : j.code ∈ readsOf s.codes i) :
    s.order.idxOf q < s.order.idxOf p := by
  have hp : p ∈ s.order := h.mem_order.2 (List.getElem?_eq_some_iff.1 hi).1
  obtain ⟨before, after, order⟩ := List.append_of_mem hp
  have earlier : q ∈ before := h.mem_before_of_reads order hi hj reads
  have nodup := h.order_nodup
  rw [order, List.nodup_append] at nodup
  have notBefore : p ∉ before := fun again => nodup.2.2 p again p List.mem_cons_self rfl
  rw [order, List.idxOf_append_of_mem earlier, List.idxOf_append_of_notMem notBefore]
  have bound := List.idxOf_lt_length_iff.2 earlier
  omega

/-- What holds of an item whenever it holds of the items that it reads holds of every item. -/
theorem item_induction (h : s.IsCompiled) {motive : Item → Prop}
    (step : ∀ i ∈ s.items, (∀ j ∈ s.items, j.code ∈ readsOf s.codes i → motive j) → motive i) :
    ∀ i ∈ s.items, motive i := by
  -- The induction is on the part of the order that lies behind, one item longer at a time.
  have along (before after : List Nat) (order : s.order = before ++ after) :
      ∀ p ∈ before, ∀ i, s.items[p]? = some i → motive i := by
    induction before using List.reverseRecOn generalizing after with
    | nil => exact fun p hp => absurd hp List.not_mem_nil
    | append_singleton before last ih =>
        rw [List.append_assoc, List.singleton_append] at order
        have earlier := ih _ order
        intro p hp i hi
        cases List.mem_append.1 hp with
        | inl hp => exact earlier p hp i hi
        | inr hp =>
            refine step i (List.mem_of_getElem? hi) fun j hj reads => ?_
            obtain ⟨q, hq⟩ := List.mem_iff_getElem?.1 hj
            rw [List.mem_singleton.1 hp] at hi
            exact earlier q (h.mem_before_of_reads order hi hq reads) j hq
  intro i hi
  obtain ⟨p, hp⟩ := List.mem_iff_getElem?.1 hi
  refine along s.order [] (List.append_nil _).symm p ?_ i hp
  exact h.mem_order.2 (List.getElem?_eq_some_iff.1 hp).1

end IsCompiled

end Rollforward.Statement
