import Mathlib.Data.Finset.Dedup
import Mathlib.Data.Finset.SDiff
import Rollforward.Proofs.Statement.WellFormed

/-!
# `Rollforward.Proofs.Statement.Edges`: the graph of a template has the edges of its formulas

The edges are collected from the tokens of the formulas, the values come from their trees. Here the
edges are those of the trees: an item has an edge to each item that its formula refers to without a
namespace, at whatever time (`LineItem.RefersTo`). The one exception is its own code, to which only
a reference in the period at hand leads (`hasEdge_graphOf_line_iff`). Such an edge is a cycle, so a
template with one does not compile (`compile_eq_cycle`), and in the graph of a template that
compiles no node has an edge to itself (`hasEdge_iff_refersTo`).
-/

set_option autoImplicit false

namespace Rollforward

open Formula (Reference)

/-! ### References of lines -/

namespace LineItem

variable {line : LineItem} {code : String}

/-- The formula of the line refers to `code` without a namespace, `offset` periods from now. -/
def RefersTo (line : LineItem) (code : String) (offset : Int) : Prop :=
  ∃ text e, line.activeFormula? = some text ∧ Formula.parse text = .ok e ∧
    ⟨none, code, offset⟩ ∈ e.references

/-- A line has one formula, and that has one tree. -/
theorem refersTo_iff {text : String} {e : Formula.Expr} {offset : Int}
    (active : line.activeFormula? = some text) (parsed : Formula.parse text = .ok e) :
    line.RefersTo code offset ↔ ⟨none, code, offset⟩ ∈ e.references := by
  constructor
  · rintro ⟨text', e', active', parsed', hr⟩
    obtain rfl : text = text' := Option.some.inj (active.symm.trans active')
    obtain rfl : e = e' := Except.ok.inj (parsed.symm.trans parsed')
    exact hr
  · exact fun hr => ⟨text, e, active, parsed, hr⟩

/-- A line reads what it refers to, but not itself at another time. -/
theorem reads_iff :
    line.Reads code ↔
      ∃ offset, line.RefersTo code offset ∧ (offset = 0 ∨ code ≠ Text.trim line.code) := by
  constructor
  · rintro ⟨text, e, ⟨source, code', offset⟩, active, parsed, hr, rfl, rfl, reads⟩
    exact ⟨offset, ⟨text, e, active, parsed, hr⟩, reads⟩
  · rintro ⟨offset, ⟨text, e, active, parsed, hr⟩, reads⟩
    exact ⟨text, e, _, active, parsed, hr, rfl, rfl, reads⟩

end LineItem

namespace Statement

variable {t : Template} {s : Statement} {items : List Item} {line : LineItem} {a b : String}

/-! ### Sound lines -/

/-- Lines that are sound are read, all of them. -/
theorem exists_readItems_of_sound (sound : LineItem.Sound t.items) :
    ∃ items, readItems [] t.items = .ok items := by
  cases read : readItems [] t.items with
  | ok items => exact ⟨items, rfl⟩
  | error d =>
      obtain ⟨before, line, after, -, split, -, flaw⟩ := readItems_eq_error read
      rw [List.append_nil] at flaw
      rw [split] at sound
      exact absurd sound flaw.not_sound

/-- The edges from an item lead to the items that its line refers to; to the item itself only where
the line refers to it in the period at hand. -/
theorem hasEdge_graphOf_line_iff (read : readItems [] t.items = .ok items)
    (hline : line ∈ t.items) :
    (graphOf items).hasEdge (Text.trim line.code) b = true ↔
      b ∈ t.codes ∧ ∃ offset, line.RefersTo b offset ∧
        (offset = 0 ∨ b ≠ Text.trim line.code) := by
  obtain ⟨allOf, nodup, -⟩ := readItems_eq_ok read
  have codes : items.map Item.code = t.codes := map_code_of_isOf allOf
  obtain ⟨i, hi, isOf⟩ := exists_item_of_line allOf hline
  rw [← isOf.code, hasEdge_graphOf_item nodup hi, isOf.mem_readsOf_iff, codes,
    LineItem.reads_iff, ← isOf.code]

/-- A template with sound lines, one of which refers to itself in the period at hand, has a cycle
and does not compile. -/
theorem compile_eq_cycle (sound : LineItem.Sound t.items) (hline : line ∈ t.items)
    (self : line.RefersTo (Text.trim line.code) 0) : ∃ path, compile t = .error (.cycle path) := by
  have known : Text.trim line.code ∈ t.codes := List.mem_map_of_mem hline
  have depends : t.Depends (Text.trim line.code) (Text.trim line.code) :=
    ⟨known, line, hline, rfl, LineItem.reads_iff.2 ⟨0, self, Or.inl rfl⟩⟩
  have cyclic : ¬t.Acyclic := fun acyclic => acyclic _ (.single depends)
  cases compiled : compile t with
  | ok s => exact absurd (wellFormed_of_compile compiled).acyclic cyclic
  | error d =>
      -- Neither a line nor a rule is at fault: the lines are sound, and the cycle comes first.
      cases hasDefect_of_compile compiled with
      | cycle _ _ path => exact ⟨path, rfl⟩
      | line split _ flaw =>
          rw [split] at sound
          exact absurd sound flaw.not_sound
      | rule _ acyclic => exact absurd acyclic cyclic

/-! ### Templates that compile -/

/-- An edge leads from an item to another that its formula refers to. -/
theorem hasEdge_iff_refersTo (compiled : compile t = .ok s) :
    s.graph.hasEdge a b = true ↔ a ∈ t.codes ∧ b ∈ t.codes ∧ b ≠ a ∧
      ∃ line ∈ t.items, Text.trim line.code = a ∧ ∃ offset, line.RefersTo b offset := by
  obtain ⟨read, graph, -⟩ := compile_eq_ok compiled
  have codes : s.items.map Item.code = t.codes := codes_of_compile compiled
  rw [graph]
  constructor
  · intro edge
    obtain ⟨i, hi, rfl, reads⟩ := hasEdge_graphOf.1 edge
    have other : b ≠ i.code := by
      rintro rfl
      exact (isCompiled_of_compile compiled).not_reads_self i hi reads
    obtain ⟨line, hline, isOf⟩ := (mem_items_of_compile compiled).1 hi
    obtain ⟨known, reads⟩ := isOf.mem_readsOf_iff.1 reads
    obtain ⟨offset, refers, -⟩ := LineItem.reads_iff.1 reads
    rw [codes] at known
    exact ⟨codes ▸ List.mem_map_of_mem hi, known, other, line, hline, isOf.code.symm, offset,
      refers⟩
  · rintro ⟨-, hb, other, line, hline, rfl, offset, refers⟩
    exact (hasEdge_graphOf_line_iff read hline).2 ⟨hb, offset, refers, Or.inr other⟩

/-- What an item reads without a prefix, at whatever time. -/
theorem Item.mem_dependencies {i : Item} {code : String} :
    code ∈ i.dependencies ↔ ∃ r ∈ i.references, r.source = none ∧ r.code = code := by
  simp only [dependencies, Collection.mem_sortDistinct, List.mem_map, List.mem_filter,
    Reference.isUnqualified, Option.isNone_iff_eq_none, and_assoc]

/-- The edges of an item lead to the items that it reads, apart from itself. -/
theorem IsCompiled.mem_dependenciesOf_iff (h : s.IsCompiled) {i : Item} (hi : i ∈ s.items)
    {code : String} :
    code ∈ s.graph.dependenciesOf i.code ↔
      (code ∈ i.dependencies ∧ code ∈ s.codes) ∧ code ≠ i.code := by
  rw [Graph.dependenciesOf, List.mem_filter, h.nodes, h.hasEdge i hi, Item.mem_dependencies]
  constructor
  · rintro ⟨known, reads⟩
    have other : code ≠ i.code := by
      rintro rfl
      exact h.not_reads_self i hi reads
    obtain ⟨-, r, hr, bare, same, -⟩ := mem_readsOf.1 reads
    exact ⟨⟨⟨r, hr, bare, same⟩, known⟩, other⟩
  · rintro ⟨⟨⟨r, hr, bare, same⟩, known⟩, other⟩
    exact ⟨known, mem_readsOf.2 ⟨known, r, hr, bare, same, Or.inr other⟩⟩

/-- The graph of a template that compiles has the codes of the items as its nodes, in the order of
the template. Its edges are the references of the formulas to other items without a namespace, at
whatever time; what an item depends on is what its formula reads of the other items.

Where the lines of a template are sound, one that refers to itself in the period at hand is reported
as a cycle. No edge comes from references of a line to itself at other times, and none to a code
that is referred to with prefixes only. -/
theorem edges_are_references (t : Template) :
    (∀ s, compile t = .ok s →
      s.graph.nodes = t.codes ∧
      (∀ a b, s.graph.hasEdge a b = true ↔ a ∈ t.codes ∧ b ∈ t.codes ∧ b ≠ a ∧
        ∃ line ∈ t.items, Text.trim line.code = a ∧ ∃ offset, line.RefersTo b offset) ∧
      ∀ i ∈ s.items, (s.graph.dependenciesOf i.code).toFinset =
        (i.dependencies.toFinset ∩ t.codes.toFinset) \ {i.code}) ∧
    (LineItem.Sound t.items → ∃ items, readItems [] t.items = .ok items ∧
      ∀ line ∈ t.items, ∀ text e,
        line.activeFormula? = some text → Formula.parse text = .ok e →
        let code := Text.trim line.code
        (⟨none, code, 0⟩ ∈ e.references → ∃ path, compile t = .error (.cycle path)) ∧
        ((∀ r ∈ e.references, r.source = none → r.code = code → r.offset ≠ 0) →
          (graphOf items).hasEdge code code = false) ∧
        ∀ b, (∀ r ∈ e.references, r.code = b → r.source ≠ none) →
          (graphOf items).hasEdge code b = false) := by
  constructor
  · intro s compiled
    have ready := isCompiled_of_compile compiled
    have codes : s.codes = t.codes := codes_of_compile compiled
    refine ⟨ready.nodes.trans codes, fun a b => hasEdge_iff_refersTo compiled, fun i hi => ?_⟩
    -- The dependencies kept with an item may name itself or no item; the graph drops both.
    ext code
    simp only [List.mem_toFinset, Finset.mem_sdiff, Finset.mem_inter, Finset.mem_singleton,
      ready.mem_dependenciesOf_iff hi, codes]
  · intro sound
    -- The template need not compile, so the graph is that of the lines as they are read.
    obtain ⟨items, read⟩ := exists_readItems_of_sound sound
    refine ⟨items, read, ?_⟩
    intro line hline text e active parsed code
    refine ⟨?_, ?_, ?_⟩
    · intro self
      exact compile_eq_cycle sound hline ((LineItem.refersTo_iff active parsed).2 self)
    · intro lagged
      rw [← Bool.not_eq_true, hasEdge_graphOf_line_iff read hline]
      rintro ⟨-, offset, refers, now | other⟩
      · exact lagged _ ((LineItem.refersTo_iff active parsed).1 refers) rfl rfl now
      · exact other rfl
    · intro b prefixed
      rw [← Bool.not_eq_true, hasEdge_graphOf_line_iff read hline]
      rintro ⟨-, offset, refers, -⟩
      exact prefixed _ ((LineItem.refersTo_iff active parsed).1 refers) rfl rfl

set_option maxRecDepth 20000 in
/-- `A` reads other times of itself and of `C`, and `B` with a prefix; its one edge leads to `C`. A
reference to itself in the period at hand is a cycle, whatever else stands beside it. -/
theorem edges_are_references_other_times :
    let lagged : Template :=
      { items := [{ code := "A", formula := some "A[t-1]+C[t+1]+pl:B" }, { code := "B" },
          { code := " C" }] }
    let cyclic : Template := { items := [{ code := "A", formula := some "A[t-1]+A" }] }
    (∃ s, compile lagged = .ok s ∧ s.graph.nodes = ["A", "B", "C"] ∧
      s.graph.hasEdge "A" "C" = true ∧ s.graph.hasEdge "A" "A" = false ∧
      s.graph.hasEdge "A" "B" = false) ∧
    LineItem.Sound cyclic.items ∧ ∃ path, compile cyclic = .error (.cycle path) := by
  intro lagged cyclic
  let before : Reference := ⟨none, "A", -1⟩
  let ahead : Reference := ⟨none, "C", 1⟩
  let elsewhere : Reference := ⟨some (.domain "pl"), "B", 0⟩
  let tree : Formula.Expr :=
    .binary .add (.binary .add (.reference before) (.reference ahead)) (.reference elsewhere)
  let s : Statement :=
    { code := ""
      items := [
        { code := "A"
          formula := some ⟨"A[t-1]+C[t+1]+pl:B", tree, [before, ahead, elsewhere]⟩
          declared := { code := "A", formula := some "A[t-1]+C[t+1]+pl:B" } },
        { code := "B", formula := none, declared := { code := "B" } },
        { code := "C", formula := none, declared := { code := " C" } }]
      order := [1, 2, 0]
      graph := ⟨["A", "B", "C"], [("A", "C")]⟩
      checks := [] }
  have trimmed : Text.trim "A" = "A" := by cbv
  have codes : lagged.codes = ["A", "B", "C"] := by cbv
  have compiled : compile lagged = .ok s := by
    unfold lagged s tree before ahead elsewhere
    cbv
  have refers : LineItem.RefersTo { code := "A", formula := some "A[t-1]+C[t+1]+pl:B" } "C" 1 := by
    refine ⟨"A[t-1]+C[t+1]+pl:B", tree, by cbv, ?_, List.mem_cons_of_mem _ List.mem_cons_self⟩
    unfold tree before ahead elsewhere
    cbv
  have active : LineItem.activeFormula? { code := "A", formula := some "A[t-1]+A" } =
      some "A[t-1]+A" := by cbv
  have parsed : Formula.parse "A[t-1]+A" =
      .ok (.binary .add (.reference before) (.reference (.bare "A"))) := by
    unfold before
    cbv
  have sound : LineItem.Sound cyclic.items := by
    constructor
    case filled =>
      rw [List.forall_mem_singleton, trimmed]
      decide
    case distinct => exact List.nodup_singleton _
    case parsed =>
      rw [List.forall_mem_singleton]
      intro text written
      obtain rfl : "A[t-1]+A" = text := Option.some.inj (active.symm.trans written)
      exact ⟨_, parsed⟩
  obtain ⟨nodes, edges, -⟩ := (edges_are_references lagged).1 s compiled
  obtain ⟨items, -, lines⟩ := (edges_are_references cyclic).2 sound
  obtain ⟨cycle, -⟩ := lines _ List.mem_cons_self _ _ active parsed
  refine ⟨⟨s, compiled, nodes.trans codes, (edges "A" "C").2 ?_, ?_, rfl⟩, sound, cycle ?_⟩
  · rw [codes]
    exact ⟨by decide, by decide, by decide, _, List.mem_cons_self, trimmed, 1, refers⟩
  · exact eq_false_of_ne_true fun edge => ((edges "A" "A").1 edge).2.2.1 rfl
  · rw [trimmed]
    exact List.mem_cons_of_mem _ List.mem_cons_self

end Statement

end Rollforward
