import Rollforward.Proofs.Formula.Scan
import Rollforward.Proofs.Graph.Cycle
import Rollforward.Proofs.Statement.Compile

/-!
# `Rollforward.Proofs.Statement.WellFormed`: which templates compile

`Template.WellFormed` says of a template, without compiling it, that its lines have codes of their
own, that its formulas are parsed, and that no item depends on itself (`Template.Depends`). These
templates compile, and no others (`Statement.exists_compile_iff`).

Of a template that does not compile `Template.HasDefect` says what is reported: the defect of the
first line that has one, a cycle when all lines are sound, and the first rule that is not parsed
when there is no cycle either. `Statement.hasDefect_of_compile` follows `compile` through its
passes. The references of a formula are listed apart from parsing it and listed again for the graph;
neither can fail on a formula that is parsed, so no defect comes from there.
-/

set_option autoImplicit false

namespace Rollforward

open Formula (Reference)
open Statement (Defect Item)

/-! ### Sound lines -/

/-- The formula of the line refers to `code` without a namespace, and in the period at hand when
`code` is its own. -/
def LineItem.Reads (line : LineItem) (code : String) : Prop :=
  ∃ text e r, line.activeFormula? = some text ∧ Formula.parse text = .ok e ∧ r ∈ e.references ∧
    r.source = none ∧ r.code = code ∧ (r.offset = 0 ∨ code ≠ Text.trim line.code)

/-- The codes of lines, without the blanks around them. -/
def LineItem.codesOf (lines : List LineItem) : List String :=
  lines.map fun line => Text.trim line.code

/-- The lines have codes, no two have the same, and their formulas are parsed. -/
structure LineItem.Sound (lines : List LineItem) : Prop where
  filled : ∀ line ∈ lines, Text.trim line.code ≠ ""
  distinct : (LineItem.codesOf lines).Nodup
  parsed : ∀ line ∈ lines, ∀ text, line.activeFormula? = some text →
    ∃ e, Formula.parse text = .ok e

/-- What is wrong with a line behind lines with the codes `seen`. An empty code is reported before
anything else, and a code that stands there already before a formula that is not parsed. -/
inductive LineItem.Flaw (seen : List String) (line : LineItem) : Defect → Prop where
  | emptyCode (empty : Text.trim line.code = "") : Flaw seen line .emptyCode
  | duplicateCode (filled : Text.trim line.code ≠ "") (again : Text.trim line.code ∈ seen) :
    Flaw seen line (.duplicateCode (Text.trim line.code))
  | badFormula (filled : Text.trim line.code ≠ "") (fresh : Text.trim line.code ∉ seen)
    {text : String} {fault : Formula.SyntaxError} (active : line.activeFormula? = some text)
    (unparsed : Formula.parse text = .error fault) :
    Flaw seen line (.badFormula (Text.trim line.code) text fault)

/-! ### Well-formed templates -/

namespace Template

/-- The codes of the items, in the order of the template. -/
def codes (t : Template) : List String := LineItem.codesOf t.items

/-- The item `a` depends on the item `b`. -/
def Depends (t : Template) (a b : String) : Prop :=
  b ∈ t.codes ∧ ∃ line ∈ t.items, Text.trim line.code = a ∧ line.Reads b

/-- No item depends on itself, directly or not. -/
def Acyclic (t : Template) : Prop := ∀ code, ¬Relation.TransGen t.Depends code code

/-- A template with nothing wrong in it. -/
structure WellFormed (t : Template) : Prop where
  lines : LineItem.Sound t.items
  acyclic : t.Acyclic
  rules : ∀ rule ∈ t.rules, ∃ e, Formula.parse rule.formula = .ok e

/-- What is reported of a template that is not well-formed: the first flaw of its lines, or else a
cycle, or else the first rule that is not parsed. -/
inductive HasDefect (t : Template) : Defect → Prop where
  | line {before after : List LineItem} {line : LineItem} {d : Defect}
    (split : t.items = before ++ line :: after) (sound : LineItem.Sound before)
    (flaw : line.Flaw (LineItem.codesOf before) d) : HasDefect t d
  | cycle (sound : LineItem.Sound t.items) (cyclic : ¬t.Acyclic) (path : List String) :
    HasDefect t (.cycle path)
  | rule (sound : LineItem.Sound t.items) (acyclic : t.Acyclic) {before after : List Rule}
    {rule : Rule} {fault : Formula.SyntaxError} (split : t.rules = before ++ rule :: after)
    (parsed : ∀ r ∈ before, ∃ e, Formula.parse r.formula = .ok e)
    (unparsed : Formula.parse rule.formula = .error fault) :
    HasDefect t (.badFormula rule.id rule.formula fault)

end Template

/-! ### The pass over the lines -/

/-- It matters which codes were seen, not in what order they came. -/
theorem LineItem.Flaw.congr {seen seen' : List String} {line : LineItem} {d : Defect}
    (h : line.Flaw seen d) (same : ∀ code, code ∈ seen ↔ code ∈ seen') : line.Flaw seen' d := by
  cases h with
  | emptyCode empty => exact .emptyCode empty
  | duplicateCode filled again => exact .duplicateCode filled ((same _).1 again)
  | badFormula filled fresh active unparsed =>
      exact .badFormula filled (fun again => fresh ((same _).2 again)) active unparsed

namespace Statement

/-- A formula is refused when it is not parsed, and for no other reason. -/
theorem readFormula_eq_error {code text : String} {d : Defect}
    (h : readFormula code text = .error d) :
    ∃ fault, Formula.parse text = .error fault ∧ d = .badFormula code text fault := by
  unfold readFormula at h
  cases parsed : Formula.parse text with
  | error fault =>
      rw [parsed] at h
      exact ⟨fault, rfl, (Except.error.inj h).symm⟩
  | ok e =>
      rw [parsed, Formula.referencesOf_of_parse parsed] at h
      cases h

/-- Where a line is not read it has the flaw that is reported. -/
theorem readItem_eq_error {seen : List String} {line : LineItem} {d : Defect}
    (h : readItem seen line = .error d) : line.Flaw seen d := by
  unfold readItem at h
  dsimp only at h
  split at h
  · next empty =>
    rw [← Except.error.inj h]
    exact .emptyCode empty
  · next filled =>
    split at h
    · next again =>
      rw [← Except.error.inj h]
      exact .duplicateCode filled again
    · next fresh =>
      split at h
      · cases h
      · next text active =>
        split at h
        · next fault refused =>
          obtain ⟨fault, unparsed, rfl⟩ := readFormula_eq_error refused
          rw [← Except.error.inj h]
          exact .badFormula filled fresh active unparsed
        · cases h

/-- Where the lines are refused, the first that has a flaw is. -/
theorem readItems_eq_error {seen : List String} {lines : List LineItem} {d : Defect}
    (h : readItems seen lines = .error d) :
    ∃ before line after items, lines = before ++ line :: after ∧
      readItems seen before = .ok items ∧ line.Flaw (LineItem.codesOf before ++ seen) d := by
  induction lines generalizing seen with
  | nil => cases h
  | cons first lines ih =>
      unfold readItems at h
      cases read : readItem seen first with
      | error fault =>
          rw [read] at h
          rw [← Except.error.inj h]
          exact ⟨[], first, lines, [], rfl, rfl, readItem_eq_error read⟩
      | ok item =>
          rw [read] at h
          dsimp only at h
          cases readRest : readItems (item.code :: seen) lines with
          | ok items =>
              rw [readRest] at h
              cases h
          | error fault =>
              rw [readRest] at h
              obtain rfl : fault = d := Except.error.inj h
              obtain ⟨before, line, after, items, split, readBefore, flaw⟩ := ih readRest
              refine ⟨first :: before, line, after, item :: items, ?_, ?_, flaw.congr ?_⟩
              · rw [split, List.cons_append]
              · unfold readItems
                rw [read]
                dsimp only
                rw [readBefore]
              -- The codes in front of the line are the same as in the rest, in another order.
              · intro code
                rw [(readItem_eq_ok read).1.code, LineItem.codesOf, LineItem.codesOf, List.map_cons,
                  List.cons_append, List.mem_append, List.mem_cons, List.mem_cons, List.mem_append]
                exact or_left_comm

/-- Lines that are read are sound. -/
theorem sound_of_readItems {lines : List LineItem} {items : List Item}
    (h : readItems [] lines = .ok items) : LineItem.Sound lines := by
  obtain ⟨allOf, nodup, apart⟩ := readItems_eq_ok h
  constructor
  case filled =>
    intro line hline
    obtain ⟨i, hi, isOf⟩ := exists_item_of_line allOf hline
    rw [← isOf.code]
    exact (apart i hi).1
  case distinct => rwa [LineItem.codesOf, ← map_code_of_isOf allOf]
  case parsed =>
    intro line hline text active
    obtain ⟨i, hi, isOf⟩ := exists_item_of_line allOf hline
    rw [← isOf.text] at active
    obtain ⟨f, hf, rfl⟩ := Option.map_eq_some_iff.1 active
    exact ⟨f.expr, (isOf.parsed f hf).1⟩

/-! ### The pass over the graph -/

/-- What an item reads is what its line reads. -/
theorem Item.IsOf.mem_readsOf_iff {line : LineItem} {i : Item} (h : i.IsOf line)
    {codes : List String} {code : String} :
    code ∈ readsOf codes i ↔ code ∈ codes ∧ line.Reads code := by
  rw [mem_readsOf, LineItem.Reads, h.code, ← h.text]
  refine and_congr_right fun _ => ?_
  constructor
  · rintro ⟨r, hr, bare, same, reads⟩
    cases hf : i.formula with
    | none => simp [references, hf] at hr
    | some f =>
        obtain ⟨parsed, listed⟩ := h.parsed f hf
        simp only [references, hf] at hr
        have inTree := (Formula.mem_referencesOf_iff parsed listed).1 hr
        exact ⟨f.text, f.expr, r, rfl, parsed, inTree, bare, same, reads⟩
  · rintro ⟨text, e, r, active, parsed, hr, bare, same, reads⟩
    obtain ⟨f, hf, rfl⟩ := Option.map_eq_some_iff.1 active
    obtain ⟨parsed', listed⟩ := h.parsed f hf
    obtain rfl : f.expr = e := Except.ok.inj (parsed'.symm.trans parsed)
    have listed := (Formula.mem_referencesOf_iff parsed' listed).2 hr
    refine ⟨r, ?_, bare, same, reads⟩
    rwa [references, hf]

/-- The edges of the graph are the dependencies of the template. -/
theorem depends_graphOf {t : Template} {items : List Item}
    (read : readItems [] t.items = .ok items) : (graphOf items).Depends = t.Depends := by
  obtain ⟨allOf, nodup, -⟩ := readItems_eq_ok read
  have codes : items.map Item.code = t.codes := map_code_of_isOf allOf
  funext a b
  refine propext ?_
  rw [Graph.Depends, nodes_graphOf nodup, hasEdge_graphOf, codes, Template.Depends]
  constructor
  · rintro ⟨-, hb, i, hi, rfl, reads⟩
    obtain ⟨line, hline, isOf⟩ := exists_line_of_mem allOf hi
    exact ⟨hb, line, hline, isOf.code.symm, (isOf.mem_readsOf_iff.1 reads).2⟩
  · rintro ⟨hb, line, hline, rfl, reads⟩
    obtain ⟨i, hi, isOf⟩ := exists_item_of_line allOf hline
    exact ⟨List.mem_map_of_mem hline, hb, i, hi, isOf.code, isOf.mem_readsOf_iff.2 ⟨hb, reads⟩⟩

/-- The graph of the items has an order when nothing in the template depends on itself. -/
theorem exists_order_graphOf_iff {t : Template} {items : List Item}
    (read : readItems [] t.items = .ok items) :
    (∃ codes, (graphOf items).order = .ok codes) ↔ t.Acyclic := by
  rw [Graph.exists_order_iff, Graph.Acyclic, depends_graphOf read]
  rfl

/-! ### The pass over the rules -/

/-- A rule that is read has a formula that is parsed. -/
theorem readRule_eq_ok {rule : Rule} {k : Check} (h : readRule rule = .ok k) :
    k.rule = rule ∧ Formula.parse rule.formula = .ok k.expr := by
  unfold readRule Check.ofRule at h
  cases parsed : Formula.parse rule.formula with
  | error fault =>
      rw [parsed] at h
      cases h
  | ok e =>
      rw [parsed] at h
      rw [← Except.ok.inj h]
      exact ⟨rfl, rfl⟩

/-- One that is not read is reported with its formula and what is wrong with it. -/
theorem readRule_eq_error {rule : Rule} {d : Defect} (h : readRule rule = .error d) :
    ∃ fault, Formula.parse rule.formula = .error fault ∧
      d = .badFormula rule.id rule.formula fault := by
  unfold readRule Check.ofRule at h
  cases parsed : Formula.parse rule.formula with
  | error fault =>
      rw [parsed] at h
      exact ⟨fault, rfl, (Except.error.inj h).symm⟩
  | ok e =>
      rw [parsed] at h
      cases h

/-- Rules are read together or not at all. -/
theorem readRules_eq_ok {rules : List Rule} {checks : List Check}
    (h : rules.mapM readRule = .ok checks) :
    ∀ rule ∈ rules, ∃ e, Formula.parse rule.formula = .ok e := by
  induction rules generalizing checks with
  | nil => exact fun rule hrule => absurd hrule List.not_mem_nil
  | cons rule rules ih =>
      rw [List.mapM_cons] at h
      cases read : readRule rule with
      | error d =>
          rw [read] at h
          cases h
      | ok k =>
          rw [read] at h
          cases readRest : rules.mapM readRule with
          | error d =>
              rw [readRest] at h
              cases h
          | ok ks =>
              exact List.forall_mem_cons.2 ⟨⟨k.expr, (readRule_eq_ok read).2⟩, ih readRest⟩

/-- Where the rules are refused, the first that is not parsed is. -/
theorem readRules_eq_error {rules : List Rule} {d : Defect}
    (h : rules.mapM readRule = .error d) :
    ∃ before rule after fault, rules = before ++ rule :: after ∧
      (∀ r ∈ before, ∃ e, Formula.parse r.formula = .ok e) ∧
      Formula.parse rule.formula = .error fault ∧ d = .badFormula rule.id rule.formula fault := by
  induction rules with
  | nil => cases h
  | cons first rules ih =>
      rw [List.mapM_cons] at h
      cases read : readRule first with
      | error d' =>
          rw [read] at h
          obtain rfl : d' = d := Except.error.inj h
          obtain ⟨fault, unparsed, rfl⟩ := readRule_eq_error read
          exact ⟨[], first, rules, fault, rfl, by simp, unparsed, rfl⟩
      | ok k =>
          rw [read] at h
          cases readRest : rules.mapM readRule with
          | ok ks =>
              rw [readRest] at h
              cases h
          | error d' =>
              rw [readRest] at h
              obtain rfl : d' = d := Except.error.inj h
              obtain ⟨before, rule, after, fault, rfl, parsed, unparsed, rfl⟩ := ih readRest
              refine ⟨first :: before, rule, after, fault, rfl, ?_, unparsed, rfl⟩
              exact List.forall_mem_cons.2 ⟨⟨k.expr, (readRule_eq_ok read).2⟩, parsed⟩

/-! ### All passes -/

variable {t : Template}

/-- What `compile` reports is what the template has. -/
theorem hasDefect_of_compile {d : Defect} (h : compile t = .error d) : t.HasDefect d := by
  unfold compile at h
  split at h
  · next fault refused =>
    obtain rfl : fault = d := Except.error.inj h
    obtain ⟨before, line, after, items, split, read, flaw⟩ := readItems_eq_error refused
    rw [List.append_nil] at flaw
    exact .line split (sound_of_readItems read) flaw
  · next items read =>
    have sound := sound_of_readItems read
    dsimp only at h
    split at h
    · next path stuck =>
      rw [← Except.error.inj h]
      refine .cycle sound (fun acyclic => ?_) path
      obtain ⟨codes, ordered⟩ := (exists_order_graphOf_iff read).2 acyclic
      cases stuck.symm.trans ordered
    · next codes ordered =>
      have acyclic := (exists_order_graphOf_iff read).1 ⟨codes, ordered⟩
      split at h
      · next fault refused =>
        obtain rfl : fault = d := Except.error.inj h
        obtain ⟨before, rule, after, fault, split, parsed, unparsed, rfl⟩ :=
          readRules_eq_error refused
        exact .rule sound acyclic split parsed unparsed
      · cases h

/-- A template that compiles has none of the defects. -/
theorem wellFormed_of_compile {s : Statement} (h : compile t = .ok s) : t.WellFormed := by
  obtain ⟨read, -, codes, ordered, -⟩ := compile_eq_ok h
  constructor
  case lines => exact sound_of_readItems read
  case acyclic => exact (exists_order_graphOf_iff read).1 ⟨codes, ordered⟩
  case rules => exact readRules_eq_ok (checks_of_compile h)

end Statement

/-- A line with a flaw is not sound behind the lines before it. -/
theorem LineItem.Flaw.not_sound {before after : List LineItem} {line : LineItem} {d : Defect}
    (flaw : line.Flaw (LineItem.codesOf before) d) : ¬Sound (before ++ line :: after) := by
  intro sound
  have here : line ∈ before ++ line :: after :=
    List.mem_append_right _ List.mem_cons_self
  cases flaw with
  | emptyCode empty => exact sound.filled line here empty
  | duplicateCode filled again =>
      have distinct := sound.distinct
      rw [codesOf, List.map_append, List.map_cons, List.nodup_append] at distinct
      exact distinct.2.2 _ again _ List.mem_cons_self rfl
  | badFormula filled fresh active unparsed =>
      obtain ⟨e, parsed⟩ := sound.parsed line here _ active
      cases unparsed.symm.trans parsed

/-- What is well-formed has no defect. -/
theorem Template.HasDefect.not_wellFormed {t : Template} {d : Defect} (h : t.HasDefect d) :
    ¬t.WellFormed := by
  intro wellFormed
  cases h with
  | line split sound flaw =>
      have lines := wellFormed.lines
      rw [split] at lines
      exact flaw.not_sound lines
  | cycle sound cyclic path => exact cyclic wellFormed.acyclic
  | rule sound acyclic split parsed unparsed =>
      have rules := wellFormed.rules
      rw [split] at rules
      obtain ⟨e, parsed⟩ := rules _ (List.mem_append_right _ List.mem_cons_self)
      cases unparsed.symm.trans parsed

namespace Statement

variable {t : Template}

/-- Well-formed templates compile, and no others. -/
theorem exists_compile_iff : (∃ s, compile t = .ok s) ↔ t.WellFormed := by
  constructor
  · rintro ⟨s, compiled⟩
    exact wellFormed_of_compile compiled
  · intro wellFormed
    cases compiled : compile t with
    | ok s => exact ⟨s, rfl⟩
    | error d => exact absurd wellFormed (hasDefect_of_compile compiled).not_wellFormed

/-- The claims hold the codes of the lines without formula. -/
theorem contains_claims_iff {s : Statement} (h : compile t = .ok s) {code : String} :
    s.claims.contains code = true ↔
      ∃ line ∈ t.items, line.activeFormula? = none ∧ Text.trim line.code = code := by
  have nodup := (isCompiled_of_compile h).codes_nodup
  rw [Collection.OrderedMap.contains_eq_true_iff]
  simp only [get?_claims_eq_some_iff nodup, Item.isComputed, Option.isSome_eq_false_iff,
    Option.isNone_iff_eq_none, mem_items_of_compile h]
  constructor
  · rintro ⟨key, i, ⟨line, hline, isOf⟩, raw, rfl, -⟩
    exact ⟨line, hline, isOf.formula_eq_none_iff.1 raw, isOf.code.symm⟩
  · rintro ⟨line, hline, raw, rfl⟩
    obtain ⟨i, -, isOf⟩ := exists_item_of_line (readItems_eq_ok (compile_eq_ok h).1).1 hline
    exact ⟨_, i, ⟨line, hline, isOf⟩, isOf.formula_eq_none_iff.2 raw, isOf.code, rfl⟩

/-- A template compiles exactly when it is well-formed. Of any other template the defect is reported
that comes first: that of a line, then a cycle, then that of a rule. In the statement every line has
its item, the claims hold the codes of the lines without formula, and a code is found at the
position and as the item that have it. -/
theorem compile_accepts_wellFormed (t : Template) :
    ((∃ s, compile t = .ok s) ↔ t.WellFormed) ∧
      (∀ d, compile t = .error d → t.HasDefect d) ∧
      ∀ s, compile t = .ok s →
        s.codes = t.codes ∧
        (∀ code, s.claims.contains code = true ↔
          ∃ line ∈ t.items, line.activeFormula? = none ∧ Text.trim line.code = code) ∧
        (∀ code p, s.position? code = some p ↔ ∃ i, s.items[p]? = some i ∧ i.code = code) ∧
        ∀ code i, s.item? code = some i ↔ i ∈ s.items ∧ i.code = code := by
  refine ⟨exists_compile_iff, fun d => hasDefect_of_compile, fun s compiled => ?_⟩
  have nodup := (isCompiled_of_compile compiled).codes_nodup
  refine ⟨codes_of_compile compiled, fun code => contains_claims_iff compiled, ?_, ?_⟩
  · exact fun code p => position?_eq_some_iff nodup
  · exact fun code i => item?_eq_some_iff nodup

set_option maxRecDepth 20000 in
/-- `A` reads another time of itself, which is no cycle. When `B` reads another time of `A`, it is
one, and it is reported in front of the rule that is not parsed. -/
theorem compile_accepts_wellFormed_other_times :
    let lagged : Template :=
      { items := [{ code := " A ", formula := some "A[t-1]+B" }, { code := "B" }] }
    let cyclic : Template :=
      { items := [{ code := "A", formula := some "A[t-1]+B" },
          { code := "B", formula := some "A[t-1]" }]
        rules := [{ id := "R", formula := "A >" }] }
    lagged.WellFormed ∧ cyclic.HasDefect (.cycle ["A", "B", "A"]) ∧
      ∃ s, compile lagged = .ok s ∧ s.codes = ["A", "B"] ∧ s.claims.contains "B" = true ∧
        s.position? "A" = some 0 := by
  intro lagged cyclic
  let now : Formula.Reference := .bare "B"
  let before : Formula.Reference := ⟨none, "A", -1⟩
  let s : Statement :=
    { code := ""
      items := [
        { code := "A"
          formula := some ⟨"A[t-1]+B", .binary .add (.reference before) (.reference now),
            [before, now]⟩
          declared := { code := " A ", formula := some "A[t-1]+B" } },
        { code := "B", formula := none, declared := { code := "B" } }]
      order := [1, 0]
      graph := ⟨["A", "B"], [("A", "B")]⟩
      checks := [] }
  have compiled : compile lagged = .ok s := by
    unfold lagged s now before
    cbv
  have refused : compile cyclic = .error (.cycle ["A", "B", "A"]) := by
    unfold cyclic
    cbv
  obtain ⟨accepted, -, found⟩ := compile_accepts_wellFormed lagged
  obtain ⟨codes, claims, position, -⟩ := found s compiled
  refine ⟨accepted.1 ⟨s, compiled⟩, (compile_accepts_wellFormed cyclic).2.1 _ refused, s, compiled,
    codes, ?_, ?_⟩
  · exact (claims "B").2 ⟨_, List.mem_cons_of_mem _ List.mem_cons_self, rfl, by cbv⟩
  · exact (position "A" 0).2 ⟨_, rfl, rfl⟩

end Statement

end Rollforward
