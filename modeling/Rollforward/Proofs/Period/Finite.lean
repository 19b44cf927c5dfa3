import Rollforward.Proofs.Evaluation.Finite
import Rollforward.Proofs.Period.Solution

/-!
# `Rollforward.Proofs.Period.Finite`: which periods close with values that are not finite

The items of a period are evaluated one after the other, and each of them is asked for by those
behind it. As long as the values so far are finite, the chain of the next item has finite answers
(`answersFinite_itemEnvironment`), and so the next value is finite too unless its formula overflows
(`Formula.Overflows`). Conversely the value of such a formula is infinite and stands in the closed
period.
-/

set_option autoImplicit false

namespace Rollforward

open Formula (Reference)

/-- No value at any time is infinite, and none is not a number. -/
def Series.AllFinite (s : Series) : Prop :=
  ∀ t code v, s.value? t code = some v → v.isFinite = true

/-- No value written so far is infinite, and none is not a number. -/
def Ledger.AllFinite (l : Ledger) : Prop :=
  ∀ p v, l.get? p = some v → v.isFinite = true

/-- No value is infinite, and none is not a number. -/
def Snapshot.AllFinite (s : Snapshot) : Prop :=
  ∀ code v, s.get? code = some v → v.isFinite = true

/-- A snapshot made of finite values has no others. -/
theorem Snapshot.allFinite_ofList {es : List (String × Float)}
    (h : ∀ e ∈ es, e.2.isFinite = true) : Snapshot.AllFinite (.ofList es) := by
  intro code v held
  exact h (code, v) (Collection.OrderedMap.mem_of_get?_ofList held)

/-- A series made of such snapshots has no others. -/
theorem Series.allFinite_ofList {es : List (Int × Snapshot)} (h : ∀ e ∈ es, e.2.AllFinite) :
    Series.AllFinite (.ofList es) := by
  intro t code v value
  unfold Series.value? at value
  split at value
  · cases value
  · next snapshot known =>
    exact h (t, snapshot) (Collection.OrderedMap.mem_of_get?_ofList known) code v value

/-- Finite values given from outside are finite answers. -/
theorem Chain.answersFinite_fixed {values : Snapshot} (h : values.AllFinite) (context : Context) :
    Chain.AnswersFinite [.fixed values] context := by
  intro r v resolved
  obtain ⟨p, claimed, value⟩ := Calculator.resolve_eq_ok_iff.1 resolved
  obtain rfl := List.mem_singleton.1 (List.mem_of_find?_eq_some claimed)
  simp only [Provider.fixed] at value
  split at value
  · next held =>
    cases value
    exact h r.code v held
  · cases value

/-- A ledger stays finite with one more finite value. -/
theorem Ledger.allFinite_of_insert? {l next : Ledger} {p : Nat} {v : Float} (h : l.AllFinite)
    (written : l.insert? p v = some next) (finite : v.isFinite = true) : next.AllFinite := by
  intro q w hw
  rw [(get?_of_insert? written).2 q] at hw
  split at hw
  · exact Option.some.inj hw ▸ finite
  · exact h q w hw

/-- What is read from a series is a value of one of its snapshots. -/
theorem Series.isFinite_of_resolve {s : Series} (h : s.AllFinite) {r : Reference}
    {context : Context} {v : Float} (resolved : s.resolve r context = .ok v) :
    v.isFinite = true := by
  unfold Series.resolve at resolved
  split at resolved
  · cases resolved
  · next t _ =>
    split at resolved
    · next value => exact h t r.code v (Except.ok.inj resolved ▸ value)
    · cases resolved

namespace Calculator

variable {c : Calculator} {history : Series} {context : Context} {l : Ledger}

/-- With finite values so far an item has finite answers. -/
theorem answersFinite_itemEnvironment (providers : Chain.AnswersFinite c.providers context)
    (past : history.AllFinite) (current : l.AllFinite) :
    Chain.AnswersFinite (c.itemEnvironment history context l).chain context := by
  intro r v resolved
  by_cases claims : (Provider.statement c.statement l history).claims r = true
  · rw [itemEnvironment, Chain.resolve_cons_of_claims claims] at resolved
    simp only [Provider.statement] at resolved
    split at resolved
    · split at resolved
      · next value =>
        obtain ⟨p, -, value⟩ := Option.bind_eq_some_iff.1 value
        exact current p v (Except.ok.inj resolved ▸ value)
      · cases resolved
    · exact Series.isFinite_of_resolve past resolved
  · rw [itemEnvironment, Chain.resolve_cons_of_not_claims claims] at resolved
    exact providers r v resolved

/-- With finite answers an item whose formula does not overflow has a finite value. -/
theorem isFinite_of_evalItem {env : Environment} {i : Statement.Item} {v : Float}
    (answers : env.chain.AnswersFinite env.context)
    (parsed : ∀ f, i.formula = some f →
      Formula.parse f.text = .ok f.expr ∧ ¬Formula.Overflows f.text)
    (value : evalItem env i = .ok v) : v.isFinite = true := by
  unfold evalItem at value
  split at value
  · next f formula =>
    obtain ⟨parsed, bounded⟩ := parsed f formula
    exact (Evaluation.isFinite_eval_iff answers parsed value).2 bounded
  · exact answers _ v value

/-- The invariant of the fill: as long as the values so far are finite, the next item is evaluated
in front of a chain with finite answers. -/
theorem allFinite_ledger (providers : Chain.AnswersFinite c.providers context)
    (past : history.AllFinite)
    (parsed : ∀ i ∈ c.statement.items, ∀ f, i.formula = some f →
      Formula.parse f.text = .ok f.expr ∧ ¬Formula.Overflows f.text)
    (h : c.ledger history context = .ok l) : l.AllFinite := by
  refine fill_invariant h ?_ ?_
  · intro p v value
    rw [Ledger.get?_ofSize] at value
    cases value
  · intro l p i v next _ hi value written current
    have answers := answersFinite_itemEnvironment providers past current
    have finite := isFinite_of_evalItem answers (parsed i (List.mem_of_getElem? hi)) value
    exact Ledger.allFinite_of_insert? current written finite

/-- A calculated period has finite values unless the formula of one of its items overflows. -/
theorem allFinite_values_iff {t : Template} (compiled : Statement.compile t = .ok c.statement)
    (providers : Chain.AnswersFinite c.providers context) (past : history.AllFinite)
    {closing : Closing} (calculated : c.calculateIn history context = .ok closing) :
    closing.values.AllFinite ↔
      ∀ line ∈ t.items, ∀ text, line.activeFormula? = some text → ¬Formula.Overflows text := by
  obtain ⟨allOf, -, -⟩ := Statement.readItems_eq_ok (Statement.compile_eq_ok compiled).1
  have isCompiled := Statement.isCompiled_of_compile compiled
  constructor
  · intro finite line hline text active overflows
    obtain ⟨i, hi, isOf⟩ := Statement.exists_item_of_line allOf hline
    obtain ⟨f, hf, rfl⟩ := Option.map_eq_some_iff.1 (isOf.text.trans active)
    obtain ⟨x, number, infinite⟩ := (Evaluation.overflows_iff (isOf.parsed f hf).1).1 overflows
    obtain ⟨v, held, value⟩ :=
      exists_eval_of_computed (solves_of_calculateIn isCompiled calculated) hi hf
    -- A formula that overflows is a number, whose value does not depend on what is read.
    obtain ⟨v', value', same⟩ := Evaluation.exists_eval_of_number? _ number
    obtain rfl : v = v' := Except.ok.inj (value.symm.trans value')
    rw [finite i.code v held, infinite] at same
    cases same
  · intro bounded code v held
    obtain ⟨l, ledger, values⟩ := exists_ledger_of_calculateIn calculated
    rw [values] at held
    obtain ⟨p, i, -, -, value⟩ :=
      mem_close_entries.1 (Collection.OrderedMap.mem_of_get?_ofList held)
    -- The ledger starts empty and is filled with values of formulas that do not overflow.
    refine allFinite_ledger providers past ?_ ledger p v value
    intro i hi f hf
    obtain ⟨line, hline, isOf⟩ := Statement.exists_line_of_mem allOf hi
    have active : line.activeFormula? = some f.text := by
      rw [← isOf.text, hf]
      rfl
    exact ⟨(isOf.parsed f hf).1, bounded line hline f.text active⟩

/-- Where all that is read is finite, numbers that are not finite come from one source only, a
numeral too large for a double that makes up a formula: of a formula by itself, and of a whole
period. -/
theorem finite_unless_overflows (chain : Chain) (context : Context)
    (answers : Chain.AnswersFinite chain context) :
    (∀ (functions : Registry) (formula : String),
      (∃ v, Evaluation.evalFormula ⟨chain, functions, context⟩ formula = .ok v ∧
        v.isFinite = false) ↔ Formula.Overflows formula) ∧
    ∀ (t : Template) (s : Statement) (functions : Registry) (options : Options) (history : Series)
      (closing : Closing), Statement.compile t = .ok s → history.AllFinite →
        calculateIn ⟨s, functions, options, chain⟩ history context = .ok closing →
          (closing.values.AllFinite ↔ ∀ line ∈ t.items, ∀ text,
            line.activeFormula? = some text → ¬Formula.Overflows text) := by
  constructor
  · intro functions formula
    exact Evaluation.not_isFinite_evalFormula_iff answers formula
  · intro t s functions options history closing compiled past calculated
    exact allFinite_values_iff compiled answers past calculated

set_option maxRecDepth 20000 in
/-- The largest natural number that is not rounded to infinity is a formula with a finite value, and
a period without numerals is closed with finite values. -/
theorem finite_unless_overflows_below :
    let context : Context := ⟨"E1", 1, 1, 1⟩
    let chain : Chain := [.fixed (.ofList [("A", 2.0)])]
    let template : Template :=
      { items := [{ code := "B", formula := some "-A*A+B[t-1]" }, { code := "A" }] }
    let history : Series := .ofList [(0, .ofList [("B", 1.0e20)])]
    Chain.AnswersFinite chain context ∧ history.AllFinite ∧
      (¬∃ v, Evaluation.evalFormula ⟨chain, .standard, context⟩
        (String.ofList (Nat.toDigits 10 (Decimal.overflow - 1))) = .ok v ∧ v.isFinite = false) ∧
      ∃ s closing, Statement.compile template = .ok s ∧
        calculateIn ⟨s, .standard, {}, chain⟩ history context = .ok closing ∧
          closing.values.AllFinite := by
  intro context chain template history
  have two : (2.0 : Float).isFinite = true := by with_unfolding_all rfl
  have large : (1.0e20 : Float).isFinite = true := by with_unfolding_all rfl
  have answers : Chain.AnswersFinite chain context :=
    Chain.answersFinite_fixed (Snapshot.allFinite_ofList (by simpa using two)) context
  have past : history.AllFinite :=
    Series.allFinite_ofList (by simpa using Snapshot.allFinite_ofList (by simpa using large))
  let a : Formula.Expr := .reference (.bare "A")
  let statement : Statement :=
    { code := ""
      items := [
        { code := "B"
          formula := some ⟨"-A*A+B[t-1]",
            .binary .add (.binary .mul (.unary .negate a) a) (.reference ⟨none, "B", -1⟩),
              [⟨none, "A", 0⟩, ⟨none, "B", -1⟩]⟩
          declared := { code := "B", formula := some "-A*A+B[t-1]" } },
        { code := "A", formula := none, declared := { code := "A" } }]
      order := [1, 0]
      graph := ⟨["B", "A"], [("B", "A")]⟩
      checks := [] }
  have compiled : Statement.compile template = .ok statement := by
    unfold template statement a
    cbv
  have parsed : Formula.parse "-A*A+B[t-1]" = .ok
      (.binary .add (.binary .mul (.unary .negate a) a) (.reference ⟨none, "B", -1⟩)) := by
    cbv
  have bounded : ¬Formula.Overflows "-A*A+B[t-1]" := by
    rw [Evaluation.overflows_iff parsed]
    simp [Formula.Expr.number?]
  let closing : Closing :=
    ⟨context, .ofList [("A", 2.0), ("B", -4.0 + 1.0e20)], some (.ofList [("B", 1.0e20)]), []⟩
  have calculated :
      calculateIn ⟨statement, .standard, {}, chain⟩ history context = .ok closing := by
    unfold context chain history statement closing a
    with_unfolding_all rfl
  obtain ⟨evaluated, closed⟩ := finite_unless_overflows chain context answers
  refine ⟨answers, past, ?_, statement, closing, compiled, calculated, ?_⟩
  · rw [evaluated, Formula.overflows_toDigits_iff]
    have positive : 0 < Decimal.overflow := by decide +kernel
    omega
  · refine (closed template _ _ _ history closing compiled past calculated).2 ?_
    intro line hline text active
    have texts : template.items.map LineItem.activeFormula? = [some "-A*A+B[t-1]", none] := by
      unfold template
      cbv
    have known := List.mem_map_of_mem (f := LineItem.activeFormula?) hline
    rw [texts, active] at known
    obtain rfl : text = "-A*A+B[t-1]" := by simpa using known
    exact bounded

/-- A period whose one item is a number is closed with that number. -/
theorem exists_calculateIn_number {f : String} {x : Float} (trimmed : Text.trim f = f)
    (filled : f ≠ "") (parsed : Formula.parse f = .ok (.number x)) (context : Context) :
    ∃ s closing, Statement.compile { items := [{ code := "M", formula := some f }] } = .ok s ∧
      calculateIn ⟨s, .standard, {}, []⟩ .empty context = .ok closing ∧
        closing.values.get? "M" = some x := by
  let i : Statement.Item := ⟨"M", some ⟨f, .number x, []⟩, { code := "M", formula := some f }⟩
  have listed : Formula.referencesOf f = .ok [] := Formula.referencesOf_of_parse parsed
  have read : Statement.readItems [] [{ code := "M", formula := some f }] = .ok [i] := by
    have code : Text.trim "M" = "M" := by cbv
    simp [Statement.readItems, Statement.readItem, LineItem.activeFormula?, trimmed, filled, code,
      Statement.readFormula, parsed, listed, i]
  have compiled : Statement.compile { items := [{ code := "M", formula := some f }] } =
      .ok ⟨"", [i], [0], ⟨["M"], []⟩, []⟩ := by
    simp only [Statement.compile, read]
    unfold i
    cbv
  let opening := (context.shift? (-1)).bind (Collection.OrderedMap.get? (.empty : Series))
  refine ⟨_, ⟨context, .ofList [("M", x)], opening, []⟩, compiled, ?_,
    Collection.OrderedMap.get?_insert_self _ _ _⟩
  unfold i
  with_unfolding_all rfl

/-- Half-way between the largest double and the power of two behind it, a formula of nothing but
digits has an infinite value, and so has the item that it is the formula of. -/
theorem finite_unless_overflows_halfway :
    let literal := String.ofList (Nat.toDigits 10 Decimal.overflow)
    let context : Context := ⟨"E1", 1, 1, 0⟩
    let template : Template := { items := [{ code := "M", formula := some literal }] }
    Chain.AnswersFinite [] context ∧
      (∃ v, Evaluation.evalFormula ⟨[], .standard, context⟩ literal = .ok v ∧
        v.isFinite = false) ∧
      ∃ s closing v, Statement.compile template = .ok s ∧
        calculateIn ⟨s, .standard, {}, []⟩ .empty context = .ok closing ∧
          closing.values.get? "M" = some v ∧ v.isFinite = false := by
  intro literal context template
  have parsed := Formula.parse_toDigits Decimal.overflow
  have infinite : (Decimal.Numeral.toFloat ⟨Decimal.overflow, 0⟩).isFinite = false := by
    rw [← Bool.not_eq_true, Decimal.Numeral.isFinite_toFloat_iff]
    simp
  have trimmed : Text.trim literal = literal :=
    Decimal.trim_digits Decimal.isDigit_of_mem_toDigits
  have filled : literal ≠ "" := fun empty =>
    Nat.toDigits_ne_nil (String.ofList_eq_empty_iff.1 empty)
  obtain ⟨s, closing, compiled, calculated, value⟩ :=
    exists_calculateIn_number trimmed filled parsed context
  refine ⟨fun r v resolved => (by cases resolved), ⟨_, ?_, infinite⟩, s, closing, _, compiled,
    calculated, value, infinite⟩
  rw [Evaluation.evalFormula_of_parse parsed, Evaluation.eval]

end Calculator

end Rollforward
