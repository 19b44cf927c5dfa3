import Rollforward.Proofs.Period.Solution
import Rollforward.Proofs.Statement.Impact
import Rollforward.Registry.Standard

/-!
# `Rollforward.Proofs.Period.Impact`: a change of an item reaches its impact only

Two calculators that differ in what one item is are compared on one period. Whatever makes its way
from the item to a value goes along the edges of the graph: a formula reads the item itself, or
another that has been reached before it. So an item outside the impact reads nothing that the change
has reached (`DifferOnlyAt.resolve_eq`), and `item_induction` carries this along the order to
the values (`DifferOnlyAt.get?_eq`).
-/

set_option autoImplicit false

namespace Rollforward.Calculator

open Formula (Reference)

/-- The calculators differ at most in what the item `code` is and in what the caller's providers
answer for it. -/
structure DifferOnlyAt (code : String) (context : Context) (c c' : Calculator) : Prop where
  statements : Statement.DifferOnlyAt code c.statement c'.statement
  functions : c.functions = c'.functions
  answers : ∀ r, r ≠ .bare code →
    Chain.resolve c.providers r context = Chain.resolve c'.providers r context

variable {code : String} {c c' : Calculator} {history : Series} {context : Context}
  {values values' : Snapshot}

namespace DifferOnlyAt

/-- An item of the one statement has its counterpart in the other. -/
theorem item?_eq_some (h : DifferOnlyAt code context c c') (compiled : c.statement.IsCompiled)
    (compiled' : c'.statement.IsCompiled) {name : String} {i : Statement.Item}
    (item : c.statement.item? name = some i) :
    ∃ j, c'.statement.item? name = some j ∧ (name ≠ code → j.formula = i.formula) := by
  obtain ⟨hi, rfl⟩ := (Statement.item?_eq_some_iff compiled.codes_nodup).1 item
  obtain ⟨j, hj, same, formula⟩ := h.statements.exists_item hi
  exact ⟨j, (Statement.item?_eq_some_iff compiled'.codes_nodup).2 ⟨hj, same⟩, formula⟩

/-- What is no item of the one statement is none of the other. -/
theorem item?_eq_none (h : DifferOnlyAt code context c c') {name : String}
    (unknown : c.statement.item? name = none) : c'.statement.item? name = none := by
  refine List.find?_eq_none.2 ?_
  intro j hj same
  obtain ⟨i, hi, counterpart, -⟩ := h.statements.symm.exists_item hj
  have found : i.code = name := counterpart.trans (beq_iff_eq.1 same)
  exact List.find?_eq_none.1 unknown i hi (beq_iff_eq.2 found)

/-- In front of the items of a period a reference has the same value for both calculators, unless it
reads the item that differs or one that has another value. -/
theorem resolve_eq (h : DifferOnlyAt code context c c') (compiled : c.statement.IsCompiled)
    (compiled' : c'.statement.IsCompiled) (known : code ∈ c.statement.codes) {r : Reference}
    (unreached : r.source = none → r.offset = 0 → r.code ∈ c.statement.codes →
      r.code ≠ code ∧ values.get? r.code = values'.get? r.code) :
    (c.itemEnvironment history context (.ofValues c.statement.items values)).chain.resolve r
        context =
      (c'.itemEnvironment history context (.ofValues c'.statement.items values')).chain.resolve r
        context := by
  have answer : Chain.resolve c.providers r context = Chain.resolve c'.providers r context := by
    refine h.answers r ?_
    rintro rfl
    exact (unreached rfl rfl known).1 rfl
  refine resolve_item_of_values_congr compiled compiled' ?_ ?_ (fun _ _ => rfl) answer
  · intro _
    rw [Statement.contains_eq_isSome_item?, Statement.contains_eq_isSome_item?]
    cases item : c.statement.item? r.code with
    | none => rw [h.item?_eq_none item]
    | some i =>
        obtain ⟨j, item', -⟩ := h.item?_eq_some compiled compiled' item
        rw [item', Option.isSome_some, Option.isSome_some]
  · intro bare now i item
    obtain ⟨j, item', formula⟩ := h.item?_eq_some compiled compiled' item
    have listed := Statement.contains_iff_mem_codes.1 (Statement.contains_of_item? item)
    obtain ⟨other, same⟩ := unreached bare now listed
    exact ⟨j, item', congrArg Option.isSome (formula other), same⟩

/-- A formula without such a reference has the same value for both calculators, or the same error.
-/
theorem eval_eq (h : DifferOnlyAt code context c c') (compiled : c.statement.IsCompiled)
    (compiled' : c'.statement.IsCompiled) (known : code ∈ c.statement.codes) {e : Formula.Expr}
    (unreached : ∀ r ∈ e.references, r.source = none → r.offset = 0 →
      r.code ∈ c.statement.codes → r.code ≠ code ∧ values.get? r.code = values'.get? r.code) :
    Evaluation.eval (c.itemEnvironment history context (.ofValues c.statement.items values)) e =
      Evaluation.eval (c'.itemEnvironment history context (.ofValues c'.statement.items values'))
        e := by
  show Evaluation.eval ⟨_, c.functions, _⟩ e = Evaluation.eval ⟨_, c'.functions, _⟩ e
  rw [← h.functions]
  refine Evaluation.eval_congr ?_
  intro r hr
  exact h.resolve_eq compiled compiled' known (unreached r hr)

/-- Solutions of both systems of equations agree outside the impact of the item. -/
theorem get?_eq (h : DifferOnlyAt code context c c') (compiled : c.statement.IsCompiled)
    (compiled' : c'.statement.IsCompiled) (known : code ∈ c.statement.codes)
    (solves : c.Solves history context values) (solves' : c'.Solves history context values') :
    ∀ i ∈ c.statement.items, i.code ≠ code → i.code ∉ c.statement.impactOf code →
      values.get? i.code = values'.get? i.code := by
  refine compiled.item_induction ?_
  -- `ih` says that the solutions agree on what `i` reads, as far as it is outside the impact too.
  intro i hi ih other outside
  obtain ⟨j, hj, same, formula⟩ := h.statements.exists_item hi
  have formula : j.formula = i.formula := formula other
  cases hf : i.formula with
  | none =>
      obtain ⟨v, held, answer⟩ := exists_resolve_of_raw solves hi hf
      obtain ⟨v', held', answer'⟩ := exists_resolve_of_raw solves' hj (formula.trans hf)
      rw [same] at held' answer'
      have otherBare : Reference.bare i.code ≠ .bare code := by
        intro eq
        exact other (congrArg Reference.code eq)
      rw [h.answers _ otherBare, answer'] at answer
      rw [held, held', Except.ok.inj answer]
  | some f =>
      obtain ⟨v, held, value⟩ := exists_eval_of_computed solves hi hf
      obtain ⟨v', held', value'⟩ := exists_eval_of_computed solves' hj (formula.trans hf)
      rw [same] at held'
      have unreached : ∀ r ∈ f.expr.references, r.source = none → r.offset = 0 →
          r.code ∈ c.statement.codes →
          r.code ≠ code ∧ values.get? r.code = values'.get? r.code := by
        intro r hr bare now item
        have reads := compiled.mem_readsOf_of_reference hi hf hr bare now item
        obtain ⟨otherRead, outsideRead⟩ :=
          compiled.not_mem_impactOf_of_reads hi other outside reads
        obtain ⟨k, hk, hcode⟩ := List.mem_map.1 item
        rw [← hcode] at reads otherRead outsideRead ⊢
        exact ⟨otherRead, ih k hk reads otherRead outsideRead⟩
      rw [h.eval_eq compiled compiled' known unreached, value'] at value
      rw [held, held', Except.ok.inj value]

end DifferOnlyAt

/-! ### Calculated periods -/

/-- When an item is changed and the period is calculated again, the items outside the impact keep
their values. The impact is the same before and after the change. -/
theorem calculateIn_keeps_outside_impact {t t' : Template} {closing closing' : Closing}
    (compiled : Statement.compile t = .ok c.statement)
    (compiled' : Statement.compile t' = .ok c'.statement)
    (known : c.statement.contains code = true) (differ : DifferOnlyAt code context c c')
    (calculated : c.calculateIn history context = .ok closing)
    (calculated' : c'.calculateIn history context = .ok closing') :
    (∀ other, other ∈ c.statement.impactOf code ↔ other ∈ c'.statement.impactOf code) ∧
      ∀ i ∈ c.statement.items, i.code ≠ code → i.code ∉ c.statement.impactOf code →
        ∃ v, closing.values.get? i.code = some v ∧ closing'.values.get? i.code = some v := by
  have compiled := Statement.isCompiled_of_compile compiled
  have compiled' := Statement.isCompiled_of_compile compiled'
  have known := Statement.contains_iff_mem_codes.1 known
  have solves := solves_of_calculateIn compiled calculated
  have solves' := solves_of_calculateIn compiled' calculated'
  refine ⟨differ.statements.mem_impactOf_iff compiled compiled', ?_⟩
  intro i hi other outside
  obtain ⟨v, held, -⟩ := solves.equations i hi
  refine ⟨v, held, ?_⟩
  rw [← differ.get?_eq compiled compiled' known solves solves' i hi other outside]
  exact held

set_option maxRecDepth 20000 in
/-- `A` gets a formula. The values of `A` and `B` change, that of `E` does not. -/
theorem calculateIn_keeps_outside_impact_formula_added :
    let template : Template :=
      { items := [{ code := "A" }, { code := "B", formula := some "A" },
          { code := "E", formula := some "D" }] }
    let template' : Template :=
      { items := [{ code := "A", formula := some "D" }, { code := "B", formula := some "A" },
          { code := "E", formula := some "D" }] }
    let context : Context := ⟨"E1", 1, 1, 0⟩
    ∃ s s', Statement.compile template = .ok s ∧ Statement.compile template' = .ok s' ∧
      s.impactOf "A" = ["B"] ∧
      let ofA : Provider := .fixed (.ofList [("A", 1.0)])
      let ofD : Provider := .fixed (.ofList [("D", 2.0)])
      let c : Calculator := ⟨s, .standard, {}, [ofA, ofD]⟩
      let c' : Calculator := ⟨s', .standard, {}, [ofD]⟩
      DifferOnlyAt "A" context c c' ∧
        ∃ closing closing', c.calculateIn .empty context = .ok closing ∧
          c'.calculateIn .empty context = .ok closing' ∧
          closing.values.toList = [("A", 1.0), ("B", 1.0), ("E", 2.0)] ∧
          closing'.values.toList = [("A", 2.0), ("B", 2.0), ("E", 2.0)] ∧
          ∃ v, closing.values.get? "E" = some v ∧ closing'.values.get? "E" = some v := by
  intro template template' context
  let graph : Graph := ⟨["A", "B", "E"], [("B", "A")]⟩
  let s : Statement :=
    { code := ""
      items := [
        { code := "A", formula := none, declared := { code := "A" } },
        { code := "B", formula := some ⟨"A", .reference (.bare "A"), [.bare "A"]⟩
          declared := { code := "B", formula := some "A" } },
        { code := "E", formula := some ⟨"D", .reference (.bare "D"), [.bare "D"]⟩
          declared := { code := "E", formula := some "D" } }]
      order := [0, 1, 2]
      graph
      checks := [] }
  let s' : Statement :=
    { code := ""
      items := [
        { code := "A", formula := some ⟨"D", .reference (.bare "D"), [.bare "D"]⟩
          declared := { code := "A", formula := some "D" } },
        { code := "B", formula := some ⟨"A", .reference (.bare "A"), [.bare "A"]⟩
          declared := { code := "B", formula := some "A" } },
        { code := "E", formula := some ⟨"D", .reference (.bare "D"), [.bare "D"]⟩
          declared := { code := "E", formula := some "D" } }]
      order := [0, 1, 2]
      graph
      checks := [] }
  have compiled : Statement.compile template = .ok s := by
    unfold template s graph
    cbv
  have compiled' : Statement.compile template' = .ok s' := by
    unfold template' s' graph
    cbv
  have impact : s.impactOf "A" = ["B"] := by
    unfold s graph
    cbv
  let ofA : Provider := .fixed (.ofList [("A", 1.0)])
  let ofD : Provider := .fixed (.ofList [("D", 2.0)])
  have differ :
      DifferOnlyAt "A" context ⟨s, .standard, {}, [ofA, ofD]⟩ ⟨s', .standard, {}, [ofD]⟩ := by
    constructor
    case statements =>
      exact .cons ⟨rfl, fun other => absurd rfl other⟩
        (.cons ⟨rfl, fun _ => rfl⟩ (.cons ⟨rfl, fun _ => rfl⟩ .nil))
    case functions => rfl
    case answers =>
      intro r other
      refine Chain.resolve_cons_of_not_claims ?_ context
      intro claims
      apply other
      obtain ⟨bare, now, held⟩ := Provider.claims_fixed_iff.1 claims
      obtain ⟨v, held⟩ := Collection.OrderedMap.contains_eq_true_iff.1 held
      have entry := List.mem_singleton.1 (Collection.OrderedMap.mem_of_get?_ofList held)
      have isA : r.code = "A" := congrArg Prod.fst entry
      rw [Reference.eq_bare bare now, isA]
  have calculated : calculateIn ⟨s, .standard, {}, [ofA, ofD]⟩ .empty ⟨"E1", 1, 1, 0⟩ =
      .ok ⟨⟨"E1", 1, 1, 0⟩, .ofList [("A", 1.0), ("B", 1.0), ("E", 2.0)], none, []⟩ := by
    with_unfolding_all rfl
  have calculated' : calculateIn ⟨s', .standard, {}, [ofD]⟩ .empty ⟨"E1", 1, 1, 0⟩ =
      .ok ⟨⟨"E1", 1, 1, 0⟩, .ofList [("A", 2.0), ("B", 2.0), ("E", 2.0)], none, []⟩ := by
    with_unfolding_all rfl
  obtain ⟨-, keeps⟩ :=
    calculateIn_keeps_outside_impact compiled compiled' rfl differ calculated calculated'
  refine ⟨s, s', compiled, compiled', impact, differ, _, _, calculated, calculated', rfl, rfl, ?_⟩
  exact keeps _ (List.mem_of_getElem? (rfl : s.items[2]? = some _)) (by decide) (impact ▸ by decide)

end Rollforward.Calculator
