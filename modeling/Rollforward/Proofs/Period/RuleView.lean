import Rollforward.Proofs.Period.Solution
import Rollforward.Registry.Standard

/-!
# `Rollforward.Proofs.Period.RuleView`: rules see what items saw

Items are evaluated in front of a ledger, rules in front of the closed period, and the two read a
reference by different routes. An item without a formula is asked of the caller's providers by the
one and found in the snapshot by the other, and a code that is no item of the template belongs to
the history at another time for rules only.

`resolve_rule_of_resolve_item` follows a reference that has a value along both routes. The last
difference does not show there: nobody that a caller supplies answers for such a code, so an item
that reads it has no value. Hence a rule that repeats the formula of an item gets the value of the
item (`eval_rule_of_calculateIn`).
-/

set_option autoImplicit false

namespace Rollforward.Calculator

open Formula (Reference)

variable {c : Calculator} {history : Series} {context : Context} {values : Snapshot}

/-! ### From items to rules -/

section Routes

variable {r : Reference} {x : Float}

/-- What is no item comes from the caller's providers, and from nobody at another time. -/
theorem resolve_rule_of_unknown (supplied : ∀ p ∈ c.providers, p.IsSupplied)
    (solves : c.Solves history context values) (bare : r.source = none)
    (unknown : c.statement.item? r.code = none)
    (value : Chain.resolve c.providers r context = .ok x) :
    (c.ruleEnvironment history context values).chain.resolve r context = .ok x := by
  by_cases now : r.offset = 0
  · have absent : values.get? r.code = none := by
      refine get?_eq_none_of_solves solves ?_
      rintro ⟨j, hj, code⟩
      have other := List.find?_eq_none.1 unknown j hj
      exact other (beq_iff_eq.2 code)
    rw [resolve_rule_external (Or.inr ⟨now, absent⟩)]
    exact value
  · have unclaimed : ∀ p ∈ c.providers, p.claims r = false := by
      intro p hp
      exact Provider.claims_of_isSupplied (supplied p hp) bare now
    rw [Chain.resolve_of_unclaimed unclaimed] at value
    exact nomatch value

/-- An item has the same value in the snapshot as in the ledger or from the caller's providers. -/
theorem resolve_rule_of_item (compiled : c.statement.IsCompiled)
    (solves : c.Solves history context values) (bare : r.source = none) (now : r.offset = 0)
    {j : Statement.Item} (item : c.statement.item? r.code = some j)
    (value : (c.itemEnvironment history context
      (.ofValues c.statement.items values)).chain.resolve r context = .ok x) :
    (c.ruleEnvironment history context values).chain.resolve r context = .ok x := by
  obtain ⟨hj, code⟩ := (Statement.item?_eq_some_iff compiled.codes_nodup).1 item
  obtain ⟨v, held, -⟩ := solves.equations j hj
  rw [code] at held
  have same : v = x := by
    cases hf : j.formula with
    | some f =>
        have computed : j.isComputed = true := congrArg Option.isSome hf
        rw [resolve_item_of_values compiled bare now item computed, held] at value
        exact Except.ok.inj value
    | none =>
        have raw : j.isComputed = false := congrArg Option.isSome hf
        obtain ⟨w, held', answer⟩ := exists_resolve_of_raw solves hj hf
        rw [resolve_item_raw now item raw, Reference.eq_bare bare now, ← code, answer] at value
        rw [code, held] at held'
        exact (Option.some.inj held').trans (Except.ok.inj value)
  rw [resolve_rule_held bare now held, same]

/-- What has a value in front of the items has the same value in front of the closed period. -/
theorem resolve_rule_of_resolve_item (compiled : c.statement.IsCompiled)
    (supplied : ∀ p ∈ c.providers, p.IsSupplied) (solves : c.Solves history context values)
    (value : (c.itemEnvironment history context
      (.ofValues c.statement.items values)).chain.resolve r context = .ok x) :
    (c.ruleEnvironment history context values).chain.resolve r context = .ok x := by
  cases c.statement.route r with
  | prefixed space =>
      rw [resolve_item_external (Or.inl space)] at value
      rw [resolve_rule_external (Or.inl space)]
      exact value
  | unknown bare absent =>
      rw [resolve_item_external (Or.inr absent)] at value
      exact resolve_rule_of_unknown supplied solves bare absent value
  | shifted bare shifted i item =>
      rw [resolve_item_shifted bare shifted (Statement.contains_of_item? item)] at value
      rw [resolve_rule_shifted bare shifted]
      exact value
  | now bare now i item =>
      exact resolve_rule_of_item compiled solves bare now item value

end Routes

/-! ### Formulas of items as rules -/

/-- In a period that is calculated with what a caller can supply, the formula of an item, evaluated
as the formula of a rule or an invariant, gives the value that the item has in the closed period. -/
theorem eval_rule_of_calculateIn {t : Template} {closing : Closing}
    (compiled : Statement.compile t = .ok c.statement)
    (supplied : ∀ p ∈ c.providers, p.IsSupplied)
    (calculated : c.calculateIn history context = .ok closing) :
    ∀ i ∈ c.statement.items, ∀ f, i.formula = some f →
      ∃ v, closing.values.get? i.code = some v ∧
        Evaluation.eval (c.ruleEnvironment history context closing.values) f.expr = .ok v := by
  intro i hi f hf
  have compiled := Statement.isCompiled_of_compile compiled
  have solves := solves_of_calculateIn compiled calculated
  obtain ⟨v, held, equation⟩ := exists_eval_of_computed solves hi hf
  refine ⟨v, held, ?_⟩
  -- Everything that the formula reads has a value, so the two chains agree on all of it.
  have agree : Chain.AgreeOn f.expr.references context
      (c.ruleEnvironment history context closing.values).chain
      (c.itemEnvironment history context
        (.ofValues c.statement.items closing.values)).chain := by
    intro r hr
    obtain ⟨x, value⟩ := Evaluation.resolve_of_eval equation r hr
    exact (resolve_rule_of_resolve_item compiled supplied solves value).trans value.symm
  exact (Evaluation.eval_congr agree).trans equation

set_option maxRecDepth 20000 in
/-- `RE` reads the last period, an item with a formula, one without, and another domain. -/
theorem eval_rule_of_calculateIn_all_routes :
    let template : Template :=
      { items := [{ code := "RE", formula := some "RE[t-1]+TAX+EBT+pl:OCI" }, { code := "EBT" },
          { code := "TAX", formula := some "-EBT" }] }
    ∃ s, Statement.compile template = .ok s ∧
      let c : Calculator := ⟨s, .standard, {},
        [.fixed (.ofList [("EBT", 2.0)]), .domain "pl" (.ofList [(0, .ofList [("OCI", 3.0)])])]⟩
      let history : Series := .ofList [(-1, .ofList [("RE", 5.0)])]
      let context : Context := ⟨"E1", 1, 1, 0⟩
      (∀ p ∈ c.providers, p.IsSupplied) ∧
        ∃ closing, c.calculateIn history context = .ok closing ∧
          ∃ i f, s.items[0]? = some i ∧ i.formula = some f ∧
            ∃ v, closing.values.get? "RE" = some v ∧
              Evaluation.eval (c.ruleEnvironment history context closing.values) f.expr = .ok v := by
  intro template
  let f : Statement.ItemFormula :=
    ⟨"RE[t-1]+TAX+EBT+pl:OCI",
      .binary .add
        (.binary .add
          (.binary .add (.reference ⟨none, "RE", -1⟩) (.reference (.bare "TAX")))
          (.reference (.bare "EBT")))
        (.reference ⟨some (.domain "pl"), "OCI", 0⟩),
      [.bare "EBT", ⟨none, "RE", -1⟩, .bare "TAX", ⟨some (.domain "pl"), "OCI", 0⟩]⟩
  let s : Statement :=
    { code := ""
      items := [
        { code := "RE", formula := some f
          declared := { code := "RE", formula := some "RE[t-1]+TAX+EBT+pl:OCI" } },
        { code := "EBT", formula := none, declared := { code := "EBT" } },
        { code := "TAX"
          formula := some ⟨"-EBT", .unary .negate (.reference (.bare "EBT")), [.bare "EBT"]⟩
          declared := { code := "TAX", formula := some "-EBT" } }]
      order := [1, 2, 0]
      graph := ⟨["RE", "EBT", "TAX"], [("RE", "EBT"), ("RE", "TAX"), ("TAX", "EBT")]⟩
      checks := [] }
  have compiled : Statement.compile template = .ok s := by
    unfold template s f
    cbv
  let p : Provider := .fixed (.ofList [("EBT", 2.0)])
  let q : Provider := .domain "pl" (.ofList [(0, .ofList [("OCI", 3.0)])])
  have supplied : ∀ o ∈ [p, q], o.IsSupplied :=
    List.forall_mem_cons.2 ⟨.fixed _ _, List.forall_mem_singleton.2 (.domain _ _)⟩
  let opening : Snapshot := .ofList [("RE", 5.0)]
  let values : Snapshot := .ofList [("RE", 8.0), ("EBT", 2.0), ("TAX", -2.0)]
  have calculated :
      calculateIn ⟨s, .standard, {}, [p, q]⟩ (.ofList [(-1, opening)]) ⟨"E1", 1, 1, 0⟩ =
        .ok ⟨⟨"E1", 1, 1, 0⟩, values, some opening, []⟩ := by
    with_unfolding_all rfl
  refine ⟨s, compiled, supplied, _, calculated, _, f, rfl, rfl, ?_⟩
  exact eval_rule_of_calculateIn compiled supplied calculated _ List.mem_cons_self f rfl

end Rollforward.Calculator
