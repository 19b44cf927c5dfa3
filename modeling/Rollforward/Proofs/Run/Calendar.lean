import Rollforward.Proofs.Period.Item
import Rollforward.Proofs.Provider.Disjoint
import Rollforward.Proofs.Run.History

/-!
# `Rollforward.Proofs.Run.Calendar`: raw inputs and other domains along a run

A raw input in the period at hand is read in the period of the context, at another time in the
period that the calendar has there. `Plan.rawPeriod_cases` shows that a run keeps the two in step:
either way it is the period of the plan that stands as many places ahead or behind as the offset
says, if the plan has one there. Periods may recur in a plan, since they are told apart by their
places. Another domain knows nothing of periods and is read at the time itself
(`Series.domainAnswer_resolve`). Each of the two is then read off the chain that has the raw inputs
in front.

`execute_resolves_inputs` puts it together for the period that a run calculates.
-/

set_option autoImplicit false

namespace Rollforward

open Formula (Namespace Reference)

/-! ### Raw inputs -/

namespace Plan

variable {plan : Plan} {start : Int} {i p : Nat} {r : Reference}

/-- The calendar of a run has the periods of the plan, all of them, each at its time. -/
theorem read?_calendar_eq_some_iff (onClock : Clock.lowest ≤ start)
    (fits : plan.fits start = true) {t : Int} {q : Nat} :
    Clock.read? (Calendar.sequential start plan.periods).get? t = some q ↔
      ∃ k : Nat, t = start + k ∧ plan.periods[k]? = some q := by
  rw [Clock.read?_eq_some_iff, Calendar.get?_sequential_eq_some_iff]
  constructor
  · rintro ⟨-, k, time, period, -⟩
    exact ⟨k, time, period⟩
  · rintro ⟨k, rfl, period⟩
    have has := has_of_fits onClock fits (List.getElem?_eq_some_iff.1 period).1
    exact ⟨has, k, rfl, period, has.2⟩

/-- In its period number `i` a run reads raw inputs in the period of the plan that the reference
looks at. A reference that looks at none looks ahead of the plan or behind it. -/
theorem rawPeriod_cases (onClock : Clock.lowest ≤ start) (fits : plan.fits start = true)
    (period : plan.periods[i]? = some p) (r : Reference) :
    let read := Provider.rawPeriod (.sequential start plan.periods) r (plan.contextAt start i p)
    let j : Int := i + r.offset
    (∃ (k q : Nat), k = j ∧ plan.periods[k]? = some q ∧ read = .ok q) ∨
      ((plan.periods.length : Int) ≤ j ∧
        read = .error (.noFutureValue r (Clock.clamp (start + j)))) ∨
      (j < 0 ∧ read = .error (.noPriorValue r (Clock.clamp (start + j)))) := by
  intro read j
  have bound : i < plan.periods.length := (List.getElem?_eq_some_iff.1 period).1
  have time : (plan.contextAt start i p).time + r.offset = start + j :=
    Int.add_assoc start i r.offset
  by_cases now : r.offset = 0
  · have atHand : read = .ok p := (Provider.rawPeriod_eq _ _ _).trans (if_pos now)
    exact Or.inl ⟨i, p, by omega, period, atHand⟩
  have elsewhere : read = (plan.contextAt start i p).lookUp
      (Calendar.sequential start plan.periods).get? r :=
    (Provider.rawPeriod_eq _ _ _).trans (if_neg now)
  cases found : Clock.read? (Calendar.sequential start plan.periods).get? (start + j) with
  | some q =>
      obtain ⟨k, stands, there⟩ := (read?_calendar_eq_some_iff onClock fits).1 found
      rw [← time] at found
      exact Or.inl ⟨k, q, by omega, there, elsewhere.trans (Context.lookUp_of_read?_eq_some found)⟩
  | none =>
      -- The calendar has all periods of the plan, so the reference looks at none of them.
      have outside : (plan.periods.length : Int) ≤ j ∨ j < 0 := by
        by_contra inside
        obtain ⟨k, place⟩ := Int.eq_ofNat_of_zero_le (by omega : 0 ≤ j)
        have there : plan.periods[k]? = some plan.periods[k] := List.getElem?_eq_getElem (by omega)
        cases found.symm.trans ((read?_calendar_eq_some_iff onClock fits).2 ⟨k, by omega, there⟩)
      rw [← time] at found
      rw [elsewhere, Context.lookUp_of_read?_eq_none found, time, EvalError.unavailable]
      obtain past | before := outside
      · exact Or.inr (Or.inl ⟨past, by rw [if_pos (by omega)]⟩)
      · exact Or.inr (Or.inr ⟨before, by rw [if_neg (by omega)]⟩)

/-- What the plan has to answer to a raw-input reference in its period number `i`. -/
inductive InputAnswer (plan : Plan) (start : Int) (records : List RawInput) (i : Nat)
    (r : Reference) : Except EvalError Float → Prop where
  /-- The reference looks at a period of the plan. -/
  | within {k q : Nat} {answer : Except EvalError Float} (place : (k : Int) = i + r.offset)
    (period : plan.periods[k]? = some q)
    (answers : RawInput.Answer plan.entity plan.scenario records r r.code q answer) :
    InputAnswer plan start records i r answer
  /-- The reference looks ahead of the last period. -/
  | ahead (past : (plan.periods.length : Int) ≤ i + r.offset) :
    InputAnswer plan start records i r
      (.error (.noFutureValue r (Clock.clamp (start + (i + r.offset)))))
  /-- The reference looks behind the first period. -/
  | behind (before : i + r.offset < 0) :
    InputAnswer plan start records i r
      (.error (.noPriorValue r (Clock.clamp (start + (i + r.offset)))))

/-- The raw inputs of a run, in front of its other providers, answer a reference with their prefix
as the plan has it. -/
theorem inputAnswer_resolve (onClock : Clock.lowest ≤ start) (fits : plan.fits start = true)
    (period : plan.periods[i]? = some p) (records : List RawInput) (claims : Claims)
    (rest : Chain) (prefixed : r.source = some .rawInput) :
    plan.InputAnswer start records i r
      (Chain.resolve (Provider.rawInput (.ofRecords plan.entity plan.scenario records) claims
        (.sequential start plan.periods) :: rest) r (plan.contextAt start i p)) := by
  rw [Chain.resolve_cons_of_claims (Provider.claims_rawInput_iff.2 (Or.inl prefixed))]
  obtain ⟨k, q, place, there, read⟩ | ⟨past, read⟩ | ⟨before, read⟩ :=
    rawPeriod_cases onClock fits period r
  · have answer := Provider.answer_of_rawPeriod claims plan.entity plan.scenario records read
    have key : Provider.rawKey claims r = r.code := if_pos prefixed
    rw [key] at answer
    exact .within place there answer
  · rw [Provider.resolve_rawInput_of_rawPeriod_eq_error read]
    exact .ahead past
  · rw [Provider.resolve_rawInput_of_rawPeriod_eq_error read]
    exact .behind before

end Plan

/-! ### Other domains -/

/-- What another domain has to answer to a reference at the time `t`. -/
inductive Series.DomainAnswer (series : Series) (name : String) (t : Int) (r : Reference) :
    Except EvalError Float → Prop where
  | value {v : Float} (has : Clock.Has (t + r.offset))
    (value : series.value? (t + r.offset) r.code = some v) : DomainAnswer series name t r (.ok v)
  | missing (now : r.offset = 0) (missing : series.value? t r.code = none) :
    DomainAnswer series name t r (.error (.gap name r (.noValueAt t)))
  | unavailable (shifted : r.offset ≠ 0)
    (absent : Clock.Has (t + r.offset) → series.value? (t + r.offset) r.code = none) :
    DomainAnswer series name t r (.error (.unavailable r (Clock.clamp (t + r.offset))))

/-- Another domain answers with what it has at the time that a reference looks at. -/
theorem Series.domainAnswer_resolve (series : Series) (written : String) (r : Reference)
    {context : Context} (onClock : Clock.Has context.time) :
    series.DomainAnswer (Namespace.ofName written).name context.time r
      ((Provider.domain written series).resolve r context) := by
  cases found :
      Clock.read? (fun t => series.value? t r.code) (context.time + r.offset) with
  | some v =>
      obtain ⟨has, value⟩ := Clock.read?_eq_some_iff.1 found
      rw [Provider.resolve_domain_of_read?_eq_some found]
      exact .value has value
  | none =>
      have absent (has : Clock.Has (context.time + r.offset)) :
          series.value? (context.time + r.offset) r.code = none := by
        rwa [Clock.read?_of_has has] at found
      rw [Provider.resolve_domain_of_read?_eq_none onClock found]
      by_cases now : r.offset = 0
      · rw [if_pos now]
        rw [now, Int.add_zero] at absent
        exact .missing now (absent onClock)
      · rw [if_neg now]
        exact .unavailable now absent

/-- What goes to another domain by the chain goes there past the raw inputs as well. -/
theorem Series.domainAnswer_chain {inputs : RawInputs} {claims : Claims} {calendar : Calendar}
    {rest : Chain} {r : Reference} {d written : String} {series : Series} {context : Context}
    (prefixed : r.source = some (.domain d))
    (claimant : rest.claimant? r = some (.domain written series))
    (onClock : Clock.Has context.time) :
    series.DomainAnswer (Namespace.domain d).name context.time r
      (Chain.resolve (Provider.rawInput inputs claims calendar :: rest) r context) := by
  have unclaimed : ¬(Provider.rawInput inputs claims calendar).claims r = true := by
    rw [Provider.claims_rawInput_iff, prefixed]
    simp
  have space : Namespace.ofName written = .domain d := by
    have claimed := (Chain.mem_and_claims_of_claimant? claimant).2
    exact Option.some.inj ((Provider.claims_domain_iff.1 claimed).symm.trans prefixed)
  rw [Chain.resolve_cons_of_not_claims unclaimed, Chain.resolve, claimant, ← space]
  exact series.domainAnswer_resolve written r onClock

/-! ### Runs -/

namespace Runner

variable {r : Runner} {plan : Plan} {switch : Switch}

/-- A run with raw inputs calculates its period number `i`, if it gets there, with a calculator that
answers

* a raw-input reference from the period of the plan that it looks at, with the last record for the
  key and that period, and with the error for its direction where the plan has no period;
* an item without formula, and its bare code in the formula of an item, from the period at hand,
  with the last record for the key that the claims give it;
* a reference that goes to another domain from the series of that domain, at the time that it looks
  at.

The history and what is known of the period have no part in it. -/
theorem execute_resolves_inputs {t : Template} {load : RawSource} {records : List RawInput}
    {i p : Nat} (compiled : Statement.compile t = .ok r.statement)
    (onClock : Clock.lowest ≤ r.options.start) (fits : plan.fits r.options.start = true)
    (source : r.source = some load) (loads : load plan.entity plan.scenario = .ok records)
    (period : plan.periods[i]? = some p) :
    let outcome := r.execute plan switch
    let start := r.options.start
    let context := plan.contextAt start i p
    ∃ c, r.calculator plan = .ok c ∧
      let result :=
        closePeriod c r.invariants (plan.historyAfter start (outcome.closings.take i)) context
      (i ≤ outcome.closings.length →
        (∀ closing, outcome.closings[i]? = some closing → result = .ok closing) ∧
          (outcome.closings[i]? = none → ∃ e, outcome.ending = .failed ⟨i, p, e⟩ ∧
            (e = .cancelled ∨ result = .error e))) ∧
      ∀ (history : Series) (ledger : Ledger) (values : Snapshot),
        let items := c.itemEnvironment history context ledger
        let rules := c.ruleEnvironment history context values
        (∀ ref : Reference, ref.source = some .rawInput →
          plan.InputAnswer start records i ref (items.chain.resolve ref context) ∧
          plan.InputAnswer start records i ref (rules.chain.resolve ref context)) ∧
        (∀ item ∈ r.statement.items, item.formula = none →
          ∃ key, r.statement.claims.get? item.code = some key ∧
            RawInput.Answer plan.entity plan.scenario records (.bare item.code) key p
              (Calculator.evalItem items item) ∧
            RawInput.Answer plan.entity plan.scenario records (.bare item.code) key p
              (items.chain.resolve (.bare item.code) context)) ∧
        ∀ (ref : Reference) (d written : String) (series : Series),
          ref.source = some (.domain d) →
          Chain.claimant? r.providers ref = some (.domain written series) →
          series.DomainAnswer (Namespace.domain d).name (start + i) ref
              (items.chain.resolve ref context) ∧
            series.DomainAnswer (Namespace.domain d).name (start + i) ref
              (rules.chain.resolve ref context) := by
  intro outcome start context
  let inputs : Provider := .rawInput (.ofRecords plan.entity plan.scenario records)
    r.statement.claims (.sequential start plan.periods)
  let c : Calculator := ⟨r.statement, r.functions, r.options, inputs :: r.providers⟩
  have raw : r.rawProvider plan = .ok [inputs] := by
    simp only [rawProvider, source, loads]
    rfl
  have ready : r.calculator plan = .ok c := calculator_eq_ok_iff.2 ⟨fits, _, raw, rfl⟩
  have compiled := Statement.isCompiled_of_compile compiled
  refine ⟨c, ready, ?_, ?_⟩
  · intro reached
    have calculated := (unfolds_execute ready switch).result_at period reached
    rwa [Nat.zero_add] at calculated
  intro history ledger values items rules
  -- What has a prefix goes past the items and the closed period.
  have external {ref : Reference} (prefixed : ref.source ≠ none) :
      items.chain.resolve ref context = Chain.resolve c.providers ref context ∧
        rules.chain.resolve ref context = Chain.resolve c.providers ref context :=
    ⟨Calculator.resolve_item_external (Or.inl prefixed),
      Calculator.resolve_rule_external (Or.inl prefixed)⟩
  refine ⟨?inputs, ?raw, ?domains⟩
  case inputs =>
    intro ref prefixed
    obtain ⟨item, rule⟩ := @external ref (by simp [prefixed])
    rw [item, rule, and_self]
    exact Plan.inputAnswer_resolve onClock fits period records _ _ prefixed
  case raw =>
    intro item hi without
    have claim : r.statement.claims.get? item.code = some item.declared.rawKey :=
      (Statement.get?_claims_eq_some_iff compiled.codes_nodup).2
        ⟨item, hi, Statement.Item.isComputed_eq_false_iff.2 without, rfl, rfl⟩
    -- The bare code goes past the ledger, which answers for computed items only.
    have asked : items.chain.resolve (.bare item.code) context =
        Chain.resolve c.providers (.bare item.code) context :=
      Calculator.resolve_bare_of_raw compiled hi without
    have answer : RawInput.Answer plan.entity plan.scenario records (.bare item.code)
        item.declared.rawKey p (items.chain.resolve (.bare item.code) context) := by
      rw [asked]
      exact Provider.answer_bare claim _ context plan.entity plan.scenario records _
    refine ⟨_, claim, ?_, answer⟩
    rw [Calculator.evalItem, without]
    exact answer
  case domains =>
    intro ref d written series prefixed claimant
    obtain ⟨item, rule⟩ := @external ref (by simp [prefixed])
    have has : Clock.Has context.time :=
      Plan.has_of_fits onClock fits (List.getElem?_eq_some_iff.1 period).1
    rw [item, rule, and_self]
    exact series.domainAnswer_chain prefixed claimant has

set_option maxRecDepth 20000 in
/-- Period 7 comes before and after the second period of the plan, which is period 8 at time 11.
`NET` is the later of the two records for period 7. -/
theorem execute_resolves_inputs_recurring_period :
    let template : Template :=
      { items := [{ code := "RE", formula := some "NET+pl:TAX[t-1]" },
          { code := "NET", rawReference := some "driver: N" }] }
    let records : List RawInput := [⟨"N", 7, 1.0⟩, ⟨"N", 8, 4.0⟩, ⟨"N", 7, 2.0⟩]
    let taxes : Series := .ofList [(9, .ofList [("TAX", 10.0)]), (10, .ofList [("TAX", 20.0)]),
      (11, .ofList [("TAX", 30.0)])]
    ∃ s, Statement.compile template = .ok s ∧
      let r : Runner :=
        ⟨s, .standard, { start := 10 }, [], some fun _ _ => .ok records, [.domain " PL" taxes]⟩
      let plan : Plan := ⟨"E1", 1, [7, 8, 7], none, .empty⟩
      let context := plan.contextAt 10 1 8
      let input (offset : Int) : Reference := ⟨some .rawInput, "N", offset⟩
      (r.execute plan .untouched).closings.map (fun closing => closing.values.toList) =
          [[("NET", 2.0), ("RE", 12.0)], [("NET", 4.0), ("RE", 24.0)],
            [("NET", 2.0), ("RE", 32.0)]] ∧
        ∃ c, r.calculator plan = .ok c ∧
          let chain := (c.itemEnvironment .empty context (.ofSize 2)).chain
          (∀ offset, plan.InputAnswer 10 records 1 (input offset)
            (chain.resolve (input offset) context)) ∧
          RawInput.Answer "E1" 1 records (.bare "NET") "N" 8 (chain.resolve (.bare "NET") context) ∧
          (∀ offset, taxes.DomainAnswer "pl" 11 ⟨some (.domain "pl"), "TAX", offset⟩
            (chain.resolve ⟨some (.domain "pl"), "TAX", offset⟩ context)) ∧
          chain.resolve (input 1) context = .ok 2.0 ∧
          chain.resolve (input 2) context = .error (.noFutureValue (input 2) 13) ∧
          chain.resolve (input (-2)) context = .error (.noPriorValue (input (-2)) 9) := by
  intro template records taxes
  let f : Statement.ItemFormula :=
    ⟨"NET+pl:TAX[t-1]",
      .binary .add (.reference (.bare "NET")) (.reference ⟨some (.domain "pl"), "TAX", -1⟩),
      [.bare "NET", ⟨some (.domain "pl"), "TAX", -1⟩]⟩
  let s : Statement :=
    { code := ""
      items := [
        { code := "RE", formula := some f
          declared := { code := "RE", formula := some "NET+pl:TAX[t-1]" } },
        { code := "NET", formula := none
          declared := { code := "NET", rawReference := some "driver: N" } }]
      order := [1, 0]
      graph := ⟨["RE", "NET"], [("RE", "NET")]⟩
      checks := [] }
  have compiled : Statement.compile template = .ok s := by
    unfold template s f
    cbv
  refine ⟨s, compiled, ?_⟩
  intro r plan context input
  have values : (r.execute plan .untouched).closings.map (fun closing => closing.values.toList) =
      [[("NET", 2.0), ("RE", 12.0)], [("NET", 4.0), ("RE", 24.0)],
        [("NET", 2.0), ("RE", 32.0)]] := by
    unfold r plan s f records taxes
    with_unfolding_all rfl
  have loads : (Except.ok records : Except String (List RawInput)) = .ok records := rfl
  obtain ⟨c, ready, -, answers⟩ :=
    @execute_resolves_inputs r plan .untouched template _ records 1 8 compiled (by decide)
      (by decide) rfl loads rfl
  obtain ⟨inputs, raw, domains⟩ := answers .empty (.ofSize 2) .empty
  have same : c = ⟨s, .standard, { start := 10 }, [.rawInput (.ofRecords "E1" 1 records) s.claims
      (.sequential 10 [7, 8, 7]), .domain " PL" taxes]⟩ :=
    Except.ok.inj (ready.symm.trans rfl)
  obtain ⟨key, claim, -, net⟩ := raw _ (List.mem_cons_of_mem _ List.mem_cons_self) rfl
  have claim : key = "N" := Option.some.inj (claim.symm.trans (by
    unfold r s
    with_unfolding_all rfl))
  have claimant (offset : Int) : Chain.claimant? r.providers ⟨some (.domain "pl"), "TAX", offset⟩ =
      some (.domain " PL" taxes) := by
    have space : Namespace.ofName " PL" = .domain "pl" := by decide +kernel
    refine List.find?_cons_of_pos ?_
    rw [Provider.claims_domain_iff, space]
  refine ⟨values, c, ready, ?_, ?_, ?_, ?_⟩
  · exact fun offset => (inputs (input offset) rfl).1
  · rw [← claim]
    exact net
  · exact fun offset => (domains _ "pl" _ _ rfl (claimant offset)).1
  · rw [same]
    unfold input context plan s f records taxes
    refine ⟨?_, ?_, ?_⟩ <;> with_unfolding_all rfl

end Runner

end Rollforward
