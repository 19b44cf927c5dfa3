import Rollforward.Proofs.Period.Part
import Rollforward.Proofs.Provider.RawInput
import Rollforward.Proofs.Run.Progress
import Rollforward.Registry.Standard

/-!
# `Rollforward.Proofs.Run.Part`: a value depends on what is upstream of it

A run of a whole template and a run of a part of it go through their periods side by side. Before
every period their histories have the same values for the codes of the part, so the part closes it
with the values of the whole, and the histories agree behind it too (`Runner.proceed_part`). As far
as the part asks for raw inputs, they are claimed under the same keys
(`Runner.exists_calculator_part`).

`execute_only_upstream` says it of the lines whose codes are closed under the dependencies of the
graph.
-/

set_option autoImplicit false

namespace Rollforward

open Formula (Reference)

/-- `part` is the closed period `whole` with the values of `codes` only, and without violations. -/
structure Closing.IsOnly (codes : List String) (whole part : Closing) : Prop where
  context : part.context = whole.context
  values : ∀ code, part.values.get? code = if code ∈ codes then whole.values.get? code else none
  violations : part.violations = []

namespace Runner

variable {r r' : Runner} {plan : Plan} {c c' : Calculator}

/-! ### The periods of a run -/

/-- A closed period has no values but those of the items. -/
theorem get?_eq_none_of_closePeriod (compiled : c.statement.IsCompiled)
    {invariants : List Check} {history : Series} {context : Context} {closing : Closing}
    (closed : closePeriod c invariants history context = .ok closing) {code : String}
    (unknown : code ∉ c.statement.codes) : closing.values.get? code = none := by
  obtain ⟨calculated, ok, -, rfl⟩ := closePeriod_eq_ok closed
  refine Calculator.get?_eq_none_of_solves (Calculator.solves_of_calculateIn compiled ok) ?_
  rintro ⟨i, hi, rfl⟩
  exact unknown (List.mem_map_of_mem hi)

/-- A completed run of the whole takes a run of the part along. -/
theorem proceed_part {codes : List String} (compiled : c.statement.IsCompiled)
    (compiled' : c'.statement.IsCompiled) (part : ∀ context, c.Part context c')
    (kept : ∀ code, code ∈ c'.statement.codes ↔ code ∈ c.statement.codes ∧ code ∈ codes)
    (checks : c'.statement.checks = []) (invariants : r'.invariants = [])
    (start : r'.options.start = r.options.start) (switch : Switch) {index : Nat}
    {history history' : Series} {asked asked' : Bool} {ps : List Nat}
    (histories : Series.AgreeOn c'.statement.codes history history')
    (quiet : asked' = true → asked = true)
    (completed : (r.proceed c plan switch index history asked ps).ending = .completed) :
    let whole := r.proceed c plan switch index history asked ps
    let outcome := r'.proceed c' plan switch index history' asked' ps
    outcome.ending = .completed ∧
      List.Forall₂ (Closing.IsOnly codes) whole.closings outcome.closings := by
  induction ps generalizing index history history' asked asked' with
  | nil => exact ⟨rfl, .nil⟩
  | cons p ps ih =>
      obtain ⟨-, stopped⟩ | ⟨unpressed, ⟨e, -, stopped⟩ | ⟨closing, closed, next⟩⟩ :=
        proceed_cons_cases r c plan switch index history asked p ps
      -- The run of the whole completes, so it closes this period.
      · rw [stopped] at completed
        cases completed
      · rw [stopped] at completed
        cases completed
      · rw [next] at completed ⊢
        obtain ⟨closing', closed', context, violations, values⟩ :=
          (part _).exists_closePeriod compiled compiled' histories checks closed
        have only : closing.IsOnly codes closing' := by
          refine ⟨context, fun code => ?_, violations⟩
          rw [values, if_congr (kept code) rfl rfl]
          by_cases known : code ∈ c.statement.codes
          · simp only [known, true_and]
          · rw [get?_eq_none_of_closePeriod compiled closed known, ite_self, ite_self]
        -- Nobody has asked in the run of the part, since nobody has in that of the whole.
        have unpressed' : (asked' || switch.pressed index) = false := by
          obtain ⟨idle, notPressed⟩ := Bool.or_eq_false_iff.1 unpressed
          rw [notPressed, Bool.or_false]
          exact eq_false_of_ne_true (mt quiet (by rw [idle]; exact Bool.false_ne_true))
        have histories' : Series.AgreeOn c'.statement.codes
            (history.insert closing.context.time closing.values)
            (history'.insert closing.context.time closing'.values) := by
          refine histories.insert _ fun code known => ?_
          rw [values, if_pos known]
        have quiet' : (switch.shared && periodCancels c' r'.invariants history'
              (plan.contextAt r'.options.start index p)) = true →
            (switch.shared && periodCancels c r.invariants history
              (plan.contextAt r.options.start index p)) = true := by
          rw [Bool.and_eq_true, Bool.and_eq_true, invariants, start]
          rintro ⟨shared, asks⟩
          have asks := (part _).periodCancels compiled compiled' histories checks closed asks
          exact ⟨shared, asks⟩
        rw [← invariants, ← start] at closed'
        rw [proceed_cons_of_closePeriod unpressed' closed', context]
        obtain ⟨ended, rest⟩ := ih histories' quiet' completed
        exact ⟨ended, .cons only rest⟩

/-! ### Runs -/

/-- A runner of a part begins a plan with a part of the calculator of the whole. -/
theorem exists_calculator_part (compiled : r.statement.IsCompiled)
    (compiled' : r'.statement.IsCompiled) (part : r.statement.Part r'.statement)
    (functions : r'.functions = r.functions) (source : r'.source = r.source)
    (providers : r'.providers = r.providers) (start : r'.options.start = r.options.start)
    (ready : r.calculator plan = .ok c) :
    ∃ c', r'.calculator plan = .ok c' ∧ c'.statement = r'.statement ∧
      ∀ context, c.Part context c' := by
  obtain ⟨fits, raw, loaded, rfl⟩ := calculator_eq_ok_iff.1 ready
  have begins {raw' : Chain} (loaded' : r'.rawProvider plan = .ok raw') :
      r'.calculator plan =
        .ok ⟨r'.statement, r'.functions, r'.options, raw' ++ r'.providers⟩ := by
    refine calculator_eq_ok_iff.2 ⟨?_, raw', loaded', rfl⟩
    rw [start]
    exact fits
  unfold rawProvider at loaded
  cases supplied : r.source with
  | none =>
      rw [supplied] at loaded
      obtain rfl : [] = raw := Except.ok.inj loaded
      have loaded' : r'.rawProvider plan = .ok [] := by rw [rawProvider, source, supplied]
      refine ⟨_, begins loaded', rfl, fun context => ⟨part, functions.symm, ?_⟩⟩
      intro i hi q hq
      rw [providers]
  | some load =>
      rw [supplied] at loaded
      cases loads : load plan.entity plan.scenario with
      | error message =>
          simp only [loads] at loaded
          cases loaded
      | ok records =>
          simp only [loads] at loaded
          cases loaded
          let inputs := RawInputs.ofRecords plan.entity plan.scenario records
          let calendar := Calendar.sequential r.options.start plan.periods
          have loaded' : r'.rawProvider plan =
              .ok [.rawInput inputs r'.statement.claims calendar] := by
            simp only [rawProvider, source, supplied, loads, start, inputs, calendar]
          refine ⟨_, begins loaded', rfl, fun context => ⟨part, functions.symm, ?_⟩⟩
          intro i hi q hq
          rw [providers]
          -- The records are looked up by the key of an item, which the part shares.
          refine Provider.resolve_cons_rawInput_congr (fun bare => ?_) r.providers
          exact Statement.get?_claims_congr compiled.codes_nodup compiled'.codes_nodup
            (part.item?_eq_of_asks compiled compiled' hi hq bare)

/-- The value of an item depends only on what is upstream of it. Take a run that completes, and
codes that are closed under the dependencies of the graph. The lines of these codes, without any
rules, compile. Their run of the plan completes, and in every period they have the values that they
have in the run of the whole template. -/
theorem execute_only_upstream {t : Template} {codes : List String} {options : Options}
    {switch : Switch} (compiled : Statement.compile t = .ok r.statement)
    (completed : (r.execute plan switch).ending = .completed)
    (closed : ∀ code ∈ codes, r.statement.graph.dependenciesOf code ⊆ codes)
    (start : options.start = r.options.start) :
    ∃ s, Statement.compile (t.only codes) = .ok s ∧
      let outcome := Runner.execute ⟨s, r.functions, options, [], r.source, r.providers⟩ plan switch
      outcome.ending = .completed ∧
        List.Forall₂ (Closing.IsOnly codes) (r.execute plan switch).closings outcome.closings := by
  obtain ⟨s, compiledOnly⟩ := Statement.exists_compile_only compiled codes
  refine ⟨s, compiledOnly, ?_⟩
  have part := Statement.part_of_only compiled compiledOnly closed
  have isCompiled := Statement.isCompiled_of_compile compiled
  have isCompiled' := Statement.isCompiled_of_compile compiledOnly
  let r' : Runner := ⟨s, r.functions, options, [], r.source, r.providers⟩
  -- Both runners load the same source, so the one begins when the other does.
  cases ready : r.calculator plan with
  | error e =>
      rw [execute_eq_of_error ready] at completed
      cases completed
  | ok c =>
      obtain ⟨c', ready', statement', parts⟩ :=
        @exists_calculator_part r r' plan c isCompiled isCompiled' part rfl rfl rfl start ready
      have statement : c.statement = r.statement := by
        obtain ⟨-, raw, -, rfl⟩ := calculator_eq_ok_iff.1 ready
        rfl
      have statement' : c'.statement = s := statement'
      -- Without rules and invariants nothing is left that could stop the run of the part.
      have checks : c'.statement.checks = [] := by
        rw [statement']
        exact Statement.checks_only compiledOnly
      have kept (code : String) :
          code ∈ c'.statement.codes ↔ code ∈ c.statement.codes ∧ code ∈ codes := by
        rw [statement, statement']
        exact Statement.mem_codes_only compiled compiledOnly
      rw [← statement] at isCompiled
      rw [← statement'] at isCompiled'
      show (r'.execute plan switch).ending = .completed ∧
        List.Forall₂ _ _ (r'.execute plan switch).closings
      have history : plan.history r'.options.start = plan.history r.options.start := by
        show plan.history options.start = _
        rw [start]
      rw [execute_eq_of_calculator ready] at completed ⊢
      rw [execute_eq_of_calculator ready', history]
      exact proceed_part isCompiled isCompiled' parts kept checks rfl start switch
        (fun _ _ _ => rfl) (fun asks => asks) completed

set_option maxRecDepth 20000 in
/-- `B` adds `A` to what it was before. Without `C` it has the same values in both periods. -/
theorem execute_only_upstream_two_periods :
    let template : Template :=
      { items := [{ code := "C", formula := some "A+A" },
          { code := "B", formula := some "A+B[t-1]" }, { code := "A" }] }
    let records : List RawInput := [⟨"A", 1, 2.0⟩, ⟨"A", 2, 3.0⟩]
    let plan : Plan := ⟨"E1", 1, [1, 2], some (.ofList [("B", 1.0)]), .empty⟩
    ∃ s s', Statement.compile template = .ok s ∧
      Statement.compile (template.only ["A", "B"]) = .ok s' ∧
      let r : Runner := ⟨s, .standard, {}, [], some fun _ _ => .ok records, []⟩
      let whole := r.execute plan .untouched
      let part := { r with statement := s' }.execute plan .untouched
      whole.closings.map (fun closing => closing.values.toList) =
          [[("A", 2.0), ("B", 3.0), ("C", 4.0)], [("A", 3.0), ("B", 6.0), ("C", 6.0)]] ∧
        part.ending = .completed ∧
        List.Forall₂ (Closing.IsOnly ["A", "B"]) whole.closings part.closings := by
  intro template records plan
  let s : Statement :=
    { code := ""
      items := [
        { code := "C"
          formula := some ⟨"A+A", .binary .add (.reference (.bare "A")) (.reference (.bare "A")),
            [.bare "A"]⟩
          declared := { code := "C", formula := some "A+A" } },
        { code := "B"
          formula := some ⟨"A+B[t-1]",
            .binary .add (.reference (.bare "A")) (.reference ⟨none, "B", -1⟩),
            [.bare "A", ⟨none, "B", -1⟩]⟩
          declared := { code := "B", formula := some "A+B[t-1]" } },
        { code := "A", formula := none, declared := { code := "A" } }]
      order := [2, 0, 1]
      graph := ⟨["C", "B", "A"], [("C", "A"), ("B", "A")]⟩
      checks := [] }
  have compiled : Statement.compile template = .ok s := by
    unfold template s
    cbv
  let r : Runner := ⟨s, .standard, {}, [], some fun _ _ => .ok records, []⟩
  have completed : (r.execute plan .untouched).ending = .completed := by
    unfold r plan records s
    with_unfolding_all rfl
  have closed : ∀ code ∈ ["A", "B"], r.statement.graph.dependenciesOf code ⊆ ["A", "B"] := by
    unfold r s
    decide
  obtain ⟨s', compiled', part⟩ := execute_only_upstream compiled completed closed rfl
  refine ⟨s, s', compiled, compiled', ?_, part⟩
  unfold plan records s
  with_unfolding_all rfl

end Runner

end Rollforward
