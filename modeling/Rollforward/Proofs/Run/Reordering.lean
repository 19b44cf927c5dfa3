import Rollforward.Proofs.Period.Part
import Rollforward.Proofs.Run.Simulation
import Rollforward.Registry.Standard

/-!
# `Rollforward.Proofs.Run.Reordering`: the order of the lines does not matter

With its lines in another order a template has its items at other positions, and they are evaluated
in another order. But each of the two statements is a part of the other, so a period has a ledger
for both or for neither, and both close it with the same values (`Reordered.closePeriod_cases`).
Where neither has a ledger, an item has no value. Which item that is, is all that the order decides.

`execute_perm` carries this through the periods of a run.
-/

set_option autoImplicit false

namespace Rollforward

/-- An item of a period has no value. -/
def RunError.IsItem (e : RunError) : Prop :=
  ∃ code sourceText fault, e = .period (.item code sourceText fault)

/-- The endings are the same, up to the item that has no value in the period that failed. -/
inductive Ending.SameUpToItem : Ending → Ending → Prop where
  | same (e : Ending) : SameUpToItem e e
  | item (index period : Nat) {e e' : RunError} (cause : e.IsItem) (cause' : e'.IsItem) :
    SameUpToItem (.failed ⟨index, period, e⟩) (.failed ⟨index, period, e'⟩)

/-- The relation on endings that the simulation gives is the one that the statement is about. -/
theorem Ending.SameUpToItem.of_related {a b : Ending}
    (h : a.Related (fun e e' => e = e' ∨ e.IsItem ∧ e'.IsItem) b) : a.SameUpToItem b := by
  cases h with
  | completed => exact .same _
  | failed index period causes =>
      obtain rfl | ⟨cause, cause'⟩ := causes
      · exact .same _
      · exact .item index period cause cause'

/-! ### Periods -/

/-- Without a ledger a period is not closed, whatever the rules of the run are. -/
theorem Runner.closePeriod_of_ledger_error {c : Calculator} {history : Series} {context : Context}
    {e : PeriodError} (h : c.ledger history context = .error e) (invariants : List Check) :
    closePeriod c invariants history context = .error (.period e) := by
  rw [closePeriod, Calculator.calculateIn, h]

namespace Calculator

/-- The calculators differ at most in the order of their items. -/
structure Reordered (c c' : Calculator) : Prop where
  part : c.statement.Part c'.statement
  whole : c'.statement.Part c.statement
  checks : c'.statement.checks = c.statement.checks
  functions : c'.functions = c.functions
  options : c'.options = c.options
  providers : c'.providers = c.providers

namespace Reordered

variable {c c' : Calculator} {history : Series} {context : Context} {l : Ledger}

/-- Each of the two statements is a part of the other, so the relation goes both ways. -/
theorem symm (h : c.Reordered c') : c'.Reordered c :=
  ⟨h.whole, h.part, h.checks.symm, h.functions.symm, h.options.symm, h.providers.symm⟩

/-- A period that has a ledger for the one has a ledger for the other, and it closes into the same
values. -/
theorem exists_ledger (h : c.Reordered c') (compiled : c.statement.IsCompiled)
    (compiled' : c'.statement.IsCompiled) (ledger : c.ledger history context = .ok l) :
    ∃ l', c'.ledger history context = .ok l' ∧
      close c'.statement.items l' = close c.statement.items l := by
  have solves := solves_close compiled ledger
  have part : Part context c c' := by
    refine ⟨h.part, h.functions.symm, fun i hi r hr => ?_⟩
    rw [h.providers]
  refine ⟨_, part.ledger_eq compiled compiled' (fun _ _ _ => rfl) solves, ?_⟩
  refine Collection.OrderedMap.ext_get? fun code => ?_
  rw [get?_close_ofValues compiled']
  by_cases known : code ∈ c'.statement.codes
  · rw [if_pos known]
  · -- What is no item has no value in either of them.
    rw [if_neg known]
    refine (get?_eq_none_of_solves solves ?_).symm
    rintro ⟨i, hi, rfl⟩
    exact known (h.whole.codes (List.mem_map_of_mem hi))

/-- Rules see the closed values, which are the same, and never the positions of items. -/
theorem check_eq (h : c.Reordered c') (rules : List Check) (values : Snapshot) :
    c'.check rules history context values = c.check rules history context values := by
  rw [check, check, ruleEnvironment, ruleEnvironment, h.providers, h.functions, h.options]

/-- Both close a period alike or fail to in the same way, unless it has an item without a value for
both. -/
theorem closePeriod_cases (h : c.Reordered c') (compiled : c.statement.IsCompiled)
    (compiled' : c'.statement.IsCompiled) (invariants : List Check) (history : Series)
    (context : Context) :
    Runner.closePeriod c' invariants history context =
        Runner.closePeriod c invariants history context ∨
      ∃ e e', Runner.closePeriod c invariants history context = .error e ∧
        Runner.closePeriod c' invariants history context = .error e' ∧ e.IsItem ∧ e'.IsItem := by
  cases ledger : c.ledger history context with
  | ok l =>
      obtain ⟨l', ledger', same⟩ := h.exists_ledger compiled compiled' ledger
      refine Or.inl ?_
      rw [Runner.closePeriod, Runner.closePeriod, calculateIn, calculateIn, ledger, ledger']
      simp only [same, h.check_eq, h.checks, h.options]
  | error e =>
      cases ledger' : c'.ledger history context with
      | ok l' =>
          obtain ⟨l, other, -⟩ := h.symm.exists_ledger compiled' compiled ledger'
          cases ledger.symm.trans other
      | error e' =>
          -- No position is written twice, so for both it is an item that has no value.
          obtain ⟨i, -, fault, rfl⟩ := exists_item_of_ledger_error compiled ledger
          obtain ⟨i', -, fault', rfl⟩ := exists_item_of_ledger_error compiled' ledger'
          have failed := Runner.closePeriod_of_ledger_error ledger invariants
          have failed' := Runner.closePeriod_of_ledger_error ledger' invariants
          exact Or.inr ⟨_, _, failed, failed', ⟨_, _, _, rfl⟩, ⟨_, _, _, rfl⟩⟩

end Reordered

end Calculator

/-! ### Runs -/

namespace Runner

variable {r r' : Runner} {plan : Plan} {c c' : Calculator}

/-- The periods of a plan run alike, up to the item without a value where the run fails. -/
theorem proceed_reordered (h : c.Reordered c') (compiled : c.statement.IsCompiled)
    (compiled' : c'.statement.IsCompiled) (options : r'.options = r.options)
    (invariants : r'.invariants = r.invariants) (pressed : Nat → Bool) (index : Nat)
    (history : Series) (asked : Bool) (ps : List Nat) :
    let outcome := r.proceed c plan ⟨pressed, false⟩ index history asked ps
    let outcome' := r'.proceed c' plan ⟨pressed, false⟩ index history asked ps
    outcome'.closings = outcome.closings ∧ outcome'.cancelled = outcome.cancelled ∧
      outcome.ending.SameUpToItem outcome'.ending := by
  have related : (r.proceed c plan ⟨pressed, false⟩ index history asked ps).Related Eq
      (fun e e' => e = e' ∨ e.IsItem ∧ e'.IsItem)
      (r'.proceed c' plan ⟨pressed, false⟩ index history asked ps) := by
    refine proceed_related Eq (Or.inl rfl) ?_ rfl asked
    rintro k p - history _ rfl
    rw [options]
    refine ⟨?results, ?asks, ?histories⟩
    case results =>
      rw [invariants]
      obtain same | ⟨e, e', failed, failed', items⟩ := h.closePeriod_cases compiled compiled'
        r.invariants history (plan.contextAt r.options.start (index + k) p)
      · rw [same]
        cases closePeriod c r.invariants history
            (plan.contextAt r.options.start (index + k) p) with
        | error e => exact .error (Or.inl rfl)
        | ok closing => exact .ok rfl
      · rw [failed, failed']
        exact .error (Or.inr items)
    -- The switch is not shared, so no function can press it.
    case asks =>
      intro shared
      cases shared
    case histories =>
      rintro a _ rfl
      rfl
  exact ⟨(List.forall₂_eq_eq_eq ▸ related.closings).symm, related.cancelled.symm,
    .of_related related.ending⟩

/-- Runners whose statements are parts of each other fail to begin for the same reason, or begin
with calculators that differ in the order of the items. -/
theorem calculator_reordered (part : r.statement.Part r'.statement)
    (whole : r'.statement.Part r.statement) (compiled : r.statement.IsCompiled)
    (compiled' : r'.statement.IsCompiled) (checks : r'.statement.checks = r.statement.checks)
    (functions : r'.functions = r.functions) (options : r'.options = r.options)
    (source : r'.source = r.source) (providers : r'.providers = r.providers) (plan : Plan) :
    (∃ e, r.calculator plan = .error e ∧ r'.calculator plan = .error e) ∨
      ∃ c c', r.calculator plan = .ok c ∧ r'.calculator plan = .ok c' ∧ c.Reordered c' ∧
        c.statement = r.statement ∧ c'.statement = r'.statement := by
  have claims := part.claims_eq whole compiled.codes_nodup compiled'.codes_nodup
  have raw : r'.rawProvider plan = r.rawProvider plan := by
    rw [rawProvider, rawProvider, source, options, claims]
  rw [calculator, calculator, raw, functions, options, providers]
  by_cases fits : plan.fits r.options.start = true
  · rw [if_pos fits, if_pos fits]
    cases r.rawProvider plan with
    | error e => exact Or.inl ⟨e, rfl, rfl⟩
    | ok chain => exact Or.inr ⟨_, _, rfl, rfl, ⟨part, whole, checks, rfl, rfl, rfl⟩, rfl, rfl⟩
  · rw [if_neg fits, if_neg fits]
    exact Or.inl ⟨_, rfl, rfl⟩

/-- The order of the lines of a template does not matter. With the lines in another order it
compiles as well or as little. Both statements run any plan to the same closed periods, with their
values, openings and violations, and to the same end; only where an item has no value another one
may be named. -/
theorem execute_perm {t : Template} {lines : List LineItem} (perm : t.items.Perm lines) :
    ((∃ s, Statement.compile t = .ok s) ↔
        ∃ s, Statement.compile { t with items := lines } = .ok s) ∧
      ∀ s s', Statement.compile t = .ok s → Statement.compile { t with items := lines } = .ok s' →
        ∀ functions options invariants source providers plan pressed,
          let outcome := Runner.execute ⟨s, functions, options, invariants, source, providers⟩ plan
            ⟨pressed, false⟩
          let outcome' := Runner.execute ⟨s', functions, options, invariants, source, providers⟩
            plan ⟨pressed, false⟩
          outcome'.closings = outcome.closings ∧ outcome'.cancelled = outcome.cancelled ∧
            outcome.ending.SameUpToItem outcome'.ending := by
  let t' : Template := { t with items := lines }
  have back : t'.items.Perm t.items := perm.symm
  constructor
  · constructor
    · rintro ⟨s, compiled⟩
      exact Statement.exists_compile_of_perm perm rfl compiled
    · rintro ⟨s, compiled⟩
      exact Statement.exists_compile_of_perm back rfl compiled
  · intro s s' compiled compiled' functions options invariants source providers plan pressed
    have isCompiled := Statement.isCompiled_of_compile compiled
    have isCompiled' := Statement.isCompiled_of_compile compiled'
    -- The rules stand in the template beside the lines, and reading them needs no line.
    have checks : s'.checks = s.checks := by
      have read := Statement.checks_of_compile compiled
      exact Except.ok.inj ((Statement.checks_of_compile compiled').symm.trans read)
    have part := Statement.part_of_perm perm compiled compiled'
    have whole := Statement.part_of_perm back compiled' compiled
    let r : Runner := ⟨s, functions, options, invariants, source, providers⟩
    let r' : Runner := ⟨s', functions, options, invariants, source, providers⟩
    show (r'.execute plan _).closings = (r.execute plan _).closings ∧
      (r'.execute plan _).cancelled = (r.execute plan _).cancelled ∧
      (r.execute plan _).ending.SameUpToItem (r'.execute plan _).ending
    obtain ⟨e, failed, failed'⟩ | ⟨c, c', ready, ready', reordered, rfl, rfl⟩ :=
      @calculator_reordered r r' part whole isCompiled isCompiled' checks rfl rfl rfl rfl plan
    · rw [execute_eq_of_error failed, execute_eq_of_error failed']
      exact ⟨rfl, rfl, .same _⟩
    · rw [execute_eq_of_calculator ready, execute_eq_of_calculator ready']
      exact @proceed_reordered r r' plan c c' reordered isCompiled isCompiled' rfl rfl pressed 0 _
        false _

set_option maxRecDepth 20000 in
/-- With its lines backwards the template runs to the same values. When nobody has a value for `A`
or `B`, each of the two templates names the one that it lists first. -/
theorem execute_perm_backwards :
    let template : Template :=
      { items := [{ code := "A" }, { code := "C", formula := some "B+A" }, { code := "B" }] }
    let plan : Plan := ⟨"E1", 1, [7], none, .empty⟩
    let values : Provider := .fixed (.ofList [("A", 1.0), ("B", 2.0)])
    let run (s : Statement) (providers : Chain) : Outcome :=
      Runner.execute ⟨s, .standard, {}, [], none, providers⟩ plan ⟨fun _ => false, false⟩
    ∃ s s', Statement.compile template = .ok s ∧
      Statement.compile { template with items := template.items.reverse } = .ok s' ∧
      s.order = [0, 2, 1] ∧ s'.order = [0, 2, 1] ∧
      (run s [values]).closings.map (fun closing => closing.values.toList) =
        [[("A", 1.0), ("B", 2.0), ("C", 3.0)]] ∧
      (run s' [values]).closings = (run s [values]).closings ∧
      (run s []).ending =
        .failed ⟨0, 7, .period (.item "A" "" (.unresolved (.bare "A")))⟩ ∧
      (run s' []).ending =
        .failed ⟨0, 7, .period (.item "B" "" (.unresolved (.bare "B")))⟩ ∧
      (run s []).ending.SameUpToItem (run s' []).ending := by
  intro template plan values run
  let a : Statement.Item := ⟨"A", none, { code := "A" }⟩
  let b : Statement.Item := ⟨"B", none, { code := "B" }⟩
  let sum : Statement.Item :=
    { code := "C"
      formula := some ⟨"B+A", .binary .add (.reference (.bare "B")) (.reference (.bare "A")),
        [.bare "A", .bare "B"]⟩
      declared := { code := "C", formula := some "B+A" } }
  let s : Statement :=
    ⟨"", [a, sum, b], [0, 2, 1], ⟨["A", "C", "B"], [("C", "A"), ("C", "B")]⟩, []⟩
  let s' : Statement :=
    ⟨"", [b, sum, a], [0, 2, 1], ⟨["B", "C", "A"], [("C", "A"), ("C", "B")]⟩, []⟩
  have compiled : Statement.compile template = .ok s := by
    unfold template s a b sum
    cbv
  have compiled' :
      Statement.compile { template with items := template.items.reverse } = .ok s' := by
    unfold template s' a b sum
    cbv
  have same (providers : Chain) := (execute_perm (List.reverse_perm template.items).symm).2 s s'
    compiled compiled' .standard {} [] none providers plan fun _ => false
  refine ⟨s, s', compiled, compiled', rfl, rfl, ?_, (same [values]).1, ?_, ?_, (same []).2.2⟩
  · unfold run values plan s a b sum
    with_unfolding_all rfl
  · unfold run plan s a b sum
    with_unfolding_all rfl
  · unfold run plan s' a b sum
    with_unfolding_all rfl

end Runner

end Rollforward
