import Rollforward.Proofs.Run.Progress
import Rollforward.Registry.Standard

/-!
# `Rollforward.Proofs.Run.Strict`: strict runs and lenient ones

A strict calculator differs from a lenient one in a single place: where the rules of the template
find errors in a period whose items all have values (`Calculator.ruleErrors`), it refuses the
period. It does so before the invariants are looked at. So as long as no errors are found, the two
runs are one (`Runner.closePeriod_inMode`, `Runner.periodCancels_inMode`), and where they are found
first, the strict run ends, whatever the lenient one makes of that period
(`Runner.closePeriod_strict_of_ne_nil`).

`Outcome.FindsErrors` names the periods of the lenient run in which errors are found. The induction
over the periods is in `Runner.proceed_strict`, and `Runner.execute_strict_truncates` is what it
says of whole runs.
-/

set_option autoImplicit false

namespace Rollforward

/-- The calculator with strict mode on or off. -/
def Calculator.inMode (c : Calculator) (strict : Bool) : Calculator :=
  { c with options := { c.options with strict } }

/-- The runner with strict mode on or off. -/
def Runner.inMode (r : Runner) (strict : Bool) : Runner :=
  { r with options := { r.options with strict } }

/-! ### One period -/

namespace Calculator

variable {c : Calculator} {history : Series} {context : Context}

/-- The errors that the rules of the template find in a period, in their order. A period in which
some item has no value is not checked. -/
def ruleErrors (c : Calculator) (history : Series) (context : Context) : List Violation :=
  match c.ledger history context with
  | .error _ => []
  | .ok ledger =>
    (c.check c.statement.checks history context (close c.statement.items ledger)).filter
      Violation.isError

/-- The items of a period are evaluated without regard to the mode. -/
theorem fill_inMode (c : Calculator) (strict : Bool) (history : Series) (context : Context)
    (l : Ledger) (ps : List Nat) :
    (c.inMode strict).fill history context l ps = c.fill history context l ps := by
  induction ps generalizing l with
  | nil => rfl
  | cons p ps ih =>
      rw [fill, fill]
      simp only [ih]
      rfl

/-- Items do not know whether the calculation is strict. -/
theorem fillCancels_inMode (c : Calculator) (strict : Bool) (history : Series) (context : Context)
    (l : Ledger) (ps : List Nat) :
    (c.inMode strict).fillCancels history context l ps = c.fillCancels history context l ps := by
  induction ps generalizing l with
  | nil => rfl
  | cons p ps ih =>
      rw [fillCancels, fillCancels]
      simp only [ih]
      rfl

/-- So the ledger is the same. -/
theorem ledger_inMode (c : Calculator) (strict : Bool) (history : Series) (context : Context) :
    (c.inMode strict).ledger history context = c.ledger history context :=
  fill_inMode c strict history context _ _

/-- And so are the calls that ask for the run to be cancelled, as all rules are evaluated in either
mode. -/
theorem calculateCancels_inMode (c : Calculator) (strict : Bool) (history : Series)
    (context : Context) :
    (c.inMode strict).calculateCancels history context = c.calculateCancels history context := by
  rw [calculateCancels, calculateCancels, ledger_inMode, fillCancels_inMode]
  rfl

/-- A period in which the rules find no errors is calculated alike in both modes. -/
theorem calculateIn_inMode (none : c.ruleErrors history context = []) (strict : Bool) :
    (c.inMode strict).calculateIn history context =
      (c.inMode false).calculateIn history context := by
  unfold ruleErrors at none
  rw [calculateIn, calculateIn, ledger_inMode, ledger_inMode]
  cases filled : c.ledger history context with
  | error e => rfl
  | ok l =>
      rw [filled] at none
      let values := close c.statement.items l
      let found := c.check c.statement.checks history context values
      have none : found.filter Violation.isError = [] := none
      -- Only here is the mode looked at, and there are no errors to refuse the period for.
      show (if strict && (found.filter Violation.isError).isEmpty == false then _ else _) = _
      rw [none]
      cases strict <;> rfl

/-- In strict mode a period in which the rules find errors is refused with them. -/
theorem calculateIn_strict_of_ne_nil (some : c.ruleErrors history context ≠ []) :
    (c.inMode true).calculateIn history context =
      .error (.rulesFailed (c.ruleErrors history context)) := by
  unfold ruleErrors at some ⊢
  rw [calculateIn, ledger_inMode]
  cases filled : c.ledger history context with
  | error e =>
      rw [filled] at some
      exact absurd rfl some
  | ok l =>
      rw [filled] at some
      let values := close c.statement.items l
      let found := c.check c.statement.checks history context values
      have refused : (true && (found.filter Violation.isError).isEmpty == false) = true := by
        simpa using some
      exact if_pos refused

end Calculator

namespace Runner

section Period

variable {c : Calculator} {history : Series} {context : Context}

/-- Without errors among its violations a period is closed alike in both modes. -/
theorem closePeriod_inMode (none : c.ruleErrors history context = []) (strict : Bool)
    (invariants : List Check) :
    closePeriod (c.inMode strict) invariants history context =
      closePeriod (c.inMode false) invariants history context := by
  rw [closePeriod, closePeriod, Calculator.calculateIn_inMode none strict]
  rfl

/-- The invariants are not looked at when the rules of the template have refused the period. -/
theorem closePeriod_strict_of_ne_nil (some : c.ruleErrors history context ≠ [])
    (invariants : List Check) :
    closePeriod (c.inMode true) invariants history context =
      .error (.period (.rulesFailed (c.ruleErrors history context))) := by
  rw [closePeriod, Calculator.calculateIn_strict_of_ne_nil some]

/-- And it asks for the run to be cancelled in the same cases. -/
theorem periodCancels_inMode (none : c.ruleErrors history context = []) (strict : Bool)
    (invariants : List Check) :
    periodCancels (c.inMode strict) invariants history context =
      periodCancels (c.inMode false) invariants history context := by
  rw [periodCancels, periodCancels, Calculator.calculateIn_inMode none strict,
    Calculator.calculateCancels_inMode, Calculator.calculateCancels_inMode]
  rfl

end Period

end Runner

/-! ### The periods in which errors are found -/

/-- The run goes into the period number `k` of those that it is to close: it closes it, or it fails
at it and was not cancelled before. -/
def Outcome.Enters (o : Outcome) (k : Nat) : Prop :=
  k < o.closings.length ∨
    k = o.closings.length ∧ ∃ f, o.ending = .failed f ∧ f.cause ≠ .cancelled

/-- The run goes into the period number `k` of `ps`, all items have values there, and the rules of
the template find `errors`. -/
structure Outcome.FindsErrors (o : Outcome) (c : Calculator) (plan : Plan) (start : Int)
    (index : Nat) (history : Series) (ps : List Nat) (k : Nat) (errors : List Violation) :
    Prop where
  entered : o.Enters k
  found : ∃ p, ps[k]? = some p ∧
    c.ruleErrors (.record history (o.closings.take k)) (plan.contextAt start (index + k) p) = errors
  nonempty : errors ≠ []

namespace Outcome

variable {c : Calculator} {plan : Plan} {start : Int} {index : Nat} {history : Series} {p : Nat}
  {ps : List Nat} {k : Nat} {errors : List Violation} {closing : Closing} {rest : Outcome}

/-- What a run enters behind its first period is what the rest of it enters. -/
theorem enters_succ_iff :
    Enters ⟨closing :: rest.closings, rest.ending, rest.cancelled⟩ (k + 1) ↔ rest.Enters k := by
  simp [Enters]

/-- What is found behind the first period is found in the rest of the run. -/
theorem findsErrors_succ_iff :
    FindsErrors ⟨closing :: rest.closings, rest.ending, rest.cancelled⟩ c plan start index history
        (p :: ps) (k + 1) errors ↔
      rest.FindsErrors c plan start (index + 1)
        (history.insert closing.context.time closing.values) ps k errors := by
  have number : index + (k + 1) = index + 1 + k := by omega
  constructor
  · rintro ⟨entered, found, nonempty⟩
    rw [List.getElem?_cons_succ, number] at found
    exact ⟨enters_succ_iff.1 entered, found, nonempty⟩
  · rintro ⟨entered, found, nonempty⟩
    refine ⟨enters_succ_iff.2 entered, ?_, nonempty⟩
    rw [List.getElem?_cons_succ, number]
    exact found

/-- What is found in the first period. -/
theorem FindsErrors.eq_ruleErrors {o : Outcome}
    (h : o.FindsErrors c plan start index history (p :: ps) 0 errors) :
    errors = c.ruleErrors history (plan.contextAt start index p) := by
  obtain ⟨q, period, found⟩ := h.found
  obtain rfl : p = q := Option.some.inj period
  exact found.symm

/-- A run that closes no period goes into the first at most. -/
theorem FindsErrors.eq_zero {ending : Ending} {cancelled : Bool}
    (h : FindsErrors ⟨[], ending, cancelled⟩ c plan start index history ps k errors) : k = 0 := by
  obtain bound | ⟨last, -⟩ := h.entered
  · exact absurd bound (Nat.not_lt_zero k)
  · exact last

/-- The outcome `strict` is `lenient` when nothing is found in it. Otherwise it ends where something
is found first: the periods before are closed, and that period is refused with what is found. -/
inductive CutAtFirst (finds : Nat → List Violation → Prop) (index : Nat) (ps : List Nat)
    (lenient strict : Outcome) : Prop where
  | never (none : ∀ k errors, ¬finds k errors) (same : strict = lenient)
  | first {k p : Nat} {errors : List Violation} (found : finds k errors)
    (before : ∀ j < k, ∀ others, ¬finds j others) (period : ps[k]? = some p)
    (closings : strict.closings = lenient.closings.take k)
    (ending : strict.ending = .failed ⟨index + k, p, .period (.rulesFailed errors)⟩)

/-- A period closed alike, in which nothing is found, moves the rest of both runs up by one. -/
theorem CutAtFirst.cons {finds finds' : Nat → List Violation → Prop} {lenient strict : Outcome}
    (h : CutAtFirst finds (index + 1) ps lenient strict) (closing : Closing) (p : Nat)
    (here : ∀ errors, ¬finds' 0 errors)
    (later : ∀ k errors, finds' (k + 1) errors ↔ finds k errors) :
    CutAtFirst finds' index (p :: ps)
      ⟨closing :: lenient.closings, lenient.ending, lenient.cancelled⟩
      ⟨closing :: strict.closings, strict.ending, strict.cancelled⟩ := by
  cases h with
  | never none same =>
      refine .never ?_ (by rw [same])
      rintro (_ | k) errors found
      · exact here errors found
      · exact none k errors ((later k errors).1 found)
  | @first k q errors found before period closings ending =>
      refine .first ((later k errors).2 found) ?_ period ?_ ?_
      · rintro (_ | j) hj
        · exact here
        · exact fun others found => before j (Nat.lt_of_succ_lt_succ hj) others
            ((later j others).1 found)
      · rw [closings, List.take_succ_cons]
      · have number : index + (k + 1) = index + 1 + k := by omega
        rw [number]
        exact ending

end Outcome

namespace Runner

/-- A run that is not cancelled before the first of its periods goes into it. -/
theorem enters_zero {r : Runner} {c : Calculator} {plan : Plan} {switch : Switch} {index : Nat}
    {asked : Bool} (unpressed : (asked || switch.pressed index) = false) (history : Series)
    (p : Nat) (ps : List Nat) :
    (r.proceed c plan switch index history asked (p :: ps)).Enters 0 := by
  cases result : closePeriod c r.invariants history (plan.contextAt r.options.start index p) with
  | error e =>
      rw [proceed_cons_of_error unpressed result]
      refine Or.inr ⟨rfl, _, rfl, ?_⟩
      rintro (rfl : e = .cancelled)
      exact closePeriod_ne_cancelled _ _ _ _ result
  | ok closing =>
      rw [proceed_cons_of_closePeriod unpressed result]
      exact Or.inl (Nat.succ_pos _)

/-- The strict run over the periods `ps` is the lenient one, up to the first period of that in which
errors are found. -/
theorem proceed_strict (r : Runner) (c : Calculator) (plan : Plan) (switch : Switch) (index : Nat)
    (history : Series) (asked : Bool) (ps : List Nat) :
    let outcome (strict : Bool) :=
      (r.inMode strict).proceed (c.inMode strict) plan switch index history asked ps
    Outcome.CutAtFirst ((outcome false).FindsErrors c plan r.options.start index history ps) index
      ps (outcome false) (outcome true) := by
  induction ps generalizing index history asked with
  | nil =>
      refine .never ?_ rfl
      rintro k errors ⟨-, ⟨p, period, -⟩, -⟩
      cases period
  | cons p ps ih =>
      intro outcome
      let context := plan.contextAt r.options.start index p
      by_cases pressed : (asked || switch.pressed index) = true
      · -- Neither run goes into the period.
        have stopped : ∀ strict, outcome strict = ⟨[], .failed ⟨index, p, .cancelled⟩, true⟩ :=
          fun strict => proceed_cons_of_pressed pressed history p ps
        refine .never ?_ ((stopped true).trans (stopped false).symm)
        rintro k errors ⟨entered, -, -⟩
        rw [stopped] at entered
        obtain bound | ⟨-, f, failed, cause⟩ := entered
        · cases bound
        · exact cause (congrArg Failure.cause (Ending.failed.inj failed)).symm
      have unpressed := eq_false_of_ne_true pressed
      by_cases none : c.ruleErrors history context = []
      · -- Both calculate the period alike.
        let result := closePeriod (c.inMode false) r.invariants history context
        let asks := switch.shared && periodCancels (c.inMode false) r.invariants history context
        have result_eq : ∀ strict,
            closePeriod (c.inMode strict) r.invariants history context = result :=
          fun strict => closePeriod_inMode none strict r.invariants
        have asks_eq : ∀ strict, (switch.shared &&
            periodCancels (c.inMode strict) r.invariants history context) = asks :=
          fun strict => congrArg (switch.shared && ·) (periodCancels_inMode none strict r.invariants)
        cases calculated : result with
        | error e =>
            have stopped : ∀ strict, outcome strict = ⟨[], .failed ⟨index, p, e⟩, asks⟩ := by
              intro strict
              rw [← asks_eq strict]
              exact proceed_cons_of_error (r := r.inMode strict) unpressed
                ((result_eq strict).trans calculated) ps
            refine .never ?_ ((stopped true).trans (stopped false).symm)
            intro k errors found
            rw [stopped] at found
            obtain rfl := found.eq_zero
            exact found.nonempty (found.eq_ruleErrors.trans none)
        | ok closing =>
            let rest (strict : Bool) := (r.inMode strict).proceed (c.inMode strict) plan switch
              (index + 1) (history.insert closing.context.time closing.values) asks ps
            have next : ∀ strict, outcome strict =
                ⟨closing :: (rest strict).closings, (rest strict).ending,
                  (rest strict).cancelled⟩ := by
              intro strict
              simp only [rest, ← asks_eq strict]
              exact proceed_cons_of_closePeriod (r := r.inMode strict) unpressed
                ((result_eq strict).trans calculated) ps
            rw [next, next]
            refine (ih (index + 1) _ asks).cons closing p ?_ ?_
            · exact fun errors found => found.nonempty (found.eq_ruleErrors.trans none)
            · exact fun k errors => Outcome.findsErrors_succ_iff
      · -- The strict run ends here, whatever the lenient one makes of the period.
        have refused : outcome true = ⟨[], .failed ⟨index, p, _⟩, _⟩ :=
          proceed_cons_of_error (r := r.inMode true) unpressed
            (closePeriod_strict_of_ne_nil none r.invariants) ps
        have entered : (outcome false).Enters 0 :=
          enters_zero (r := r.inMode false) unpressed history p ps
        refine .first (k := 0) ⟨entered, ⟨p, rfl, rfl⟩, none⟩ ?_ rfl ?_ ?_
        · exact fun j hj => absurd hj (Nat.not_lt_zero j)
        · exact congrArg Outcome.closings refused
        · exact congrArg Outcome.ending refused

end Runner

/-! ### Whole runs -/

/-- The run goes into the period number `i` of its plan, where all items have values and the rules
of the template find `errors`. -/
def Outcome.FindsErrorsAt (o : Outcome) (r : Runner) (plan : Plan) (i : Nat)
    (errors : List Violation) : Prop :=
  ∃ c, r.calculator plan = .ok c ∧
    o.FindsErrors c plan r.options.start 0 (plan.history r.options.start) plan.periods i errors

namespace Runner

/-- Strictness is handed on to the calculator and has no part in making it ready. -/
theorem calculator_inMode (r : Runner) (strict : Bool) (plan : Plan) :
    (r.inMode strict).calculator plan = (r.calculator plan).map (·.inMode strict) := by
  have same : (r.inMode strict).rawProvider plan = r.rawProvider plan := rfl
  have start : (r.inMode strict).options.start = r.options.start := rfl
  rw [calculator, calculator, same, start]
  split
  · cases r.rawProvider plan with
    | error e => rfl
    | ok raw => rfl
  · rfl

/-- Strict mode only truncates. When the rules of the template find no errors in the periods that
the lenient run goes into, the strict run is the lenient one. Otherwise let number `i` be the first
of those periods in which they do. The strict run fails there with these errors, also where the
lenient run fails for another reason, and keeps of the lenient run the periods before. -/
theorem execute_strict_truncates (r : Runner) (plan : Plan) (switch : Switch) :
    let lenient := (r.inMode false).execute plan switch
    let strict := (r.inMode true).execute plan switch
    (∀ i errors, ¬lenient.FindsErrorsAt r plan i errors) ∧ strict = lenient ∨
      ∃ i p errors, lenient.FindsErrorsAt r plan i errors ∧
        (∀ j < i, ∀ others, ¬lenient.FindsErrorsAt r plan j others) ∧
        plan.periods[i]? = some p ∧ i ≤ lenient.closings.length ∧
        strict.closings = lenient.closings.take i ∧
        strict.ending = .failed ⟨i, p, .period (.rulesFailed errors)⟩ := by
  intro lenient strict
  cases ready : r.calculator plan with
  | error e =>
      have failed (strict : Bool) : (r.inMode strict).calculator plan = .error e := by
        rw [calculator_inMode, ready]
        rfl
      refine Or.inl ⟨?_, ?_⟩
      · rintro i errors ⟨c, other, -⟩
        cases ready.symm.trans other
      · exact (execute_eq_of_error (failed true) switch).trans
          (execute_eq_of_error (failed false) switch).symm
  | ok c =>
      have outcome (strict : Bool) : (r.inMode strict).execute plan switch =
          (r.inMode strict).proceed (c.inMode strict) plan switch 0 (plan.history r.options.start)
            false plan.periods := by
        refine execute_eq_of_calculator ?_ switch
        rw [calculator_inMode, ready]
        rfl
      -- Both runs have the same calculator behind them, so what they find is found by one.
      have finds_iff : ∀ i errors, lenient.FindsErrorsAt r plan i errors ↔
          lenient.FindsErrors c plan r.options.start 0 (plan.history r.options.start) plan.periods
            i errors := by
        intro i errors
        constructor
        · rintro ⟨c', ready', found⟩
          cases ready.symm.trans ready'
          exact found
        · exact fun found => ⟨c, ready, found⟩
      have cut := proceed_strict r c plan switch 0 (plan.history r.options.start) false plan.periods
      dsimp only at cut
      rw [← outcome, ← outcome] at cut
      simp only [finds_iff]
      cases cut with
      | never none same => exact Or.inl ⟨none, same⟩
      | @first i p errors found before period closings ending =>
          rw [Nat.zero_add] at ending
          have reached : i ≤ lenient.closings.length := by
            obtain bound | ⟨last, -⟩ := found.entered
            · exact Nat.le_of_lt bound
            · exact Nat.le_of_eq last
          exact Or.inr ⟨i, p, errors, found, before, period, reached, closings, ending⟩

set_option maxRecDepth 20000 in
/-- In the second period a rule of the template finds an error, and so does an invariant. The
lenient run fails for the invariant, the strict one for the rule. The warnings of the other rule do
not matter to either. -/
theorem execute_strict_truncates_before_invariant :
    let re : Formula.Expr := .reference (.bare "RE")
    let statement : Statement :=
      { code := ""
        items := [
          { code := "RE"
            formula := some ⟨"RE[t-1]+60",
              .binary .add (.reference ⟨none, "RE", -1⟩) (.number 60.0), [⟨none, "RE", -1⟩]⟩
            declared := { code := "RE", formula := some "RE[t-1]+60" } }]
        order := [0]
        graph := ⟨["RE"], []⟩
        checks := [
          ⟨{ id := "LOW", formula := "RE>2000", severity := .warning },
            .binary .greater re (.number 2000.0)⟩,
          ⟨{ id := "CAP", formula := "1100-RE", kind := .boundary },
            .binary .sub (.number 1100.0) re⟩] }
    let invariants : List Check := [
      ⟨{ id := "BELOW", formula := "RE<1100" }, .binary .less re (.number 1100.0)⟩]
    let r : Runner := ⟨statement, .standard, {}, invariants, none, []⟩
    let plan : Plan := ⟨"E1", 1, [7, 8, 9], some (.ofList [("RE", 1000.0)]), .empty⟩
    let lenient := (r.inMode false).execute plan .untouched
    let strict := (r.inMode true).execute plan .untouched
    let cap : Violation := ⟨"CAP", .boundary, .error, some (-20.0), "rule '1100-RE' failed"⟩
    let below : Violation := ⟨"BELOW", .assertion, .error, some 0.0, "rule 'RE<1100' failed"⟩
    lenient.ending = .failed ⟨1, 8, .invariantsFailed [below]⟩ ∧
      lenient.closings.map (fun closing =>
        (closing.values.toList, closing.violations.map (·.rule))) = [([("RE", 1060.0)], ["LOW"])] ∧
      lenient.FindsErrorsAt r plan 1 [cap] ∧ strict.closings = lenient.closings.take 1 ∧
      strict.ending = .failed ⟨1, 8, .period (.rulesFailed [cap])⟩ := by
  intro re statement invariants r plan lenient strict cap below
  have fails : lenient.ending = .failed ⟨1, 8, .invariantsFailed [below]⟩ := by
    unfold lenient r plan invariants statement re below
    with_unfolding_all rfl
  have refused : strict.ending = .failed ⟨1, 8, .period (.rulesFailed [cap])⟩ := by
    unfold strict r plan invariants statement re cap
    with_unfolding_all rfl
  have kept : lenient.closings.map (fun closing =>
      (closing.values.toList, closing.violations.map (·.rule))) =
        [([("RE", 1060.0)], ["LOW"])] := by
    unfold lenient r plan invariants statement re
    with_unfolding_all rfl
  obtain ⟨-, same⟩ | ⟨i, p, errors, found, -, -, -, closings, ending⟩ :=
    execute_strict_truncates r plan .untouched
  · -- The runs do not fail for the same reason.
    have same : strict.ending = lenient.ending := congrArg Outcome.ending same
    rw [refused, fails] at same
    cases same
  · cases refused.symm.trans ending
    exact ⟨fails, kept, found, closings, ending⟩

end Runner

end Rollforward
