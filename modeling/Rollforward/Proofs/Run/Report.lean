import Rollforward.Proofs.Period.Solution
import Rollforward.Proofs.Run.History
import Rollforward.Registry.Standard
import Rollforward.Run.Report

/-!
# `Rollforward.Proofs.Run.Report`: reports of runs fit together

The parts of a report are written at different moments. `report_eq_ofOutcome` says that they come to
the report of the outcome all the same: while periods are under way the report has the closings so
far and no failure, which is the invariant of the induction over the periods.

`Report.Ended` names the ends that there are, and `Report.Keeps` what there is to a closed period:
whose it is, which codes it has values for, and what it opens with. `report_wellFormed` shows both
of every run.
-/

set_option autoImplicit false

namespace Rollforward

/-! ### Reports of outcomes -/

/-- What a run has reported when it is over. -/
def Report.ofOutcome (o : Outcome) : Report :=
  match o.ending with
  | .completed => ⟨.completed, o.closings, none⟩
  | .failed f => ⟨.failed f.index, o.closings, some f⟩

/-- The periods of a report are those of the outcome. -/
@[simp]
theorem Report.closings_ofOutcome (o : Outcome) : (ofOutcome o).closings = o.closings := by
  unfold ofOutcome
  cases o.ending with
  | completed => rfl
  | failed f => rfl

/-- A period that was closed earlier comes in front and changes nothing else, which is how the
periods of a run add up. -/
theorem Report.ofOutcome_cons (closing : Closing) (o : Outcome) :
    ofOutcome ⟨closing :: o.closings, o.ending, o.cancelled⟩ =
      { ofOutcome o with closings := closing :: o.closings } := by
  unfold ofOutcome
  cases o.ending with
  | completed => rfl
  | failed f => rfl

namespace Runner

variable {r : Runner} {c : Calculator} {plan : Plan} {switch : Switch}

/-- The periods that are left add their closings to the report and end it. -/
theorem track_eq (r : Runner) (c : Calculator) (plan : Plan) (switch : Switch) (index : Nat)
    (history : Series) (asked : Bool) {o : Report} (running : o.failure = none) (ps : List Nat) :
    let rest := r.proceed c plan switch index history asked ps
    r.track c plan switch index history asked o ps =
      { Report.ofOutcome rest with closings := o.closings ++ rest.closings } := by
  induction ps generalizing index history asked o with
  | nil =>
      rw [track, proceed, Report.complete, running]
      simp [Report.ofOutcome]
  | cons p ps ih =>
      rw [track, proceed]
      by_cases pressed : (asked || switch.pressed index) = true
      · rw [if_pos pressed, if_pos pressed]
        simp [Report.ofOutcome, Report.fail]
      · rw [if_neg pressed, if_neg pressed]
        dsimp only
        cases closePeriod c r.invariants history
            ⟨plan.entity, plan.scenario, p, r.options.start + index⟩ with
        | error e => simp [Report.ofOutcome, Report.fail, Report.enter]
        | ok closing =>
            dsimp only
            -- Neither getting under way nor closing a period touches the failure.
            have still : ((o.enter index).keep closing).failure = none := running
            rw [ih _ _ _ still, Report.ofOutcome_cons]
            simp [Report.keep, Report.enter]

/-- A run reports its outcome. -/
theorem report_eq_ofOutcome (r : Runner) (plan : Plan) (switch : Switch) :
    r.report plan switch = .ofOutcome (r.execute plan switch) := by
  unfold report execute
  cases r.calculator plan with
  | error e => rfl
  | ok c =>
      dsimp only
      rw [track_eq r c plan switch 0 _ false rfl plan.periods, ← Report.closings_ofOutcome]
      rfl

end Runner

/-! ### Ends -/

/-- The run gets to its first period: the clock has room for the plan, and the raw inputs are there.
-/
def Runner.Begins (r : Runner) (plan : Plan) : Prop :=
  plan.fits r.options.start = true ∧ ∃ raw, r.rawProvider plan = .ok raw

/-- The ends that a run can have, by what its report says then. -/
inductive Report.Ended (o : Report) (r : Runner) (plan : Plan) : Prop where
  /-- Every period is closed. -/
  | completed (begun : r.Begins plan) (status : o.status = .completed) (failure : o.failure = none)
      (closings : o.closings.length = plan.periods.length)
  /-- The period of the failure is not closed, and those before it are. -/
  | failed (begun : r.Begins plan) (f : Failure) (status : o.status = .failed f.index)
      (failure : o.failure = some f) (closings : o.closings.length = f.index)
      (period : plan.periods[f.index]? = some f.period)
  /-- The failure counts for the first period, or for none if there is none. -/
  | blocked (unready : ¬r.Begins plan) (f : Failure) (status : o.status = .failed 0)
      (failure : o.failure = some f) (closings : o.closings = []) (index : f.index = 0)
      (period : f.period = plan.periods.head?.getD 0)

namespace Runner

variable {r : Runner} {plan : Plan} {switch : Switch}

/-- Every run ends in one of the ways that `Ended` names, and its status says in which. -/
theorem ended_report (r : Runner) (plan : Plan) (switch : Switch) :
    (r.report plan switch).Ended r plan := by
  rw [report_eq_ofOutcome]
  cases ready : r.calculator plan with
  | error e =>
      have unready : ¬r.Begins plan := by
        rintro ⟨fits, raw, loaded⟩
        have begun := calculator_eq_ok_iff.2 ⟨fits, raw, loaded, rfl⟩
        rw [ready] at begun
        cases begun
      rw [execute_eq_of_error ready]
      exact .blocked unready _ rfl rfl rfl rfl rfl
  | ok c =>
      obtain ⟨fits, raw, loaded, -⟩ := calculator_eq_ok_iff.1 ready
      have begun : r.Begins plan := ⟨fits, raw, loaded⟩
      have unfolds := unfolds_execute ready switch
      cases ending : (r.execute plan switch).ending with
      | completed =>
          have all := unfolds.completed ending
          simp only [Report.ofOutcome, ending]
          exact .completed begun rfl rfl all
      | failed f =>
          obtain ⟨index, period, -⟩ := unfolds.failed f ending
          rw [Nat.zero_add] at index
          rw [← index] at period
          simp only [Report.ofOutcome, ending]
          exact .failed begun f rfl rfl index.symm period

end Runner

/-! ### Closed periods -/

/-- The closed period number `j` in the report of a run. -/
structure Report.Keeps (o : Report) (r : Runner) (t : Template) (plan : Plan) (j : Nat)
    (closing : Closing) : Prop where
  context : ∃ p, plan.periods[j]? = some p ∧
    closing.context = ⟨plan.entity, plan.scenario, p, r.options.start + j⟩
  /-- There is a value for every item of the template and for no other code. -/
  codes : ∀ code, closing.values.contains code = true ↔
    ∃ line ∈ t.items, Text.trim line.code = code
  /-- The first period opens with the opening of the plan, or else with what the plan assumes for
  the time before. -/
  opening_first : j = 0 → closing.opening =
    plan.opening.or ((Clock.shift? r.options.start (-1)).bind plan.lookahead.get?)
  /-- Every other period opens with what the one before closed with. -/
  opening_next : ∀ i, j = i + 1 →
    ∃ before, o.closings[i]? = some before ∧ closing.opening = some before.values

namespace Runner

variable {r : Runner} {c : Calculator} {t : Template} {plan : Plan} {switch : Switch}

/-- A closed period has a value for each line of the template and for no other code. -/
theorem contains_of_closePeriod (compiled : Statement.compile t = .ok c.statement)
    {invariants : List Check} {history : Series} {context : Context} {closing : Closing}
    (closed : closePeriod c invariants history context = .ok closing) (code : String) :
    closing.values.contains code = true ↔ ∃ line ∈ t.items, Text.trim line.code = code := by
  obtain ⟨calculated, ok, -, rfl⟩ := closePeriod_eq_ok closed
  have solves :=
    Calculator.solves_of_calculateIn (Statement.isCompiled_of_compile compiled) ok
  rw [solves.codes, ← List.mem_map, ← List.mem_map, ← Statement.codes_of_compile compiled]
  rfl

/-- Before the first period there is the opening of the plan, or what the plan assumes. -/
theorem snapshotAt?_opening (plan : Plan) (start : Int) :
    plan.snapshotAt? start [] (-1) =
      plan.opening.or ((Clock.shift? start (-1)).bind plan.lookahead.get?) := by
  unfold Plan.snapshotAt?
  rw [if_neg (by omega)]
  cases plan.opening with
  | none => rfl
  | some values => rfl

/-- Before every other period there is the period before. -/
theorem snapshotAt?_before {closed : List Closing} {i : Nat} {before : Closing}
    (last : closed.length = i + 1) (found : closed[i]? = some before) (plan : Plan) (start : Int) :
    plan.snapshotAt? start closed i = some before.values := by
  unfold Plan.snapshotAt?
  rw [if_pos (by omega), Int.toNat_natCast, found]
  rfl

/-- A closed period opens with what there was before it. -/
theorem opening_eq_snapshotAt? (onClock : Clock.lowest ≤ r.options.start) {j : Nat}
    {closing : Closing} (kept : (r.execute plan switch).closings[j]? = some closing) :
    closing.opening = plan.snapshotAt? r.options.start
      ((r.execute plan switch).closings.take j) (j + (-1)) := by
  obtain ⟨c, p, ready, period, closed⟩ := exists_closePeriod_of_execute kept
  obtain ⟨-, opening⟩ := context_opening_of_closePeriod closed
  have times := (consecutive_closings (unfolds_execute ready switch)).take j
  have length : ((r.execute plan switch).closings.take j).length = j :=
    List.length_take_of_le (Nat.le_of_lt (List.getElem?_eq_some_iff.1 kept).1)
  have left : ((r.execute plan switch).closings.take j).length < plan.periods.length := by
    rw [length]
    exact (List.getElem?_eq_some_iff.1 period).1
  -- The time before a period is one step back from it, or `j - 1` steps from the first.
  rw [opening, ← Plan.shift?_historyAfter times onClock (calculator_eq_ok ready).1 left,
    ← Clock.shift?_add]
  rfl

/-- What there is to the period that stands at a place of the report. The place says which period of
the plan it was. -/
theorem keeps_report (compiled : Statement.compile t = .ok r.statement)
    (onClock : Clock.lowest ≤ r.options.start) (plan : Plan) (switch : Switch) {j : Nat}
    {closing : Closing} (kept : (r.report plan switch).closings[j]? = some closing) :
    (r.report plan switch).Keeps r t plan j closing := by
  rw [report_eq_ofOutcome] at kept ⊢
  rw [Report.closings_ofOutcome] at kept
  have opens := opening_eq_snapshotAt? onClock kept
  obtain ⟨c, p, ready, period, closed⟩ := exists_closePeriod_of_execute kept
  constructor
  case context => exact ⟨p, period, context_of_closePeriod closed⟩
  case codes =>
    rw [← (calculator_eq_ok ready).2] at compiled
    exact contains_of_closePeriod compiled closed
  case opening_first =>
    rintro rfl
    rw [opens]
    exact snapshotAt?_opening plan r.options.start
  case opening_next =>
    rintro i rfl
    have bound := (List.getElem?_eq_some_iff.1 kept).1
    obtain ⟨before, found⟩ : ∃ before, (r.execute plan switch).closings[i]? = some before :=
      ⟨_, List.getElem?_eq_getElem (by omega)⟩
    -- One step back from a period is the period before, which is closed already.
    have time : ((i + 1 : Nat) : Int) + (-1) = i := by omega
    rw [Report.closings_ofOutcome]
    refine ⟨before, found, ?_⟩
    rw [opens, time]
    refine snapshotAt?_before (List.length_take_of_le (Nat.le_of_lt bound)) ?_ plan _
    rw [List.getElem?_take_of_lt (Nat.lt_succ_self i), found]

/-- A run reports its outcome: it is completed without a failure and has closed every period, or it
reports the failure of the first period that it did not close, at the number where its status
stands. It never ends pending or running. A closed period is about the entity and the scenario of
the plan at its own time, has a value for every item of the template and for nothing else, and opens
with what the one before closed with; the first opens with the opening of the plan, or with what the
plan assumes if it gives none. -/
theorem report_wellFormed (compiled : Statement.compile t = .ok r.statement)
    (onClock : Clock.lowest ≤ r.options.start) (plan : Plan) (switch : Switch) :
    let o := r.report plan switch
    o = .ofOutcome (r.execute plan switch) ∧ o.Ended r plan ∧ o.status.isTerminal = true ∧
      ∀ j closing, o.closings[j]? = some closing → o.Keeps r t plan j closing := by
  intro o
  have ended := ended_report r plan switch
  refine ⟨report_eq_ofOutcome r plan switch, ended, ?_,
    fun j closing kept => keeps_report compiled onClock plan switch kept⟩
  show (r.report plan switch).status.isTerminal = true
  cases ended with
  | completed begun status failure closings =>
      rw [status]
      rfl
  | failed begun f status failure closings period =>
      rw [status]
      rfl
  | blocked unready f status failure closings index period =>
      rw [status]
      rfl

set_option maxRecDepth 20000 in
/-- A run that is cancelled before its third period. The second one opens with the first. -/
theorem report_wellFormed_cancelled :
    let template : Template :=
      { items := [{ code := " RE", formula := some "RE[t-1]+NI" }, { code := "NI" }] }
    ∃ s, Statement.compile template = .ok s ∧
      let r : Runner := ⟨s, .standard, {}, [], none, [.fixed (.ofList [("NI", 40.0)])]⟩
      let plan : Plan := ⟨"E1", 1, [7, 8, 9], some (.ofList [("RE", 1000.0)]), .empty⟩
      let o := r.report plan ⟨fun index => index == 2, false⟩
      o.status = .failed 2 ∧
        o.closings.map (fun closing => closing.values.toList) =
          [[("NI", 40.0), ("RE", 1040.0)], [("NI", 40.0), ("RE", 1080.0)]] ∧
        o.Ended r plan ∧ o.status.isTerminal = true ∧
        ∀ j closing, o.closings[j]? = some closing → o.Keeps r template plan j closing := by
  intro template
  let s : Statement :=
    { code := ""
      items := [
        { code := "RE"
          formula := some ⟨"RE[t-1]+NI",
            .binary .add (.reference ⟨none, "RE", -1⟩) (.reference (.bare "NI")),
            [.bare "NI", ⟨none, "RE", -1⟩]⟩
          declared := { code := " RE", formula := some "RE[t-1]+NI" } },
        { code := "NI", formula := none, declared := { code := "NI" } }]
      order := [1, 0]
      graph := ⟨["RE", "NI"], [("RE", "NI")]⟩
      checks := [] }
  have compiled : Statement.compile template = .ok s := by
    unfold template s
    cbv
  refine ⟨s, compiled, ?_⟩
  intro r plan o
  have compiled : Statement.compile template = .ok r.statement := compiled
  obtain ⟨-, wellFormed⟩ := report_wellFormed compiled (by decide) plan ⟨fun i => i == 2, false⟩
  refine ⟨?_, ?_, wellFormed⟩
  · unfold o r plan s
    with_unfolding_all rfl
  · unfold o r plan s
    with_unfolding_all rfl

end Runner

end Rollforward
