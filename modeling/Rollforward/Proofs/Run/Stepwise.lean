import Rollforward.Proofs.Period.Correspondence
import Rollforward.Proofs.Run.History

/-!
# `Rollforward.Proofs.Run.Stepwise`: a run is its periods, calculated one by one

A calculator can be asked for one period at a time, each opened with what the one before closes with
(`Calculator.calculateEach`). It then knows the period before and no other, while a run knows all
the periods that it has closed.

The difference does not show in a statement that looks back one period at most. What is read lies at
the time before the period or later, and there the history of a run has the opening and nothing else
(`Series.AgreeFrom`). A period recorded in it moves this time up by one
(`Series.agreeFrom_insert`). `Runner.execute_eq_calculateEach` follows by induction over the
periods.
-/

set_option autoImplicit false

namespace Rollforward

open Formula (Reference)

/-! ### Periods one by one -/

/-- The periods of a plan from number `index` on, calculated one by one. The first is opened with
`opening`, the others with what the one before closes with. The first that fails is the last. -/
def Calculator.calculateEach (c : Calculator) (plan : Plan) (start : Int) (index : Nat)
    (opening : Option Snapshot) : List Nat → List Closing × Ending
  | [] => ([], .completed)
  | p :: ps =>
    match c.calculate opening (plan.contextAt start index p) with
    | .error e => ([], .failed ⟨index, p, .period e⟩)
    | .ok closing =>
      let rest := calculateEach c plan start (index + 1) (some closing.values) ps
      (closing :: rest.1, rest.2)

namespace Calculator

variable {c : Calculator} {plan : Plan} {start : Int} {index p : Nat} {opening : Option Snapshot}
  {result : Except RunError Closing}

/-- Period by period too, the first period that fails is the last one. -/
theorem calculateEach_cons_of_error
    (alone : result = (c.calculate opening (plan.contextAt start index p)).mapError .period)
    {e : RunError} (failed : result = .error e) (ps : List Nat) :
    c.calculateEach plan start index opening (p :: ps) = ([], .failed ⟨index, p, e⟩) := by
  rw [calculateEach]
  cases calculated : c.calculate opening (plan.contextAt start index p) with
  | error fault =>
      rw [alone, calculated] at failed
      rw [← Except.error.inj failed]
  | ok closing =>
      rw [alone, calculated] at failed
      cases failed

/-- A period that is closed becomes the opening of the next, and this is all that the next one is
given of it. -/
theorem calculateEach_cons_of_ok
    (alone : result = (c.calculate opening (plan.contextAt start index p)).mapError .period)
    {closing : Closing} (closed : result = .ok closing) (ps : List Nat) :
    let rest := c.calculateEach plan start (index + 1) (some closing.values) ps
    c.calculateEach plan start index opening (p :: ps) = (closing :: rest.1, rest.2) := by
  rw [calculateEach]
  cases calculated : c.calculate opening (plan.contextAt start index p) with
  | error fault =>
      rw [alone, calculated] at closed
      cases closed
  | ok _ =>
      rw [alone, calculated] at closed
      rw [Except.ok.inj closed]

end Calculator

/-! ### Histories -/

namespace Series

/-- The series have the same at `t` and at all later times. -/
def AgreeFrom (t : Int) (s s' : Series) : Prop := ∀ u, t ≤ u → s.get? u = s'.get? u

/-- The series with the opening of the period at `t`, if there is any, and nothing else. -/
def ofOpening (opening : Option Snapshot) (t : Int) : Series :=
  match opening with
  | none => .empty
  | some values => Collection.OrderedMap.empty.insert (t - 1) values

variable {t : Int} {s s' : Series}

/-- Histories that agree from some time on answer alike what looks back no further. -/
theorem AgreeFrom.resolve_eq (h : AgreeFrom t s s') {r : Reference} {context : Context}
    (reads : t ≤ context.time + r.offset) : s.resolve r context = s'.resolve r context := by
  refine resolve_congr ?_
  rw [value?_eq_bind, value?_eq_bind, h _ reads]

/-- What a period closes with is the opening of the next one. -/
theorem agreeFrom_insert {opening : Option Snapshot} (h : AgreeFrom (t - 1) s (ofOpening opening t))
    (values : Snapshot) : AgreeFrom t (s.insert t values) (ofOpening (some values) (t + 1)) := by
  have time : t + 1 - 1 = t := by omega
  have later : ∀ u, t < u → (ofOpening opening t).get? u = none := by
    intro u hu
    cases opening with
    | none => rfl
    | some before => exact Collection.OrderedMap.get?_insert_of_ne _ before (by omega)
  intro u hu
  unfold ofOpening
  dsimp only
  rw [time]
  by_cases here : u = t
  · rw [here, Collection.OrderedMap.get?_insert_self, Collection.OrderedMap.get?_insert_self]
  · rw [Collection.OrderedMap.get?_insert_of_ne _ _ here,
      Collection.OrderedMap.get?_insert_of_ne _ _ here, h u (by omega), later u (by omega)]
    rfl

end Series

/-! ### One period -/

/-- No formula of the period looks back more than one period. -/
def Statement.LooksBackOnce (s : Statement) (invariants : List Check) : Prop :=
  ∀ e ∈ s.formulas invariants, ∀ r ∈ e.references, r.source = none → -1 ≤ r.offset

/-- A statement that looks back once asks for nothing before the last period. -/
theorem Statement.LooksBackOnce.le_offset {s : Statement} {invariants : List Check}
    (recent : s.LooksBackOnce invariants) {r : Reference} (asked : r ∈ s.asked invariants)
    (bare : r.source = none) : -1 ≤ r.offset := by
  obtain ⟨e, he, read⟩ | ⟨i, -, -, rfl⟩ := Statement.mem_asked_iff.1 asked
  · exact recent e he r read bare
  · show (-1 : Int) ≤ 0
    decide

namespace Calculator

variable {c : Calculator} {invariants : List Check} {context : Context} {history history' : Series}

/-- Histories that agree from the time before the period on cannot be told apart in it. -/
theorem correspondIn_of_agreeFrom (recent : c.statement.LooksBackOnce invariants)
    (agree : Series.AgreeFrom (context.time - 1) history history') :
    CorrespondIn Eq invariants c c history history' context context where
  statements := .refl _
  functions := rfl
  steady := .refl _ _
  strict := rfl
  tolerance := rfl
  items := by
    intro l r asked
    refine .of_eq (Chain.resolve_cons_congr rfl fun claimed => ?_)
    have back := recent.le_offset asked (Provider.claims_statement_iff.1 claimed).1
    simp only [Provider.statement]
    rw [agree.resolve_eq (by omega)]
  rules := by
    intro values r asked
    refine .of_eq (Chain.resolve_cons_congr rfl fun claimed => ?_)
    have back := recent.le_offset asked (Provider.claims_snapshot_iff.1 claimed).1
    simp only [Provider.snapshot]
    rw [agree.resolve_eq (by omega)]
  opening := by
    rw [Context.shift?, Clock.bind_shift?, Clock.bind_shift?]
    exact Clock.read?_congr (agree _ (Int.le_refl _))

/-- Without invariants a run closes a period as it is calculated. -/
theorem closePeriod_nil (c : Calculator) (history : Series) (context : Context) :
    Runner.closePeriod c [] history context =
      (c.calculateIn history context).mapError RunError.period := by
  rw [Runner.closePeriod]
  cases c.calculateIn history context with
  | error e => rfl
  | ok closing => simp [check, Check.violations, Except.mapError]

/-- A period that is calculated by itself is calculated in front of its opening. -/
theorem calculate_eq_calculateIn {opening : Option Snapshot}
    (opened : opening.isSome = true → Clock.Has (context.time - 1)) :
    c.calculate opening context = c.calculateIn (.ofOpening opening context.time) context := by
  cases opening with
  | none => rfl
  | some values =>
      have before : context.shift? (-1) = some (context.time - 1) :=
        Clock.shift?_of_has (opened rfl)
      simp only [calculate, before]
      rfl

/-- In front of a history that has nothing but the opening from the time before the period on, a run
closes the period as it is calculated by itself. -/
theorem closePeriod_eq_calculate {opening : Option Snapshot} (recent : c.statement.LooksBackOnce [])
    (opened : opening.isSome = true → Clock.Has (context.time - 1))
    (agree : Series.AgreeFrom (context.time - 1) history (.ofOpening opening context.time)) :
    Runner.closePeriod c [] history context =
      (c.calculate opening context).mapError RunError.period := by
  rw [(correspondIn_of_agreeFrom recent agree).closePeriod_eq, closePeriod_nil,
    calculate_eq_calculateIn opened]

end Calculator

/-! ### Runs -/

namespace Runner

variable {r : Runner} {c : Calculator} {plan : Plan} {switch : Switch}

/-- The periods `ps` of a run that is not cancelled are those calculated one by one. -/
theorem proceed_eq_calculateEach (invariants : r.invariants = [])
    (recent : c.statement.LooksBackOnce []) {ps : List Nat} {index : Nat}
    {opening : Option Snapshot} {history : Series} {asked : Bool}
    (onClock : ∀ k < ps.length, Clock.Has (r.options.start + (index + k : Nat)))
    (opened : opening.isSome = true → Clock.Has (r.options.start + index - 1))
    (agree : Series.AgreeFrom (r.options.start + index - 1) history
      (.ofOpening opening (r.options.start + index)))
    (uncancelled : ∀ f, (r.proceed c plan switch index history asked ps).ending = .failed f →
      f.cause ≠ .cancelled) :
    let o := r.proceed c plan switch index history asked ps
    (o.closings, o.ending) = c.calculateEach plan r.options.start index opening ps := by
  induction ps generalizing index opening history asked with
  | nil => rfl
  | cons p ps ih =>
      let context := plan.contextAt r.options.start index p
      -- Without invariants, closing a period is calculating it.
      have alone : closePeriod c r.invariants history context =
          (c.calculate opening context).mapError RunError.period := by
        rw [invariants]
        exact Calculator.closePeriod_eq_calculate recent opened agree
      intro o
      obtain ⟨-, stopped⟩ | ⟨-, ⟨e, failed, stopped⟩ | ⟨closing, closed, next⟩⟩ :=
        proceed_cons_cases r c plan switch index history asked p ps
      · rw [stopped] at uncancelled
        cases uncancelled _ rfl rfl
      · rw [Calculator.calculateEach_cons_of_error alone failed]
        simp only [o, stopped]
      · -- The next period has this one as its opening, and the history has it at the time before.
        have after : r.options.start + ((index + 1 : Nat) : Int) = r.options.start + index + 1 := by
          omega
        have time : closing.context.time = r.options.start + index :=
          congrArg Context.time (context_of_closePeriod closed)
        have opened : Clock.Has (r.options.start + (index + 1 : Nat) - 1) := by
          rw [after, Int.add_sub_cancel]
          exact onClock 0 (Nat.succ_pos _)
        have agree : Series.AgreeFrom (r.options.start + (index + 1 : Nat) - 1)
            (history.insert closing.context.time closing.values)
            (.ofOpening (some closing.values) (r.options.start + (index + 1 : Nat))) := by
          rw [after, Int.add_sub_cancel, time]
          exact Series.agreeFrom_insert agree closing.values
        have onClock : ∀ k < ps.length, Clock.Has (r.options.start + (index + 1 + k : Nat)) := by
          intro k hk
          rw [Nat.add_right_comm]
          exact onClock (k + 1) (Nat.succ_lt_succ hk)
        rw [next] at uncancelled
        have rest := ih onClock (fun _ => opened) agree uncancelled
        simp only [o, next, Calculator.calculateEach_cons_of_ok alone closed, ← rest]

/-- A run that nobody cancels does not fail for being cancelled. -/
theorem proceed_untouched_ne_cancelled {ps : List Nat} {index : Nat} {history : Series}
    {f : Failure}
    (failed : (r.proceed c plan .untouched index history false ps).ending = .failed f) :
    f.cause ≠ .cancelled := by
  induction ps generalizing index history with
  | nil => cases failed
  | cons p ps ih =>
      obtain ⟨asked, -⟩ | ⟨-, ⟨e, result, stopped⟩ | ⟨closing, -, next⟩⟩ :=
        proceed_cons_cases r c plan .untouched index history false p ps
      · cases asked
      · rw [stopped] at failed
        obtain rfl := Ending.failed.inj failed
        intro cancelled
        exact closePeriod_ne_cancelled _ _ _ _ (result.trans (congrArg Except.error cancelled))
      · rw [next] at failed
        exact ih failed

/-- A run that nobody can cancel is not cancelled. -/
theorem execute_untouched_ne_cancelled {f : Failure}
    (failed : (r.execute plan .untouched).ending = .failed f) : f.cause ≠ .cancelled := by
  cases ready : r.calculator plan with
  | ok c =>
      rw [execute_eq_of_calculator ready] at failed
      exact proceed_untouched_ne_cancelled failed
  | error e =>
      rw [execute_eq_of_error ready] at failed
      obtain rfl := Ending.failed.inj failed
      rintro (rfl : e = .cancelled)
      unfold calculator rawProvider at ready
      grind

/-- Take a plan that assumes nothing ahead of time and a statement that looks back one period at
most, and run the plan without invariants. Unless the run is cancelled, and one that nobody can
cancel is not (`execute_untouched_ne_cancelled`), it closes the periods that
its calculator gives one by one, each opened with what the one before closes with, and it fails at
the first that has no result, for the same reason. -/
theorem execute_eq_calculateEach {raw : Chain} (onClock : Clock.lowest ≤ r.options.start)
    (fits : plan.fits r.options.start = true) (loaded : r.rawProvider plan = .ok raw)
    (assumed : plan.lookahead = .empty) (invariants : r.invariants = [])
    (recent : r.statement.LooksBackOnce [])
    (uncancelled : ∀ f, (r.execute plan switch).ending = .failed f → f.cause ≠ .cancelled) :
    let c : Calculator := ⟨r.statement, r.functions, r.options, raw ++ r.providers⟩
    let o := r.execute plan switch
    (o.closings, o.ending) =
      c.calculateEach plan r.options.start 0 plan.opening plan.periods := by
  intro c
  have ready : r.calculator plan = .ok c := calculator_eq_ok_iff.2 ⟨fits, raw, loaded, rfl⟩
  have start : r.options.start + ((0 : Nat) : Int) = r.options.start := Int.add_zero _
  rw [execute_eq_of_calculator ready] at uncancelled ⊢
  refine proceed_eq_calculateEach invariants recent ?onClock ?opened ?agree uncancelled
  case onClock =>
    intro k hk
    rw [Nat.zero_add]
    exact Plan.has_of_fits onClock fits hk
  case opened =>
    intro opened
    obtain ⟨values, opened⟩ := Option.isSome_iff_exists.1 opened
    rw [start]
    exact Plan.has_opening_of_fits fits opened
  case agree =>
    -- The first period sees the opening as its history and nothing beside it, as nothing is assumed
    -- ahead.
    have history : plan.history r.options.start = .ofOpening plan.opening r.options.start := by
      cases opened : plan.opening <;> simp only [Plan.history, Series.ofOpening, opened, assumed]
    rw [start, history]
    exact fun u _ => rfl

set_option maxRecDepth 20000 in
/-- There is no record of `NET` for the third period, and the run fails there as the calculator
does. The rule looks at the opening in the first period and at the first period in the second. -/
theorem execute_eq_calculateEach_missing_record :
    let statement : Statement :=
      { code := ""
        items := [
          { code := "RE"
            formula := some ⟨"RE[t-1]+NET",
              .binary .add (.reference ⟨none, "RE", -1⟩) (.reference (.bare "NET")),
              [.bare "NET", ⟨none, "RE", -1⟩]⟩
            declared := { code := "RE", formula := some "RE[t-1]+NET" } },
          { code := "NET", formula := none, declared := { code := "NET" } }]
        order := [1, 0]
        graph := ⟨["RE", "NET"], [("RE", "NET")]⟩
        checks := [
          ⟨{ id := "R1", formula := "RE[t-1]>1000", severity := .warning },
            .binary .greater (.reference ⟨none, "RE", -1⟩) (.number 1000.0)⟩] }
    let records : List RawInput := [⟨"NET", 7, 40.0⟩, ⟨"NET", 8, 30.0⟩]
    let r : Runner := ⟨statement, .standard, {}, [], some fun _ _ => .ok records, []⟩
    let plan : Plan := ⟨"E1", 1, [7, 8, 9], some (.ofList [("RE", 1000.0)]), .empty⟩
    let c : Calculator := ⟨statement, .standard, {},
      [.rawInput (.ofRecords "E1" 1 records) statement.claims (.sequential 0 [7, 8, 9])]⟩
    let o := r.execute plan .untouched
    (o.closings, o.ending) = c.calculateEach plan 0 0 plan.opening plan.periods ∧
      o.closings.map (fun closing =>
          (closing.values.toList, closing.violations.map Violation.rule)) =
        [([("NET", 40.0), ("RE", 1040.0)], ["R1"]), ([("NET", 30.0), ("RE", 1070.0)], [])] ∧
      o.ending = .failed ⟨2, 9, .period (.item "NET" ""
        (.gap "rawinput" (.bare "NET") (.noRecord "NET" 9 "E1" 1)))⟩ := by
  intro statement records r plan c o
  have ending : o.ending = .failed ⟨2, 9, .period (.item "NET" ""
      (.gap "rawinput" (.bare "NET") (.noRecord "NET" 9 "E1" 1)))⟩ := by
    unfold o r plan statement records
    with_unfolding_all rfl
  have recent : r.statement.LooksBackOnce [] := by
    intro e he ref read
    simp [r, statement, Statement.formulas] at he
    obtain rfl | rfl := he
    · simp [Formula.Expr.references] at read
      obtain rfl | rfl := read <;> decide
    · simp [Formula.Expr.references] at read
      subst read
      decide
  refine ⟨?_, ?_, ending⟩
  · exact @execute_eq_calculateEach r plan .untouched _ (by decide) (by decide) rfl rfl rfl recent
      fun _ => execute_untouched_ne_cancelled
  · unfold o r plan statement records
    with_unfolding_all rfl

end Runner

end Rollforward
