import Rollforward.Proofs.Period.Correspondence
import Rollforward.Proofs.Provider.Translation
import Rollforward.Proofs.Run.Calendar
import Rollforward.Proofs.Run.Simulation

/-!
# `Rollforward.Proofs.Run.Translation`: a run at a later time

A run that starts `d` steps later, with everything that is placed on the clock moved along, takes
the same course, as long as the clock has the times of both. The opening, the closed periods and
what is assumed keep their distances (`Plan.displaced_history`, `Series.displaced_insert`), the
calendar does (`Plan.displaced_calendar`), and nothing else tells times apart. So each period
corresponds to the one that is moved (`Runner.correspondIn_later`), and recording what it closes
with keeps the histories in step (`Runner.stepRelated_later`).

That the functions are not to read the time (`Registry.IgnoresTime`) is a condition on those that a
caller registers: the standard ones do not (`Registry.ignoresTime_standard`).
-/

set_option autoImplicit false

namespace Rollforward

open Formula (Reference)

/-! ### Functions -/

/-- The function does not read the time. -/
def Callable.IgnoresTime (f : Callable) : Prop :=
  ∀ (args : List Arg) (context : Context) (t : Int),
    f.run args { context with time := t } = f.run args context ∧
      ∀ asks, f.cancels = some asks → asks args { context with time := t } = asks args context

namespace Registry

/-- None of the functions reads the time. -/
def IgnoresTime (functions : Registry) : Prop := ∀ e ∈ functions.entries, e.body.IgnoresTime

variable {functions : Registry}

/-- Functions that ignore the time do not tell a context from a later one. -/
theorem IgnoresTime.sameIn (h : functions.IgnoresTime) (d : Int) (context : Context) :
    functions.SameIn context (context.later d) := by
  intro e he args
  obtain ⟨run, cancels⟩ := h e he args context (context.time + d)
  exact ⟨run.symm, fun asks holds => (cancels asks holds).symm⟩

/-- A registration brings the new entry and no other. -/
theorem mem_of_mem_place {e e' : Entry} {es : List Entry} (h : e' ∈ place e es) :
    e' = e ∨ e' ∈ es := by
  induction es with
  | nil => exact Or.inl (List.mem_singleton.1 h)
  | cons d ds ih =>
      rw [place] at h
      split at h
      · exact (List.mem_cons.1 h).imp_right (List.mem_cons_of_mem d)
      · obtain rfl | later := List.mem_cons.1 h
        · exact Or.inr List.mem_cons_self
        · exact (ih later).imp_right (List.mem_cons_of_mem d)

/-- A registry goes on ignoring the time with every function that does. -/
theorem IgnoresTime.register (h : functions.IgnoresTime) (name : String) (arity : Arity)
    {body : Callable} (ignores : body.IgnoresTime) :
    (functions.register name arity body).IgnoresTime := by
  intro e he
  obtain rfl | known := mem_of_mem_place he
  · exact ignores
  · exact h e known

/-- The functions that every formula may call look at their arguments and at nothing else. -/
theorem ignoresTime_standard : standard.IgnoresTime := by
  have empty : Registry.empty.IgnoresTime := fun e he => nomatch he
  have pure {f : List Arg → Except EvalError Float} :
      Callable.IgnoresTime { run := fun args _ => f args } :=
    fun args context t => ⟨rfl, fun asks none => nomatch none⟩
  exact (((((empty.register _ _ pure).register _ _ pure).register _ _ pure).register _ _
    pure).register _ _ pure).register _ _ pure

end Registry

/-! ### Plans -/

namespace Plan

/-- The plan with all that it assumes `d` steps later. -/
def later (d : Int) (plan : Plan) : Plan := { plan with lookahead := plan.lookahead.later d }

variable {plan : Plan} {start d : Int}

/-- A period of the later plan has the context of the earlier one, moved along. -/
theorem contextAt_later (plan : Plan) (start d : Int) (i p : Nat) :
    (plan.later d).contextAt (start + d) i p = (plan.contextAt start i p).later d := by
  have time : start + d + (i : Int) = start + i + d := Int.add_right_comm start d i
  rw [contextAt, contextAt, Context.later, time]
  rfl

/-- What is known before the first period is moved along. -/
theorem displaced_history (fits : plan.fits start = true) (fits' : plan.fits (start + d) = true)
    (assumed : plan.lookahead.OnClock) (assumed' : (plan.lookahead.later d).OnClock) :
    Clock.Displaced d (plan.history start).get? ((plan.later d).history (start + d)).get? := by
  have lookahead := Series.displaced_later assumed assumed'
  unfold history later
  dsimp only
  cases opened : plan.opening with
  | none => exact lookahead
  | some values =>
      have time : start + d - 1 = start - 1 + d := by omega
      have has' := has_opening_of_fits fits' opened
      rw [time] at has'
      dsimp only
      rw [time]
      exact Series.displaced_insert lookahead (has_opening_of_fits fits opened) has' values

/-- So are the periods of the calendar. -/
theorem displaced_calendar (onClock : Clock.lowest ≤ start) (onClock' : Clock.lowest ≤ start + d)
    (fits : plan.fits start = true) (fits' : plan.fits (start + d) = true) :
    Clock.Displaced d (Calendar.sequential start plan.periods).get?
      (Calendar.sequential (start + d) plan.periods).get? := by
  intro u
  refine Option.ext fun p => ?_
  rw [read?_calendar_eq_some_iff onClock fits, read?_calendar_eq_some_iff onClock' fits']
  refine exists_congr fun k => and_congr_left fun _ => ?_
  omega

end Plan

/-! ### Outcomes -/

/-- The second period is the first, `d` steps later. -/
structure Closing.LaterBy (d : Int) (a b : Closing) : Prop extends
    a.SameUpTo (EvalError.SameButTime d) b where
  context : b.context = a.context.later d

/-- The second run takes the course of the first, `d` steps later: it closes the same periods with
the same values and ends in the same place. Violations and errors differ at most in the time that
they name. -/
def Outcome.LaterBy (d : Int) : Outcome → Outcome → Prop :=
  Outcome.Related (Closing.LaterBy d) (RunError.SameUpTo (EvalError.SameButTime d))

/-! ### Runs -/

namespace Runner

/-- The runner that starts `d` steps later, with other providers. -/
def later (d : Int) (providers : Chain) (r : Runner) : Runner :=
  { r with options := { r.options with start := r.options.start + d }, providers := providers }

variable {r : Runner} {plan : Plan} {d : Int} {providers : Chain}

/-- In front of histories that are moved along, a period corresponds to the one that is moved, when
the caller's providers do. -/
theorem correspondIn_later {c : Calculator} {options : Options} {chain : Chain} {context : Context}
    (strict : options.strict = c.options.strict)
    (tolerance : options.tolerance = c.options.tolerance) (ignores : c.functions.IgnoresTime)
    (supplied : List.Forall₂
      (Provider.CorrespondIn (EvalError.SameButTime d) context (context.later d))
      c.providers chain)
    (invariants : List Check) {history history' : Series}
    (displaced : Clock.Displaced d history.get? history'.get?) :
    Calculator.CorrespondIn (EvalError.SameButTime d) invariants c
      { c with options := options, providers := chain } history history' context
      (context.later d) where
  statements := .refl _
  functions := rfl
  steady := ignores.sameIn d context
  strict := strict.symm
  tolerance := tolerance.symm
  items := fun l r _ => Chain.corresponds_resolve
    (.cons (Provider.correspondIn_statement c.statement l displaced) supplied) r
  rules := fun values r _ => Chain.corresponds_resolve
    (.cons (Provider.correspondIn_snapshot values displaced) supplied) r
  opening := by
    have time : (context.later d).time + -1 = context.time + -1 + d :=
      Int.add_right_comm context.time d (-1)
    rw [Context.shift?, Context.shift?, Clock.bind_shift?, Clock.bind_shift?, time]
    exact (displaced _).symm

/-- The raw inputs of both runs are missing for the same reason, or correspond to each other. -/
theorem corresponds_rawProvider (onClock : Clock.lowest ≤ r.options.start)
    (onClock' : Clock.lowest ≤ r.options.start + d) (fits : plan.fits r.options.start = true)
    (fits' : plan.fits (r.options.start + d) = true) :
    Corresponds Eq
      (fun raw raw' => ∀ context, List.Forall₂
        (Provider.CorrespondIn (EvalError.SameButTime d) context (context.later d)) raw raw')
      (r.rawProvider plan) ((r.later d providers).rawProvider (plan.later d)) := by
  unfold rawProvider
  dsimp only [Runner.later, Plan.later]
  cases r.source with
  | none => exact .ok fun _ => .nil
  | some load =>
      dsimp only
      cases load plan.entity plan.scenario with
      | error message => exact .error rfl
      | ok records =>
          have calendars := Plan.displaced_calendar onClock onClock' fits fits'
          exact .ok fun context =>
            .cons (Provider.correspondIn_rawInput _ r.statement.claims calendars) .nil

/-- On the clock a period takes the same course later, and what it closes with is moved along. -/
theorem stepRelated_later {c c' : Calculator} {context : Context} {history history' : Series}
    (period : c.CorrespondIn (EvalError.SameButTime d) r.invariants c' history history' context
      (context.later d))
    (onClock : Clock.Has context.time) (onClock' : Clock.Has (context.later d).time)
    (displaced : Clock.Displaced d history.get? history'.get?) (switch : Switch) :
    StepRelated (fun s s' => Clock.Displaced d s.get? s'.get?) (Closing.LaterBy d)
      (RunError.SameUpTo (EvalError.SameButTime d)) switch r (r.later d providers) c c' context
      (context.later d) history history' where
  results := by
    obtain ⟨e, f, failed, failed', errors⟩ | ⟨a, b, closed, closed', same⟩ :=
      period.corresponds_closePeriod.error_or_ok
    · rw [failed]
      exact failed' ▸ .error errors
    · have moved : b.context = a.context.later d := by
        rw [context_of_closePeriod closed, context_of_closePeriod closed']
      rw [closed]
      exact closed' ▸ .ok ⟨same, moved⟩
  asks := fun _ => period.periodCancels_eq
  histories := by
    intro a b same
    rw [← same.values]
    exact Series.displaced_insert displaced onClock onClock' a.values

/-- A run that starts `d` steps later, with what is assumed and the series of other domains moved
along, takes the same course, when the clock has room for both runs and no function reads the time.
It closes the same periods with the same values, ends in the same place for the same reason, and
finds the same rules violated, with the same values. Messages differ at most in the time that they
name. -/
theorem execute_later (ignores : r.functions.IgnoresTime)
    (supplied : List.Forall₂ (Provider.Later d) r.providers providers)
    (assumed : plan.lookahead.OnClock) (assumed' : (plan.lookahead.later d).OnClock)
    (onClock : Clock.lowest ≤ r.options.start) (onClock' : Clock.lowest ≤ r.options.start + d)
    (fits : plan.fits r.options.start = true) (fits' : plan.fits (r.options.start + d) = true)
    (switch : Switch) :
    (r.execute plan switch).LaterBy d ((r.later d providers).execute (plan.later d) switch) := by
  refine execute_related (fun s s' => Clock.Displaced d s.get? s'.get?) rfl (.same _) ?_
    (Plan.displaced_history fits fits' assumed assumed')
  obtain ⟨e, _, failed, failed', rfl⟩ | ⟨raw, raw', loaded, loaded', same⟩ :=
    (corresponds_rawProvider onClock onClock' fits fits').error_or_ok
  · -- The source has no records for the plan, wherever the plan stands on the clock.
    have failed : r.calculator plan = .error e := by
      rw [calculator, if_pos fits, failed]
    have failed' : (r.later d providers).calculator (plan.later d) = .error e := by
      rw [calculator, failed']
      exact if_pos fits'
    rw [failed, failed']
    exact .error (.same e)
  · rw [calculator_eq_ok_iff.2 ⟨fits, raw, loaded, rfl⟩,
      calculator_eq_ok_iff.2 ⟨fits', raw', loaded', rfl⟩]
    refine .ok fun k p found history history' displaced => ?_
    have bound := (List.getElem?_eq_some_iff.1 found).1
    -- A shift by `d` is exact when the time is on the clock before and after it.
    have has := Plan.has_of_fits onClock fits bound
    have has' : Clock.Has ((plan.contextAt r.options.start k p).later d).time := by
      rw [← Plan.contextAt_later]
      exact Plan.has_of_fits onClock' fits' bound
    have supplied := List.rel_append (same (plan.contextAt r.options.start k p))
      (supplied.imp fun p p' later => later.correspondIn has has')
    have period := @correspondIn_later d
      ⟨r.statement, r.functions, r.options, raw ++ r.providers⟩ (r.later d providers).options _ _
      rfl rfl ignores supplied r.invariants history history' displaced
    show StepRelated _ _ _ _ _ _ _ _ _ ((plan.later d).contextAt (r.options.start + d) k p) _ _
    rw [Plan.contextAt_later]
    exact stepRelated_later period has has' displaced switch

set_option maxRecDepth 20000 in
/-- From one end of the clock to the other. `RE[t-2]` in the first period looks at a time before the
first that the clock has, and later at one that it has and at which nothing is known. -/
theorem execute_later_end_to_end :
    let d : Int := 4294967293
    let statement : Statement :=
      { code := ""
        items := [
          { code := "RE"
            formula := some ⟨"RE[t-1]+pl:NET",
              .binary .add (.reference ⟨none, "RE", -1⟩)
                (.reference ⟨some (.domain "pl"), "NET", 0⟩),
              [⟨none, "RE", -1⟩, ⟨some (.domain "pl"), "NET", 0⟩]⟩
            declared := { code := "RE", formula := some "RE[t-1]+pl:NET" } }]
        order := [0]
        graph := ⟨["RE"], []⟩
        checks := [
          ⟨{ id := "R1", formula := "RE[t-2]>0", severity := .warning },
            .binary .greater (.reference ⟨none, "RE", -2⟩) (.number 0.0)⟩] }
    let net : Series := .ofList
      [(-2147483647, .ofList [("NET", 5.0)]), (-2147483646, .ofList [("NET", 6.0)])]
    let r : Runner :=
      ⟨statement, .standard, { start := -2147483647 }, [], none, [.domain "pl" net]⟩
    let plan : Plan := ⟨"E1", 1, [7, 8], some (.ofList [("RE", 1000.0)]),
      .ofList [(-2147483646, .ofList [("RE", 1.0)])]⟩
    let o := r.execute plan .untouched
    let o' := (r.later d [.domain "pl" (net.later d)]).execute (plan.later d) .untouched
    let course (o : Outcome) := o.closings.map fun closing =>
      (closing.context.time, closing.values.toList, closing.violations.map Violation.rule)
    o.LaterBy d o' ∧
      course o = [(-2147483647, [("RE", 1005.0)], ["R1"]), (-2147483646, [("RE", 1011.0)], [])] ∧
      course o' = [(2147483646, [("RE", 1005.0)], ["R1"]), (2147483647, [("RE", 1011.0)], [])] := by
  intro d statement net r plan o o' course
  refine ⟨?_, ?_, ?_⟩
  · exact execute_later Registry.ignoresTime_standard
      (.cons (.domain "pl" (by decide) (by decide)) .nil) (by decide) (by decide) (by decide)
      (by decide) (by decide) (by decide) .untouched
  · unfold course o r plan net statement
    with_unfolding_all rfl
  · unfold course o' r plan net statement d
    with_unfolding_all rfl

end Runner

end Rollforward
