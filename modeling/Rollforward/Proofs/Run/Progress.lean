import Rollforward.Proofs.Period.Closing

/-!
# `Rollforward.Proofs.Run.Progress`: how a run gets from one period to the next

A run hands nothing from period to period but its history, and the history is what was known before
the run with the closed periods recorded in it, one after the other (`Plan.historyAfter`). So the
closed periods of an outcome determine in front of what each period was calculated.

`proceed_cons_cases` is one period of the loop, with its three ends. `Outcome.Unfolds` is a whole
run: each closed period is what `closePeriod` makes of the periods closed before it, and where the
run fails it fails at the next one. `unfolds_proceed` shows it by induction over the periods left,
and `unfolds_execute` from the first period on.
-/

set_option autoImplicit false

namespace Rollforward

/-! ### Histories -/

/-- The series with closed periods recorded in it, each at its own time. -/
def Series.record (s : Series) (closings : List Closing) : Series :=
  closings.foldl (fun s closing => s.insert closing.context.time closing.values) s

/-- Closed periods enter the history one by one. -/
theorem Series.record_cons (s : Series) (closing : Closing) (closings : List Closing) :
    record s (closing :: closings) =
      record (s.insert closing.context.time closing.values) closings :=
  rfl

namespace Plan

/-- What is known of other times when the periods of `closed` are closed. -/
def historyAfter (plan : Plan) (start : Int) (closed : List Closing) : Series :=
  Series.record (plan.history start) closed

/-- What the period `period` is calculated about as number `i` of the plan. -/
def contextAt (plan : Plan) (start : Int) (i period : Nat) : Context :=
  ⟨plan.entity, plan.scenario, period, start + i⟩

end Plan

namespace Runner

variable {r : Runner} {c : Calculator} {plan : Plan} {switch : Switch}

/-- A run gets to its first period when the clock has room for all of them and the raw inputs are
there. -/
theorem calculator_eq_ok_iff :
    r.calculator plan = .ok c ↔ plan.fits r.options.start = true ∧
      ∃ raw, r.rawProvider plan = .ok raw ∧
        c = ⟨r.statement, r.functions, r.options, raw ++ r.providers⟩ := by
  unfold calculator
  by_cases fits : plan.fits r.options.start = true
  · rw [if_pos fits]
    cases r.rawProvider plan with
    | error e => simp
    | ok raw => simp [fits, eq_comm]
  · rw [if_neg fits]
    simp [fits]

/-- Without a calculator the run fails before its first period. -/
theorem execute_eq_of_error {e : RunError} (failed : r.calculator plan = .error e)
    (switch : Switch) :
    r.execute plan switch =
      ⟨[], .failed ⟨0, plan.periods.head?.getD 0, e⟩, switch.pressed 0⟩ := by
  rw [execute, failed]

/-- A run that is ready goes through the periods of its plan. -/
theorem execute_eq_of_calculator (ready : r.calculator plan = .ok c) (switch : Switch) :
    r.execute plan switch =
      r.proceed c plan switch 0 (plan.history r.options.start) false plan.periods := by
  rw [execute, ready]

/-! ### One period -/

/-- A period is closed about what it is calculated about. -/
theorem context_of_closePeriod {invariants : List Check} {history : Series} {context : Context}
    {closing : Closing} (h : closePeriod c invariants history context = .ok closing) :
    closing.context = context :=
  (context_opening_of_closePeriod h).1

/-- A run stops before a period because it is cancelled, or it stops at the period because the
period fails, or it closes the period and goes on with what is known then. -/
theorem proceed_cons_cases (r : Runner) (c : Calculator) (plan : Plan) (switch : Switch)
    (index : Nat) (history : Series) (asked : Bool) (p : Nat) (ps : List Nat) :
    let context := plan.contextAt r.options.start index p
    let result := closePeriod c r.invariants history context
    let asks := switch.shared && periodCancels c r.invariants history context
    let outcome := r.proceed c plan switch index history asked (p :: ps)
    ((asked || switch.pressed index) = true ∧
        outcome = ⟨[], .failed ⟨index, p, .cancelled⟩, true⟩) ∨
      (asked || switch.pressed index) = false ∧
        ((∃ e, result = .error e ∧ outcome = ⟨[], .failed ⟨index, p, e⟩, asks⟩) ∨
          ∃ closing, result = .ok closing ∧
            let rest := r.proceed c plan switch (index + 1)
              (history.insert closing.context.time closing.values) asks ps
            outcome = ⟨closing :: rest.closings, rest.ending, rest.cancelled⟩) := by
  intro context result asks outcome
  by_cases pressed : (asked || switch.pressed index) = true
  · refine Or.inl ⟨pressed, ?_⟩
    show r.proceed c plan switch index history asked (p :: ps) = _
    rw [proceed, if_pos pressed]
  · refine Or.inr ⟨eq_false_of_ne_true pressed, ?_⟩
    cases calculated : result with
    | error e =>
        refine Or.inl ⟨e, rfl, ?_⟩
        show r.proceed c plan switch index history asked (p :: ps) = _
        rewrite [proceed, if_neg pressed]
        simp only [result, context, Plan.contextAt] at calculated
        simp only [calculated, asks, context, Plan.contextAt]
    | ok closing =>
        refine Or.inr ⟨closing, rfl, ?_⟩
        -- The run records a period under the time in its closing, which is the one it was given.
        have time : closing.context.time = context.time :=
          congrArg Context.time (context_of_closePeriod calculated)
        show r.proceed c plan switch index history asked (p :: ps) = _
        rewrite [time, proceed, if_neg pressed]
        simp only [result, context, Plan.contextAt] at calculated
        simp only [calculated, asks, context, Plan.contextAt]

/-- A run that is cancelled stops before the next period. -/
theorem proceed_cons_of_pressed {index : Nat} {asked : Bool}
    (pressed : (asked || switch.pressed index) = true) (history : Series) (p : Nat)
    (ps : List Nat) :
    r.proceed c plan switch index history asked (p :: ps) =
      ⟨[], .failed ⟨index, p, .cancelled⟩, true⟩ := by
  rw [proceed, if_pos pressed]

/-- A run that is not cancelled ends at a period that fails. -/
theorem proceed_cons_of_error {index : Nat} {history : Series} {asked : Bool} {p : Nat}
    {e : RunError} (unpressed : (asked || switch.pressed index) = false)
    (failed : closePeriod c r.invariants history (plan.contextAt r.options.start index p) =
      .error e) (ps : List Nat) :
    r.proceed c plan switch index history asked (p :: ps) =
      ⟨[], .failed ⟨index, p, e⟩, switch.shared && periodCancels c r.invariants history
        (plan.contextAt r.options.start index p)⟩ := by
  obtain ⟨pressed, -⟩ | ⟨-, ⟨other, result, stopped⟩ | ⟨closing, closed, -⟩⟩ :=
    proceed_cons_cases r c plan switch index history asked p ps
  · cases unpressed.symm.trans pressed
  · cases failed.symm.trans result
    exact stopped
  · cases failed.symm.trans closed

/-- A run that is not cancelled goes on behind a period that it closes. -/
theorem proceed_cons_of_closePeriod {index : Nat} {history : Series} {asked : Bool} {p : Nat}
    {closing : Closing} (unpressed : (asked || switch.pressed index) = false)
    (closed : closePeriod c r.invariants history (plan.contextAt r.options.start index p) =
      .ok closing) (ps : List Nat) :
    let asks := switch.shared && periodCancels c r.invariants history
      (plan.contextAt r.options.start index p)
    let rest := r.proceed c plan switch (index + 1)
      (history.insert closing.context.time closing.values) asks ps
    r.proceed c plan switch index history asked (p :: ps) =
      ⟨closing :: rest.closings, rest.ending, rest.cancelled⟩ := by
  obtain ⟨pressed, -⟩ | ⟨-, ⟨e, failed, -⟩ | ⟨other, done, next⟩⟩ :=
    proceed_cons_cases r c plan switch index history asked p ps
  · cases unpressed.symm.trans pressed
  · cases closed.symm.trans failed
  · cases closed.symm.trans done
    exact next

end Runner

/-! ### A whole run -/

/-- The outcome of the periods `ps`, which begin with number `index` of the plan, when `history` is
known before them. -/
structure Outcome.Unfolds (o : Outcome) (r : Runner) (c : Calculator) (plan : Plan) (index : Nat)
    (history : Series) (ps : List Nat) : Prop where
  /-- A closed period is calculated in front of those closed before it. -/
  closed : ∀ k closing, o.closings[k]? = some closing → ∃ p, ps[k]? = some p ∧
    Runner.closePeriod c r.invariants (.record history (o.closings.take k))
      (plan.contextAt r.options.start (index + k) p) = .ok closing
  /-- A run that fails does so at the period after those that it closed. -/
  failed : ∀ f, o.ending = .failed f →
    f.index = index + o.closings.length ∧ ps[o.closings.length]? = some f.period ∧
      (f.cause = .cancelled ∨
        Runner.closePeriod c r.invariants (.record history o.closings)
          (plan.contextAt r.options.start f.index f.period) = .error f.cause)
  completed : o.ending = .completed → o.closings.length = ps.length

/-- A period that a run gets to is closed as its calculation says, or the run fails there: with the
error of the calculation, or because it is cancelled. -/
theorem Outcome.Unfolds.result_at {o : Outcome} {r : Runner} {c : Calculator} {plan : Plan}
    {index : Nat} {history : Series} {ps : List Nat} (h : o.Unfolds r c plan index history ps)
    {k p : Nat} (period : ps[k]? = some p) (reached : k ≤ o.closings.length) :
    let result := Runner.closePeriod c r.invariants (.record history (o.closings.take k))
      (plan.contextAt r.options.start (index + k) p)
    (∀ closing, o.closings[k]? = some closing → result = .ok closing) ∧
      (o.closings[k]? = none → ∃ e, o.ending = .failed ⟨index + k, p, e⟩ ∧
        (e = .cancelled ∨ result = .error e)) := by
  intro result
  constructor
  · intro closing hk
    obtain ⟨q, hq, calculated⟩ := h.closed k closing hk
    obtain rfl : q = p := Option.some.inj (hq.symm.trans period)
    exact calculated
  · intro none
    have last : o.closings.length = k :=
      Nat.le_antisymm (List.getElem?_eq_none_iff.1 none) reached
    cases ending : o.ending with
    | completed =>
        -- A completed run has closed the period.
        have all := h.completed ending
        have bound := (List.getElem?_eq_some_iff.1 period).1
        omega
    | failed f =>
        obtain ⟨hindex, hperiod, cause⟩ := h.failed f ending
        rw [last] at hindex hperiod
        obtain rfl : f.period = p := Option.some.inj (hperiod.symm.trans period)
        have before : o.closings.take k = o.closings := List.take_of_length_le (by omega)
        refine ⟨f.cause, ?_, ?_⟩
        · rw [← hindex]
        · simp only [result, before, ← hindex]
          exact cause

namespace Runner

variable {r : Runner} {c : Calculator} {plan : Plan} {switch : Switch}

/-- An outcome without closed periods unfolds when it ends with the failure of the first. -/
theorem unfolds_of_failure {index : Nat} {history : Series} {p : Nat} {ps : List Nat}
    {e : RunError} {cancelled : Bool}
    (cause : e = .cancelled ∨ closePeriod c r.invariants history
      (plan.contextAt r.options.start index p) = .error e) :
    Outcome.Unfolds ⟨[], .failed ⟨index, p, e⟩, cancelled⟩ r c plan index history (p :: ps) where
  closed := fun k closing h => nomatch h
  failed := by
    intro f hf
    rw [← Ending.failed.inj hf]
    exact ⟨rfl, rfl, cause⟩
  completed := fun h => nomatch h

/-- An outcome that begins with a closed period unfolds when the rest of it does. -/
theorem unfolds_cons {index : Nat} {history : Series} {p : Nat} {ps : List Nat} {closing : Closing}
    {rest : Outcome}
    (first : closePeriod c r.invariants history (plan.contextAt r.options.start index p) =
      .ok closing)
    (later : rest.Unfolds r c plan (index + 1)
      (history.insert closing.context.time closing.values) ps) :
    Outcome.Unfolds ⟨closing :: rest.closings, rest.ending, rest.cancelled⟩ r c plan index history
      (p :: ps) where
  closed := by
    intro k other hk
    cases k with
    | zero =>
        obtain rfl : closing = other := Option.some.inj hk
        exact ⟨p, rfl, first⟩
    | succ k =>
        obtain ⟨q, hq, closed⟩ := later.closed k other hk
        refine ⟨q, hq, ?_⟩
        -- The rest counts from the second period, and its history has the first one in it.
        rw [List.take_succ_cons, Series.record_cons, ← Nat.add_assoc, Nat.add_right_comm]
        exact closed
  failed := by
    intro f hf
    obtain ⟨hindex, hperiod, cause⟩ := later.failed f hf
    refine ⟨?_, hperiod, cause⟩
    rw [hindex, List.length_cons]
    omega
  completed := by
    intro completed
    rw [List.length_cons, later.completed completed, List.length_cons]

/-- The induction over the periods: each step of a run is one of `Unfolds`, and later proofs go
through these. -/
theorem unfolds_proceed (r : Runner) (c : Calculator) (plan : Plan) (switch : Switch)
    (index : Nat) (history : Series) (asked : Bool) (ps : List Nat) :
    (r.proceed c plan switch index history asked ps).Unfolds r c plan index history ps := by
  induction ps generalizing index history asked with
  | nil =>
      constructor
      case closed => exact fun k closing h => nomatch h
      case failed => exact fun f h => nomatch h
      case completed => exact fun _ => rfl
  | cons p ps ih =>
      obtain ⟨-, cancelled⟩ | ⟨-, ⟨e, failed, stopped⟩ | ⟨closing, closed, next⟩⟩ :=
        proceed_cons_cases r c plan switch index history asked p ps
      · rw [cancelled]
        exact unfolds_of_failure (Or.inl rfl)
      · rw [stopped]
        exact unfolds_of_failure (Or.inr failed)
      · rw [next]
        exact unfolds_cons closed (ih _ _ _)

/-- A run that gets as far as its first period unfolds from there. -/
theorem unfolds_execute (ready : r.calculator plan = .ok c) (switch : Switch) :
    (r.execute plan switch).Unfolds r c plan 0 (plan.history r.options.start) plan.periods := by
  rw [execute, ready]
  exact unfolds_proceed r c plan switch 0 _ false plan.periods

/-- A closed period of a run is what its calculator makes of it in front of those closed before. -/
theorem exists_closePeriod_of_execute {k : Nat} {closing : Closing}
    (kept : (r.execute plan switch).closings[k]? = some closing) :
    ∃ c p, r.calculator plan = .ok c ∧ plan.periods[k]? = some p ∧
      closePeriod c r.invariants
        (plan.historyAfter r.options.start ((r.execute plan switch).closings.take k))
        (plan.contextAt r.options.start k p) = .ok closing := by
  cases ready : r.calculator plan with
  | error e =>
      rw [execute_eq_of_error ready] at kept
      cases kept
  | ok c =>
      obtain ⟨p, period, closed⟩ := (unfolds_execute ready switch).closed k closing kept
      rw [Nat.zero_add] at closed
      exact ⟨c, p, rfl, period, closed⟩

/-- A completed run has closed every period. -/
theorem length_closings_of_completed (completed : (r.execute plan switch).ending = .completed) :
    (r.execute plan switch).closings.length = plan.periods.length := by
  cases ready : r.calculator plan with
  | error e =>
      rw [execute_eq_of_error ready] at completed
      cases completed
  | ok c => exact (unfolds_execute ready switch).completed completed

end Runner

end Rollforward
