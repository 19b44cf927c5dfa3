import Rollforward.Proofs.Collection.OrderedMap
import Rollforward.Proofs.Period.Resolution
import Rollforward.Proofs.Provider.Target
import Rollforward.Proofs.Run.Progress
import Rollforward.Registry.Standard

/-!
# `Rollforward.Proofs.Run.History`: who has the values of which time

The opening, the closed periods and what a plan assumes ahead of time share one series, and an entry
gives way to another when a period is closed. `Plan.snapshotAt?` says without that series who has
the values of a time: a closed period its own, the opening the time before the first period, and
the plan every other time. `shift?_historyAfter` shows that the series agrees with it, however many
periods are closed, and `historyAfter_eq_of_lookahead` that what was assumed for a time with another
owner is never seen again.

`execute_resolves_shifted` puts it together for the period that a run calculates.
-/

set_option autoImplicit false

namespace Rollforward

open Formula (Reference)

/-- The clock has the times of all periods of a plan that fits. -/
theorem Plan.has_of_fits {plan : Plan} {start : Int} (onClock : Clock.lowest ≤ start)
    (fits : plan.fits start = true) {i : Nat} (bound : i < plan.periods.length) :
    Clock.Has (start + i) := by
  have last : start + (plan.lastIndex : Int) ≤ Clock.highest := by
    simp only [Plan.fits, Bool.and_eq_true, decide_eq_true_eq] at fits
    exact fits.2
  unfold lastIndex at last
  exact ⟨by omega, by omega⟩

/-- It has the time of the opening too. -/
theorem Plan.has_opening_of_fits {plan : Plan} {start : Int} (fits : plan.fits start = true)
    {values : Snapshot} (opened : plan.opening = some values) : Clock.Has (start - 1) := by
  simp only [Plan.fits, opened, Option.isNone_some, Bool.false_or, Bool.and_eq_true,
    decide_eq_true_eq] at fits
  exact ⟨fits.1.1, by omega⟩

/-! ### Recorded periods -/

/-- Closed periods at consecutive times, the first at `first`. -/
def Consecutive (first : Int) (closings : List Closing) : Prop :=
  ∀ (k : Nat) (closing : Closing), closings[k]? = some closing → closing.context.time = first + k

namespace Consecutive

variable {first : Int} {closing : Closing} {closings : List Closing}

/-- The first of consecutive periods is the one that they start with. -/
theorem head (h : Consecutive first (closing :: closings)) : closing.context.time = first := by
  have time := h 0 closing rfl
  omega

/-- The others start one later. -/
theorem tail (h : Consecutive first (closing :: closings)) : Consecutive (first + 1) closings := by
  intro k other hk
  have time := h (k + 1) other hk
  omega

/-- The first few of consecutive periods are consecutive. -/
theorem take (h : Consecutive first closings) (i : Nat) : Consecutive first (closings.take i) := by
  intro k closing hk
  rw [List.getElem?_take] at hk
  split at hk
  · exact h k closing hk
  · exact nomatch hk

end Consecutive

namespace Series

/-- Other times are as they were. -/
theorem get?_record_of_ne {first u : Int} {closings : List Closing}
    (times : Consecutive first closings) (other : ∀ k < closings.length, u ≠ first + k)
    (s : Series) : (record s closings).get? u = s.get? u := by
  induction closings generalizing s first with
  | nil => rfl
  | cons closing closings ih =>
      have later : ∀ k < closings.length, u ≠ first + 1 + k := by
        intro k hk
        have differ := other (k + 1) (Nat.succ_lt_succ hk)
        omega
      have differ : u ≠ closing.context.time := by
        rw [times.head]
        have differ := other 0 (Nat.succ_pos _)
        omega
      rw [record_cons, ih times.tail later, Collection.OrderedMap.get?_insert_of_ne s _ differ]

/-- A closed period is found at its time. -/
theorem get?_record {first : Int} {k : Nat} {closing : Closing} {closings : List Closing}
    (times : Consecutive first closings) (found : closings[k]? = some closing) (s : Series) :
    (record s closings).get? (first + k) = some closing.values := by
  induction closings generalizing s first k with
  | nil => exact nomatch found
  | cons head closings ih =>
      rw [record_cons]
      cases k with
      | zero =>
          obtain rfl : head = closing := Option.some.inj found
          have time : first + (0 : Nat) = head.context.time := by
            rw [times.head]
            omega
          -- The other periods stand behind the first one and leave it alone.
          rw [get?_record_of_ne times.tail (fun k _ => by omega), time,
            Collection.OrderedMap.get?_insert_self]
      | succ k =>
          have shifted : first + (k + 1 : Nat) = first + 1 + k := by omega
          rw [shifted]
          exact ih times.tail found _

end Series

/-! ### Owners -/

namespace Plan

variable {plan : Plan} {start : Int} {closed : List Closing}

/-- The values that there are for the time of period number `j`, when the periods of `closed` are
closed. What was assumed ahead of time counts for the times that nobody else has. -/
def snapshotAt? (plan : Plan) (start : Int) (closed : List Closing) (j : Int) : Option Snapshot :=
  if 0 ≤ j ∧ j < closed.length then closed[j.toNat]?.map Closing.values
  else if j = -1 ∧ plan.opening.isSome = true then plan.opening
  else (Clock.shift? start j).bind plan.lookahead.get?

/-- The answer to a reference to another time, in the period after those of `closed`. -/
def answerAt (plan : Plan) (start : Int) (closed : List Closing) (r : Reference) :
    Except EvalError Float :=
  let j : Int := closed.length + r.offset
  match (plan.snapshotAt? start closed j).bind fun values => values.get? r.code with
  | some v => .ok v
  | none =>
    let t := Clock.clamp (start + j)
    .error (if 0 < r.offset then .noFutureValue r t else .noPriorValue r t)

/-- Ahead of the closed periods there is what was assumed. -/
theorem snapshotAt?_of_le {j : Int} (ahead : closed.length ≤ j)
    (low : Clock.lowest ≤ start + j) (high : start + j ≤ Clock.highest) :
    plan.snapshotAt? start closed j = plan.lookahead.get? (start + j) := by
  unfold snapshotAt?
  rw [if_neg (by omega), if_neg (by omega), Clock.shift?_of_has ⟨low, high⟩, Option.bind_some]

/-- What a run knows before it starts: the opening at the time before its first period, and the
lookahead. The opening overrules what the lookahead has there. -/
theorem get?_history (plan : Plan) (start u : Int) :
    (plan.history start).get? u =
      if u = start - 1 ∧ plan.opening.isSome = true then plan.opening else plan.lookahead.get? u := by
  unfold history
  cases plan.opening with
  | none => simp
  | some values =>
      dsimp only
      rw [Collection.OrderedMap.get?_insert]
      simp

/-- The history has for every time what its owner has. -/
theorem shift?_historyAfter (times : Consecutive start closed)
    (onClock : Clock.lowest ≤ start) (fits : plan.fits start = true)
    (left : closed.length < plan.periods.length) (j : Int) :
    (Clock.shift? start j).bind (plan.historyAfter start closed).get? =
      plan.snapshotAt? start closed j := by
  rw [Clock.bind_shift?]
  unfold snapshotAt?
  split
  -- The owner of a time is a closed period, else the opening, else the lookahead. The cases are
  -- those of `snapshotAt?`.
  · next isClosed =>
    obtain ⟨k, rfl⟩ := Int.eq_ofNat_of_zero_le isClosed.1
    have bound : k < closed.length := by omega
    have found : closed[k]? = some closed[k] := List.getElem?_eq_getElem bound
    rw [Clock.read?_of_has (has_of_fits onClock fits (Nat.lt_trans bound left)), historyAfter,
      Series.get?_record times found, Int.toNat_natCast, found]
    rfl
  · next notClosed =>
    have other : ∀ k < closed.length, start + j ≠ start + (k : Int) := by
      intro k hk same
      exact notClosed (by omega)
    have history :
        (plan.historyAfter start closed).get? (start + j) =
          if start + j = start - 1 ∧ plan.opening.isSome = true then plan.opening
          else plan.lookahead.get? (start + j) := by
      rw [historyAfter, Series.get?_record_of_ne times other, get?_history]
    split
    · next opened =>
      obtain ⟨values, known⟩ := Option.isSome_iff_exists.1 opened.2
      have has : Clock.Has (start + j) := by
        rw [opened.1]
        exact has_opening_of_fits fits known
      rw [Clock.read?_of_has has, history, if_pos ⟨by omega, opened.2⟩]
    · next notOpened =>
      rw [Clock.bind_shift?]
      exact Clock.read?_congr (history.trans (if_neg fun h => notOpened ⟨by omega, h.2⟩))

/-- A reference to another time is answered by the owner of that time. -/
theorem resolve_historyAfter (times : Consecutive start closed)
    (onClock : Clock.lowest ≤ start) (fits : plan.fits start = true)
    (left : closed.length < plan.periods.length) (r : Reference) (p : Nat) :
    Series.resolve (plan.historyAfter start closed) r (plan.contextAt start closed.length p) =
      plan.answerAt start closed r := by
  have owner := shift?_historyAfter times onClock fits left (closed.length + r.offset)
  have time : (plan.contextAt start closed.length p).time + r.offset =
      start + (closed.length + r.offset) :=
    Int.add_assoc start closed.length r.offset
  have value :
      Clock.read? (fun t => Series.value? (plan.historyAfter start closed) t r.code)
          ((plan.contextAt start closed.length p).time + r.offset) =
        (plan.snapshotAt? start closed (closed.length + r.offset)).bind
          fun values => values.get? r.code := by
    rw [time, ← owner, Clock.bind_shift?, ← Clock.read?_bind]
    exact congrArg (Clock.read? · _) (funext fun t => Series.value?_eq_bind _ t r.code)
  -- Both sides find the same snapshot and then the same value in it, or both find none.
  rw [Series.resolve_eq]
  unfold answerAt
  cases found : (plan.snapshotAt? start closed (closed.length + r.offset)).bind
      fun values => values.get? r.code with
  | none =>
      rw [Context.lookUp_of_read?_eq_none (value.trans found), time]
      simp only [found]
      rfl
  | some v =>
      rw [Context.lookUp_of_read?_eq_some (value.trans found)]
      simp only [found]

/-- What was assumed for a time with another owner has no part in the history. -/
theorem historyAfter_eq_of_lookahead (times : Consecutive start closed) {other : Series}
    (agree : ∀ u : Int, (∀ k < closed.length, u ≠ start + k) →
      (plan.opening.isSome = true → u ≠ start - 1) → other.get? u = plan.lookahead.get? u) :
    { plan with lookahead := other }.historyAfter start closed = plan.historyAfter start closed := by
  refine Collection.OrderedMap.ext_get? fun u => ?_
  unfold historyAfter
  by_cases isClosed : ∃ k, k < closed.length ∧ u = start + (k : Int)
  · obtain ⟨k, bound, rfl⟩ := isClosed
    have found : closed[k]? = some closed[k] := List.getElem?_eq_getElem bound
    rw [Series.get?_record times found, Series.get?_record times found]
  · have notClosed : ∀ k < closed.length, u ≠ start + (k : Int) :=
      fun k bound same => isClosed ⟨k, bound, same⟩
    rw [Series.get?_record_of_ne times notClosed, Series.get?_record_of_ne times notClosed,
      get?_history, get?_history]
    dsimp only
    split
    · rfl
    · next notOpened =>
      exact agree u notClosed fun opened same => notOpened ⟨same, opened⟩

end Plan

/-! ### Runs -/

namespace Runner

variable {r : Runner} {c : Calculator} {plan : Plan} {switch : Switch}

/-- A calculator that is ready has the statement of its runner, and the plan stays on the clock. -/
theorem calculator_eq_ok (ready : r.calculator plan = .ok c) :
    plan.fits r.options.start = true ∧ c.statement = r.statement := by
  obtain ⟨fits, raw, -, rfl⟩ := calculator_eq_ok_iff.1 ready
  exact ⟨fits, rfl⟩

/-- The closed periods of a run stand one behind the other. -/
theorem consecutive_closings {o : Outcome} {history : Series} {ps : List Nat}
    (unfolds : o.Unfolds r c plan 0 history ps) : Consecutive r.options.start o.closings := by
  intro k closing hk
  obtain ⟨p, -, closed⟩ := unfolds.closed k closing hk
  rw [context_of_closePeriod closed]
  show r.options.start + ((0 + k : Nat) : Int) = _
  rw [Nat.zero_add]

/-- A run that gets to its period number `i` calculates it from the history of the periods closed
before. Formulas of items that look at another time, and rules that do, are answered by the owner of
that time, and with the error for its direction where the owner has no value. What was assumed for
the time of a closed period or of the opening is not in the history, and what looks at the period at
hand does not look at the history. -/
theorem execute_resolves_shifted {i p : Nat} (onClock : Clock.lowest ≤ r.options.start)
    (ready : r.calculator plan = .ok c) (period : plan.periods[i]? = some p)
    (reached : i ≤ (r.execute plan switch).closings.length) :
    let outcome := r.execute plan switch
    let start := r.options.start
    let closed := outcome.closings.take i
    let history := plan.historyAfter start closed
    let context := plan.contextAt start i p
    let result := closePeriod c r.invariants history context
    ((∀ closing, outcome.closings[i]? = some closing → result = .ok closing) ∧
      (outcome.closings[i]? = none → ∃ e, outcome.ending = .failed ⟨i, p, e⟩ ∧
        (e = .cancelled ∨ result = .error e))) ∧
    (∀ ref : Reference, ref.source = none → ref.offset ≠ 0 →
      (r.statement.contains ref.code = true → ∀ ledger,
        (c.itemEnvironment history context ledger).chain.resolve ref context =
          plan.answerAt start closed ref) ∧
      ∀ values, (c.ruleEnvironment history context values).chain.resolve ref context =
        plan.answerAt start closed ref) ∧
    (∀ other : Series,
      (∀ u : Int, (∀ k < i, u ≠ start + k) → (plan.opening.isSome = true → u ≠ start - 1) →
        other.get? u = plan.lookahead.get? u) →
      { plan with lookahead := other }.historyAfter start closed = history) ∧
    ∀ ref : Reference, ref.offset = 0 → ∀ other : Series,
      (∀ ledger, (c.itemEnvironment other context ledger).chain.resolve ref context =
        (c.itemEnvironment history context ledger).chain.resolve ref context) ∧
      ∀ values, (c.ruleEnvironment other context values).chain.resolve ref context =
        (c.ruleEnvironment history context values).chain.resolve ref context := by
  intro outcome start closed history context result
  have unfolds := unfolds_execute ready switch
  have times : Consecutive start closed := (consecutive_closings unfolds).take i
  have length : closed.length = i := List.length_take_of_le reached
  obtain ⟨fits, statement⟩ := calculator_eq_ok ready
  have left : closed.length < plan.periods.length := by
    rw [length]
    exact (List.getElem?_eq_some_iff.1 period).1
  -- One lookup serves items and rules, which both leave other times to the history.
  have answer (ref : Reference) :
      Series.resolve history ref context = plan.answerAt start closed ref := by
    have owner := Plan.resolve_historyAfter times onClock fits left ref p
    rwa [length] at owner
  refine ⟨?_, fun ref bare shifted => ⟨?_, ?_⟩, ?_, ?_⟩
  · have calculated := unfolds.result_at period reached
    rwa [Nat.zero_add] at calculated
  · intro known ledger
    rw [← statement] at known
    rw [Calculator.resolve_item_shifted bare shifted known]
    exact answer ref
  · intro values
    rw [Calculator.resolve_rule_shifted bare shifted]
    exact answer ref
  · intro other agree
    refine Plan.historyAfter_eq_of_lookahead times fun u notClosed => agree u ?_
    rwa [length] at notClosed
  · intro ref now other
    exact ⟨fun ledger => Calculator.resolve_item_now_congr now other history,
      fun values => Calculator.resolve_rule_now_congr now other history⟩

set_option maxRecDepth 20000 in
/-- In the second period the times of the opening and of the first period have owners, and what the
plan assumes for them is not seen. What it assumes for the next time is; for the one behind it there
is nothing. -/
theorem execute_resolves_shifted_second_period :
    let statement : Statement :=
      { code := ""
        items := [
          { code := "RE"
            formula := some ⟨"RE[t-1]+40",
              .binary .add (.reference ⟨none, "RE", -1⟩) (.number 40.0), [⟨none, "RE", -1⟩]⟩
            declared := { code := "RE", formula := some "RE[t-1]+40" } }]
        order := [0]
        graph := ⟨["RE"], []⟩
        checks := [] }
    let r : Runner := ⟨statement, .standard, {}, [], none, []⟩
    let c : Calculator := ⟨statement, .standard, {}, []⟩
    let plan : Plan := ⟨"E1", 1, [7, 8], some (.ofList [("RE", 1000.0)]), .ofList
      [(-1, .ofList [("RE", 1.0)]), (0, .ofList [("RE", 2.0)]), (2, .ofList [("RE", 3.0)])]⟩
    let closed := (r.execute plan .untouched).closings.take 1
    let context := plan.contextAt 0 1 8
    let chain := (c.itemEnvironment (plan.historyAfter 0 closed) context (.ofSize 1)).chain
    closed.map (fun closing => closing.values.toList) = [[("RE", 1040.0)]] ∧
      chain.resolve ⟨none, "RE", -1⟩ context = .ok 1040.0 ∧
      chain.resolve ⟨none, "RE", -2⟩ context = .ok 1000.0 ∧
      chain.resolve ⟨none, "RE", 1⟩ context = .ok 3.0 ∧
      chain.resolve ⟨none, "RE", 2⟩ context = .error (.noFutureValue ⟨none, "RE", 2⟩ 3) := by
  intro statement r c plan closed context chain
  have ready : r.calculator plan = .ok c := rfl
  have values : closed.map (fun closing => closing.values.toList) = [[("RE", 1040.0)]] := by
    with_unfolding_all rfl
  have length : closed.length = 1 := by
    rw [← List.length_map (fun closing => closing.values.toList), values, List.length_singleton]
  have reached : 1 ≤ (r.execute plan .untouched).closings.length :=
    Nat.le_trans (Nat.le_of_eq length.symm) (List.length_take_le' 1 _)
  obtain ⟨-, shifted, -⟩ :=
    execute_resolves_shifted (by decide : Clock.lowest ≤ r.options.start) ready
      (rfl : plan.periods[1]? = some 8) reached
  have answer (offset : Int) (h : offset ≠ 0) :
      chain.resolve ⟨none, "RE", offset⟩ context = plan.answerAt 0 closed ⟨none, "RE", offset⟩ :=
    (shifted ⟨none, "RE", offset⟩ rfl h).1 rfl (.ofSize 1)
  refine ⟨values, ?_, ?_, ?_, ?_⟩
  · rw [answer (-1) (by decide)]
    with_unfolding_all rfl
  · rw [answer (-2) (by decide)]
    with_unfolding_all rfl
  · rw [answer 1 (by decide), Plan.answerAt, length,
      Plan.snapshotAt?_of_le (by rw [length]; decide) (by decide) (by decide)]
    rfl
  · rw [answer 2 (by decide), Plan.answerAt, length,
      Plan.snapshotAt?_of_le (by rw [length]; decide) (by decide) (by decide)]
    rfl

end Runner

end Rollforward
