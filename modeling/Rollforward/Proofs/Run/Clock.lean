import Rollforward.Proofs.Formula.References
import Rollforward.Proofs.Period.Solvable
import Rollforward.Proofs.Run.Calendar

/-!
# `Rollforward.Proofs.Run.Clock`: a run keeps to the clock

Time indices have 32 bits, and arithmetic in 32 bits wraps round where it leaves the clock
(`Clock.wrap`). One check before the first period keeps a run on it. It is exact for the plans that
leave the clock (`Plan.fits_eq_true_iff`), and no other error is one of the configuration
(`Runner.isConfiguration_of_fits`). Of the plans that stay on the clock all times are exact sums.

An offset is small enough for 32 bits itself (`Formula.natAbs_offset_le`), but the time that it
leads to may lie off the clock. `Formula.Reference.answerAt` is what every lookup answers then: that
nothing is known of the time, and not what is known of another one.
-/

set_option autoImplicit false

namespace Rollforward

open Formula (Reference)

/-! ### Sums in 32 bits -/

/-- The time index `offset` steps from `t` in 32 bits, where sums wrap round. -/
def Clock.wrap (t offset : Int) : Int := (Int32.ofInt t + Int32.ofInt offset).toInt

/-- A sum in 32 bits is exact where the clock has it, and nowhere else. -/
theorem Clock.wrap_eq_add_iff {t offset : Int} : wrap t offset = t + offset ↔ Has (t + offset) := by
  have rounded : wrap t offset = (t + offset).bmod (2 ^ 32) := by
    simp [wrap]
  rw [rounded, Has, lowest, highest, Int.bmod_def]
  omega

/-- The clock has every number that is no larger than the largest offset, below zero or above. -/
theorem Clock.has_of_natAbs_le {t : Int} (small : t.natAbs ≤ Formula.largestOffset) : Has t := by
  unfold Formula.largestOffset at small
  unfold Has lowest highest
  omega

/-! ### Plans that leave the clock -/

namespace Plan

/-- In exact integers, the clock has no time for the opening or none for a period of the plan: the
number of the last period is no time index, or its time is not. -/
def LeavesClock (plan : Plan) (start : Int) : Prop :=
  (plan.opening.isSome = true ∧ start - 1 < Clock.lowest) ∨
    (1 ≤ plan.periods.length ∧ (Clock.highest < (plan.periods.length : Int) - 1 ∨
      Clock.highest < start + plan.periods.length - 1))

instance (plan : Plan) (start : Int) : Decidable (plan.LeavesClock start) :=
  inferInstanceAs (Decidable (_ ∨ _))

/-- The check before a run is exact: it is not only enough to keep the run on the clock, it refuses
no run that would stay on it. -/
theorem fits_eq_true_iff {plan : Plan} {start : Int} (onClock : Clock.Has start) :
    plan.fits start = true ↔ ¬plan.LeavesClock start := by
  obtain ⟨low, high⟩ := onClock
  simp only [fits, Bool.and_eq_true, Bool.or_eq_true, decide_eq_true_eq]
  unfold LeavesClock lastIndex
  unfold Clock.lowest Clock.highest at *
  cases plan.opening with
  | none =>
      simp only [Option.isNone_none, true_or, true_and, Option.isSome_none, Bool.false_eq_true,
        false_and, false_or]
      omega
  | some values =>
      simp only [Option.isNone_some, Bool.false_eq_true, false_or, Option.isSome_some, true_and]
      omega

/-- The calendar of a plan that fits has all its periods, each at its time. -/
theorem get?_calendar_eq_some_iff {plan : Plan} {start : Int} (onClock : Clock.lowest ≤ start)
    (fits : plan.fits start = true) {t : Int} {p : Nat} :
    (Calendar.sequential start plan.periods).get? t = some p ↔
      ∃ k : Nat, t = start + k ∧ plan.periods[k]? = some p := by
  rw [Calendar.get?_sequential_eq_some_iff]
  constructor
  · rintro ⟨k, time, period, -⟩
    exact ⟨k, time, period⟩
  · rintro ⟨k, rfl, period⟩
    have has := has_of_fits onClock fits (List.getElem?_eq_some_iff.1 period).1
    exact ⟨k, rfl, period, has.2⟩

end Plan

/-! ### Configuration errors -/

/-- The clock has no time for what is asked of the period. -/
def PeriodError.isConfiguration : PeriodError → Bool
  | .noTimeBefore _ => true
  | _ => false

/-- The clock has no time for what is asked of the run. -/
def RunError.isConfiguration : RunError → Bool
  | .outsideClock _ _ => true
  | .period e => e.isConfiguration
  | _ => false

/-- A period that is calculated fails for its items or for its rules. -/
theorem Calculator.isConfiguration_of_calculateIn_eq_error {c : Calculator} {history : Series}
    {context : Context} {e : PeriodError} (h : c.calculateIn history context = .error e) :
    e.isConfiguration = false := by
  unfold calculateIn at h
  cases ledger : c.ledger history context with
  | error fault =>
      rw [ledger] at h
      obtain rfl : fault = e := Except.error.inj h
      obtain ⟨i, -, source, rfl⟩ | ⟨code, rfl⟩ := fill_eq_error ledger
      · rfl
      · rfl
  | ok l =>
      rw [ledger] at h
      dsimp only at h
      split at h
      · cases h
        rfl
      · cases h

namespace Runner

variable {r : Runner} {c : Calculator} {plan : Plan} {switch : Switch}

/-- What goes wrong in a period is no fault of the configuration. -/
theorem isConfiguration_of_closePeriod_eq_error {invariants : List Check} {history : Series}
    {context : Context} {e : RunError}
    (h : closePeriod c invariants history context = .error e) : e.isConfiguration = false := by
  unfold closePeriod at h
  cases calculated : c.calculateIn history context with
  | error fault =>
      rw [calculated] at h
      cases h
      exact Calculator.isConfiguration_of_calculateIn_eq_error calculated
  | ok closing =>
      rw [calculated] at h
      dsimp only at h
      split at h
      · cases h
      · cases h
        rfl

/-- Nor is what goes wrong when raw inputs are loaded. -/
theorem isConfiguration_of_rawProvider_eq_error {e : RunError}
    (h : r.rawProvider plan = .error e) : e.isConfiguration = false := by
  unfold rawProvider at h
  split at h
  · cases h
  · split at h
    · cases h
      rfl
    · cases h

/-- Of a plan that fits, no period fails with a configuration error, and nothing fails with one in
front of the first. -/
theorem isConfiguration_of_fits (fits : plan.fits r.options.start = true) {f : Failure}
    (failed : (r.execute plan switch).ending = .failed f) : f.cause.isConfiguration = false := by
  cases ready : r.calculator plan with
  | error e =>
      rw [execute_eq_of_error ready] at failed
      cases failed
      rw [calculator, if_pos fits] at ready
      cases raw : r.rawProvider plan with
      | error fault =>
          rw [raw] at ready
          cases ready
          exact isConfiguration_of_rawProvider_eq_error raw
      | ok chain =>
          rw [raw] at ready
          cases ready
  | ok c =>
      obtain ⟨-, -, cancelled | result⟩ := (unfolds_execute ready switch).failed f failed
      · rw [cancelled]
        rfl
      · exact isConfiguration_of_closePeriod_eq_error result

/-- A plan that does not fit is refused with a configuration error. -/
theorem execute_eq_of_not_fits (unfit : ¬plan.fits r.options.start = true) :
    r.execute plan switch =
      ⟨[], .failed ⟨0, plan.periods.head?.getD 0,
        .outsideClock plan.periods.length r.options.start⟩, switch.pressed 0⟩ :=
  execute_eq_of_error (if_neg unfit) switch

end Runner

/-! ### Lookups -/

/-- What a reference of another time is answered from `f`, which has something for some times: what
`f` has at `t`, or that nothing is known of `t` ahead or behind. The nearest time on the clock is
reported. -/
def Formula.Reference.answerAt {β : Type} (r : Reference) (f : Int → Option β) (t : Int) :
    Except EvalError β :=
  match Clock.read? f t with
  | some v => .ok v
  | none =>
    .error (if 0 < r.offset then .noFutureValue r (Clock.clamp t)
      else .noPriorValue r (Clock.clamp t))

namespace Context

variable {β : Type} {context : Context} {r : Reference}

/-- To look something up is to read at the exact sum. -/
theorem lookUp_eq_answerAt (f : Int → Option β) :
    context.lookUp f r = r.answerAt f (context.time + r.offset) := by
  rw [Reference.answerAt]
  cases found : Clock.read? f (context.time + r.offset) with
  | some v => rw [lookUp_of_read?_eq_some found]
  | none =>
      rw [lookUp_of_read?_eq_none found]
      rfl

end Context

/-- A series answers from what it has at the time. -/
theorem Series.resolve_eq_answerAt (s : Series) (r : Reference) (context : Context) :
    s.resolve r context =
      r.answerAt (fun t => s.value? t r.code) (context.time + r.offset) := by
  rw [resolve_eq, Context.lookUp_eq_answerAt]

namespace Provider

variable {r : Reference} {context : Context}

/-- Another period than its own is a matter of the history. -/
theorem resolve_statement_eq_answerAt (shifted : r.offset ≠ 0) (s : Statement) (ledger : Ledger)
    (history : Series) :
    (statement s ledger history).resolve r context =
      r.answerAt (fun t => history.value? t r.code) (context.time + r.offset) := by
  rw [← Series.resolve_eq_answerAt]
  exact if_neg shifted

/-- The same for the rules of a period. -/
theorem resolve_snapshot_eq_answerAt (shifted : r.offset ≠ 0) (values : Snapshot)
    (history : Series) :
    (snapshot values history).resolve r context =
      r.answerAt (fun t => history.value? t r.code) (context.time + r.offset) := by
  rw [← Series.resolve_eq_answerAt]
  exact if_neg shifted

/-- In the period in progress the items do not look at other times. -/
theorem resolve_statement_now_congr (now : r.offset = 0) (s : Statement) (ledger : Ledger)
    (history other : Series) :
    (statement s ledger history).resolve r context =
      (statement s ledger other).resolve r context := by
  simp only [statement, if_pos now]

/-- In the period at hand a closed period does not look at other times. -/
theorem resolve_snapshot_now_congr (now : r.offset = 0) (values : Snapshot)
    (history other : Series) :
    (snapshot values history).resolve r context = (snapshot values other).resolve r context := by
  simp only [snapshot, if_pos now]

/-- Another domain has values of the period at hand too, or a gap. -/
theorem resolve_domain_now (onClock : Clock.Has context.time) (now : r.offset = 0)
    (written : String) (series : Series) :
    (domain written series).resolve r context =
      match series.value? context.time r.code with
      | some v => .ok v
      | none =>
        .error (.gap (Formula.Namespace.ofName written).name r (.noValueAt context.time)) := by
  have read : Clock.read? (fun t => series.value? t r.code) (context.time + r.offset) =
      series.value? context.time r.code := by
    rw [now, Int.add_zero, Clock.read?_of_has onClock]
  cases found : series.value? context.time r.code with
  | some v => rw [resolve_domain_of_read?_eq_some (read.trans found)]
  | none => rw [resolve_domain_of_read?_eq_none onClock (read.trans found), if_pos now]

/-- And for a domain with its series. -/
theorem resolve_domain_eq_answerAt (onClock : Clock.Has context.time) (shifted : r.offset ≠ 0)
    (written : String) (series : Series) :
    (domain written series).resolve r context =
      r.answerAt (fun t => series.value? t r.code) (context.time + r.offset) := by
  rw [← Context.lookUp_eq_answerAt]
  cases found : Clock.read? (fun t => series.value? t r.code) (context.time + r.offset) with
  | some v => rw [resolve_domain_of_read?_eq_some found, Context.lookUp_of_read?_eq_some found]
  | none =>
      rw [resolve_domain_of_read?_eq_none onClock found, if_neg shifted,
        Context.lookUp_of_read?_eq_none found]

/-- Raw inputs of another period are a matter of the calendar, which has the input of each time. -/
theorem rawPeriod_eq_answerAt (shifted : r.offset ≠ 0) (calendar : Calendar) :
    rawPeriod calendar r context = r.answerAt calendar.get? (context.time + r.offset) := by
  rw [rawPeriod_eq, if_neg shifted, Context.lookUp_eq_answerAt]

end Provider

/-- What raw inputs have for a reference that reads a key in a period. -/
def RawInputs.answer (inputs : RawInputs) (r : Reference) (key : String) (period : Nat) :
    Except EvalError Float :=
  match inputs.get? key period with
  | some v => .ok v
  | none =>
    .error (.gap Provider.rawInputName r
      (.noRecord key period inputs.entity inputs.scenario))

/-- Raw inputs are read in two steps: the period, then the value in it. Only the first step has to
do with the clock. -/
theorem Provider.resolve_rawInput_eq (inputs : RawInputs) (claims : Claims) (calendar : Calendar)
    (r : Reference) (context : Context) :
    (rawInput inputs claims calendar).resolve r context =
      (rawPeriod calendar r context).bind (inputs.answer r (rawKey claims r)) := by
  simp only [rawInput]
  cases rawPeriod calendar r context with
  | error e => rfl
  | ok p => rfl

/-! ### Runs -/

namespace Runner

variable {r : Runner}

/-- A run is refused with a configuration error, before its first period and without a result,
exactly when its plan leaves the clock. Of any other plan the time of the opening, the time of every
period and the times of the calendar are exact sums, in 32 bits too.

A formula has offsets that 32 bits can hold, either way. In any period of the clock a reference with
an offset is answered from what there is at the exact sum of the two, by the items, by a closed
period and by other domains, and raw inputs are read in the period that the calendar has there.
Where the clock has no such time there is no value, and the direction of the offset says of which
kind. A reference without offset does not look at other times. -/
theorem execute_stays_on_clock (onClock : Clock.Has r.options.start) (plan : Plan)
    (switch : Switch) :
    let start := r.options.start
    let outcome := r.execute plan switch
    ((outcome.closings = [] ∧
        ∃ p e, outcome.ending = .failed ⟨0, p, e⟩ ∧ e.isConfiguration = true) ↔
      plan.LeavesClock start) ∧
    (¬plan.LeavesClock start →
      (∀ f, outcome.ending = .failed f → f.cause.isConfiguration = false) ∧
      (∀ values, plan.opening = some values →
        Clock.wrap start (-1) = start - 1 ∧
          (plan.history start).get? (start - 1) = some values) ∧
      (∀ (k p : Nat), plan.periods[k]? = some p →
        Clock.wrap start k = start + k ∧ (plan.contextAt start k p).time = start + k) ∧
      (∀ c, r.calculator plan = .ok c →
        outcome.Unfolds r c plan 0 (plan.history start) plan.periods) ∧
      (∀ (k : Nat) closing, outcome.closings[k]? = some closing →
        closing.context.time = start + k) ∧
      ∀ t p, (Calendar.sequential start plan.periods).get? t = some p ↔
        ∃ k : Nat, t = start + k ∧ plan.periods[k]? = some p) ∧
    ∀ formula e, Formula.parse formula = .ok e → ∀ ref ∈ e.references,
      Clock.Has ref.offset ∧ Clock.Has (-ref.offset) ∧
      ∀ context : Context, Clock.Has context.time → ∀ history : Series,
        let t := context.time + ref.offset
        let answer := ref.answerAt (fun u => history.value? u ref.code) t
        (ref.offset ≠ 0 →
          (∀ statement ledger,
            (Provider.statement statement ledger history).resolve ref context = answer) ∧
          (∀ values, (Provider.snapshot values history).resolve ref context = answer) ∧
          (∀ written, (Provider.domain written history).resolve ref context = answer) ∧
          ∀ inputs claims calendar,
            (Provider.rawInput inputs claims calendar).resolve ref context =
              (ref.answerAt calendar.get? t).bind
                (inputs.answer ref (Provider.rawKey claims ref))) ∧
        (ref.offset = 0 →
          (∀ statement ledger other,
            (Provider.statement statement ledger history).resolve ref context =
              (Provider.statement statement ledger other).resolve ref context) ∧
          (∀ values other,
            (Provider.snapshot values history).resolve ref context =
              (Provider.snapshot values other).resolve ref context) ∧
          ∀ written, (Provider.domain written history).resolve ref context =
            match history.value? context.time ref.code with
            | some v => .ok v
            | none => .error
              (.gap (Formula.Namespace.ofName written).name ref (.noValueAt context.time))) := by
  intro start outcome
  have fits_iff := plan.fits_eq_true_iff onClock
  refine ⟨⟨?refused, ?refuses⟩, ?exact, ?lookups⟩
  case refused =>
    rintro ⟨-, p, e, ending, configuration⟩
    by_contra stays
    have other := isConfiguration_of_fits (fits_iff.2 stays) ending
    cases configuration.symm.trans other
  -- The check comes before everything else, so the outcome is known as soon as it refuses.
  case refuses =>
    intro leaves
    have outcome_eq : outcome = _ := execute_eq_of_not_fits (mt fits_iff.1 (not_not_intro leaves))
    rw [outcome_eq]
    exact ⟨rfl, _, _, rfl, rfl⟩
  case exact =>
    intro stays
    have fits := fits_iff.2 stays
    -- Every period of the plan is on the clock. The sums below are exact for this reason.
    have has {k p : Nat} (period : plan.periods[k]? = some p) : Clock.Has (start + k) :=
      Plan.has_of_fits onClock.1 fits (List.getElem?_eq_some_iff.1 period).1
    refine ⟨fun f => isConfiguration_of_fits fits, ?opening, ?periods, ?contexts, ?closings,
      ?calendar⟩
    case opening =>
      intro values opened
      refine ⟨Clock.wrap_eq_add_iff.2 (Plan.has_opening_of_fits fits opened), ?_⟩
      rw [Plan.get?_history, if_pos ⟨rfl, Option.isSome_of_eq_some opened⟩, opened]
    case periods => exact fun k p period => ⟨Clock.wrap_eq_add_iff.2 (has period), rfl⟩
    case contexts => exact fun c ready => unfolds_execute ready switch
    case closings =>
      intro k closing kept
      obtain ⟨c, p, -, -, closed⟩ := exists_closePeriod_of_execute kept
      rw [context_of_closePeriod closed]
      rfl
    case calendar => exact fun t p => Plan.get?_calendar_eq_some_iff onClock.1 fits
  case lookups =>
    intro formula e parsed ref hr
    -- From here on there is no run: a parsed offset is small whatever the plan is.
    have small := Formula.natAbs_offset_le parsed hr
    refine ⟨Clock.has_of_natAbs_le small, Clock.has_of_natAbs_le ?_, ?_⟩
    · rwa [Int.natAbs_neg]
    intro context onClock history t answer
    refine ⟨fun shifted => ⟨?_, ?_, ?_, ?_⟩, fun now => ⟨?_, ?_, ?_⟩⟩
    · exact fun s ledger => Provider.resolve_statement_eq_answerAt shifted s ledger history
    · exact fun values => Provider.resolve_snapshot_eq_answerAt shifted values history
    · exact fun written => Provider.resolve_domain_eq_answerAt onClock shifted written history
    · intro inputs claims calendar
      rw [Provider.resolve_rawInput_eq, Provider.rawPeriod_eq_answerAt shifted]
    · exact fun s ledger => Provider.resolve_statement_now_congr now s ledger history
    · exact fun values => Provider.resolve_snapshot_now_congr now values history
    · exact fun written => Provider.resolve_domain_now onClock now written history

set_option maxRecDepth 20000 in
/-- At the far end of the clock there is room for two periods and no more, and a step ahead of the
second finds nothing. At the near end there is room for a period, but not for an opening. -/
theorem execute_stays_on_clock_at_the_ends :
    let r (start : Int) : Runner := ⟨⟨"", [], [], ⟨[], []⟩, []⟩, .standard, { start }, [], none, []⟩
    let plan (periods : List Nat) (opening : Option Snapshot) : Plan :=
      ⟨"E1", 1, periods, opening, .empty⟩
    let outcome (start : Int) (periods : List Nat) (opening : Option Snapshot) : Outcome :=
      (r start).execute (plan periods opening) .untouched
    let refused (o : Outcome) : Prop :=
      o.closings = [] ∧ ∃ p e, o.ending = .failed ⟨0, p, e⟩ ∧ e.isConfiguration = true
    let ahead : Reference := ⟨none, "X", 1⟩
    let last : Context := ⟨"E1", 1, 8, 2147483647⟩
    (¬refused (outcome 2147483646 [7, 8] none) ∧
      (outcome 2147483646 [7, 8] none).closings.map (fun closing => closing.context.time) =
        [2147483646, 2147483647]) ∧
    refused (outcome 2147483646 [7, 8, 7] none) ∧
    ¬refused (outcome (-2147483648) [7] none) ∧
    refused (outcome (-2147483648) [7] (some .empty)) ∧
    ∀ values history, (Provider.snapshot values history).resolve ahead last =
      .error (.noFutureValue ahead 2147483647) := by
  intro r plan outcome refused ahead last
  have far (periods : List Nat) :=
    execute_stays_on_clock (by decide : Clock.Has (r 2147483646).options.start)
      (plan periods none) .untouched
  have near (opening : Option Snapshot) :=
    execute_stays_on_clock (by decide : Clock.Has (r (-2147483648)).options.start)
      (plan [7] opening) .untouched
  refine ⟨⟨?_, by with_unfolding_all rfl⟩, ?_, ?_, ?_, ?_⟩
  · exact mt (far [7, 8]).1.1 (by decide)
  · exact (far [7, 8, 7]).1.2 (by decide)
  · exact mt (near none).1.1 (by decide)
  · exact (near (some .empty)).1.2 (by decide)
  · intro values history
    have parsed : Formula.parse "X[t+1]" = .ok (.reference ahead) := by
      with_unfolding_all rfl
    obtain ⟨-, -, lookups⟩ := (far [7, 8]).2.2 "X[t+1]" _ parsed ahead (by decide)
    obtain ⟨shifted, -⟩ := lookups last (by decide) history
    rw [(shifted (by decide)).2.1 values]
    rfl

end Runner

end Rollforward
