import Rollforward.Proofs.Run.Progress
import Rollforward.Registry.Standard

/-!
# `Rollforward.Proofs.Run.Cancellation`: a cancelled run is the beginning of the run

A run with a switch is compared with the same run that nobody can cancel. The second says at which
periods the switch is set (`Outcome.SwitchSetAt`): someone outside has asked by then, or a call in a
period before did, and what the calls of a period ask does not depend on the switch.

The two runs go the same way to the first such period, if they get to it. There the one stops before
the period is calculated, so whether the period would have failed does not matter any more. If they
do not get there, nothing is ever looked up that differs (`Runner.proceed_cancelled`, by induction
over the periods). `Runner.execute_cancelled_prefix` is what this says of whole runs.
-/

set_option autoImplicit false

namespace Rollforward

/-! ### When the switch is set -/

namespace Outcome

/-- The run gets to the period number `j` of `ps`, and a call in it asks for the run to be
cancelled. -/
def AsksIn (o : Outcome) (r : Runner) (c : Calculator) (plan : Plan) (index : Nat)
    (history : Series) (ps : List Nat) (j : Nat) : Prop :=
  j ≤ o.closings.length ∧ ∃ p, ps[j]? = some p ∧
    Runner.periodCancels c r.invariants (.record history (o.closings.take j))
      (plan.contextAt r.options.start (index + j) p) = true

/-- The switch is set by the time the period number `k` of `ps` begins: from before these periods,
by someone outside, or by a call in one of the periods before. -/
def SetAt (o : Outcome) (r : Runner) (c : Calculator) (plan : Plan) (switch : Switch)
    (index : Nat) (history : Series) (asked : Bool) (ps : List Nat) (k : Nat) : Prop :=
  asked = true ∨ switch.pressed (index + k) = true ∨
    switch.shared = true ∧ ∃ j < k, o.AsksIn r c plan index history ps j

variable {r : Runner} {c : Calculator} {plan : Plan} {switch : Switch} {index : Nat}
  {history : Series} {asked : Bool} {p : Nat} {ps : List Nat} {k : Nat} {closing : Closing}
  {o rest : Outcome}

/-- What the first period asks for is a matter of its own calls. -/
theorem asksIn_zero_iff :
    o.AsksIn r c plan index history (p :: ps) 0 ↔
      Runner.periodCancels c r.invariants history (plan.contextAt r.options.start index p) =
        true := by
  constructor
  · rintro ⟨-, q, period, asks⟩
    obtain rfl : p = q := Option.some.inj period
    exact asks
  · exact fun asks => ⟨Nat.zero_le _, p, rfl, asks⟩

/-- What a later period asks for is what it asks for in the rest of the run. -/
theorem asksIn_succ_iff {j : Nat} :
    AsksIn ⟨closing :: rest.closings, rest.ending, rest.cancelled⟩ r c plan index history (p :: ps)
        (j + 1) ↔
      rest.AsksIn r c plan (index + 1) (history.insert closing.context.time closing.values) ps
        j := by
  have number : index + (j + 1) = index + 1 + j := by omega
  unfold AsksIn
  rw [List.getElem?_cons_succ, number, List.take_succ_cons, Series.record_cons, List.length_cons,
    Nat.succ_le_succ_iff]

/-- Nothing sets the switch before the first period but what is there already. -/
theorem setAt_zero_iff :
    o.SetAt r c plan switch index history asked ps 0 ↔
      (asked || switch.pressed index) = true := by
  simp [SetAt]

/-- Behind a first period that is not cancelled, the switch is set as it is in the rest of the run
when that begins with what the calls of the period ask. -/
theorem setAt_succ_iff (unpressed : (asked || switch.pressed index) = false) :
    SetAt ⟨closing :: rest.closings, rest.ending, rest.cancelled⟩ r c plan switch index history
        asked (p :: ps) (k + 1) ↔
      rest.SetAt r c plan switch (index + 1)
        (history.insert closing.context.time closing.values)
        (switch.shared && Runner.periodCancels c r.invariants history
          (plan.contextAt r.options.start index p)) ps k := by
  have number : index + (k + 1) = index + 1 + k := by omega
  have unasked : asked = false := (Bool.or_eq_false_iff.1 unpressed).1
  unfold SetAt
  rw [unasked, number, Bool.and_eq_true]
  constructor
  · rintro (asked | pressed | ⟨shared, _ | j, before, asks⟩)
    · cases asked
    · exact Or.inr (Or.inl pressed)
    · exact Or.inl ⟨shared, asksIn_zero_iff.1 asks⟩
    · exact Or.inr (Or.inr ⟨shared, j, Nat.lt_of_succ_lt_succ before, asksIn_succ_iff.1 asks⟩)
  · rintro (⟨shared, asks⟩ | pressed | ⟨shared, j, before, asks⟩)
    · exact Or.inr (Or.inr ⟨shared, 0, Nat.succ_pos k, asksIn_zero_iff.2 asks⟩)
    · exact Or.inr (Or.inl pressed)
    · exact Or.inr (Or.inr ⟨shared, j + 1, Nat.succ_lt_succ before, asksIn_succ_iff.2 asks⟩)

/-! ### Stopped runs -/

/-- The outcome `stopped` is `whole` up to the first period at which the switch is set, and ends
before that. It is all of `whole` when this does not get to such a period. -/
inductive StoppedAtFirst (set : Nat → Prop) (index : Nat) (ps : List Nat)
    (whole stopped : Outcome) : Prop where
  | stopped {k p : Nat} (period : ps[k]? = some p) (here : set k) (before : ∀ j < k, ¬set j)
    (reached : k ≤ whole.closings.length) (closings : stopped.closings = whole.closings.take k)
    (ending : stopped.ending = .failed ⟨index + k, p, .cancelled⟩)
  | same (unset : ∀ k p, ps[k]? = some p → set k → whole.closings.length < k)
    (closings : stopped.closings = whole.closings) (ending : stopped.ending = whole.ending)

/-- A first period that is closed without the switch set moves the rest of both runs up by one. -/
theorem StoppedAtFirst.cons {set set' : Nat → Prop} {whole stopped : Outcome}
    (h : StoppedAtFirst set (index + 1) ps whole stopped) (closing : Closing) (p : Nat)
    (unset : ¬set' 0) (later : ∀ k, set' (k + 1) ↔ set k) :
    StoppedAtFirst set' index (p :: ps)
      ⟨closing :: whole.closings, whole.ending, whole.cancelled⟩
      ⟨closing :: stopped.closings, stopped.ending, stopped.cancelled⟩ := by
  cases h with
  | @stopped k q period here before reached closings ending =>
      have number : index + (k + 1) = index + 1 + k := by omega
      refine .stopped (k := k + 1) period ((later k).2 here) ?_ (Nat.succ_le_succ reached) ?_ ?_
      · rintro (_ | j) hj
        · exact unset
        · exact fun set => before j (Nat.lt_of_succ_lt_succ hj) ((later j).1 set)
      · rw [closings, List.take_succ_cons]
      · rw [number]
        exact ending
  | same none closings ending =>
      refine .same ?_ (congrArg (closing :: ·) closings) ending
      rintro (_ | k) q period set
      · exact absurd set unset
      · exact Nat.succ_lt_succ (none k q period ((later k).1 set))

end Outcome

namespace Runner

/-- A run over the periods `ps` with a switch is the run that nobody can cancel, up to the first
period at which the switch is set in that. -/
theorem proceed_cancelled (r : Runner) (c : Calculator) (plan : Plan) (switch : Switch)
    (index : Nat) (history : Series) (asked : Bool) (ps : List Nat) :
    let whole := r.proceed c plan .untouched index history false ps
    Outcome.StoppedAtFirst (whole.SetAt r c plan switch index history asked ps) index ps whole
      (r.proceed c plan switch index history asked ps) := by
  induction ps generalizing index history asked with
  | nil =>
      refine .same ?_ rfl rfl
      rintro k p period -
      cases period
  | cons p ps ih =>
      intro whole
      let context := plan.contextAt r.options.start index p
      by_cases pressed : (asked || switch.pressed index) = true
      · rw [proceed_cons_of_pressed pressed]
        refine .stopped (k := 0) rfl (Outcome.setAt_zero_iff.2 pressed) ?_ (Nat.zero_le _) rfl rfl
        exact fun j hj => absurd hj (Nat.not_lt_zero j)
      have unset : ¬whole.SetAt r c plan switch index history asked (p :: ps) 0 :=
        fun set => pressed (Outcome.setAt_zero_iff.1 set)
      have unpressed := eq_false_of_ne_true pressed
      cases result : closePeriod c r.invariants history context with
      | error e =>
          -- Both runs fail at the period, whatever its calls have asked.
          have stopped : whole = ⟨[], .failed ⟨index, p, e⟩, _⟩ :=
            proceed_cons_of_error rfl result ps
          rw [proceed_cons_of_error unpressed result]
          refine .same ?_ (by rw [stopped]) (by rw [stopped])
          rintro (_ | k) q - set
          · exact absurd set unset
          · rw [stopped]
            exact Nat.succ_pos k
      | ok closing =>
          let after := history.insert closing.context.time closing.values
          let rest := r.proceed c plan .untouched (index + 1) after false ps
          have next : whole = ⟨closing :: rest.closings, rest.ending, rest.cancelled⟩ :=
            proceed_cons_of_closePeriod rfl result ps
          rw [proceed_cons_of_closePeriod unpressed result]
          rw [next] at unset ⊢
          refine (ih (index + 1) after _).cons closing p unset ?_
          exact fun k => Outcome.setAt_succ_iff unpressed

end Runner

/-! ### Whole runs -/

/-- The switch is set by the time the period number `k` of a plan begins, in the run with the
outcome `o`: someone outside has asked by then, or a call in one of the periods before has. -/
def Outcome.SwitchSetAt (o : Outcome) (r : Runner) (c : Calculator) (plan : Plan) (switch : Switch)
    (k : Nat) : Prop :=
  o.SetAt r c plan switch 0 (plan.history r.options.start) false plan.periods k

namespace Runner

variable {r : Runner} {c : Calculator} {plan : Plan}

/-- Cancellation yields a clean prefix. Take a run that gets to its first period, and `whole`, the
same run when nobody can cancel it. If there is a period at whose beginning the switch is set, and
`whole` closes the periods before the first such period, then the run stops there: it fails as
cancelled, and keeps exactly these periods of `whole`. Otherwise it closes the periods that `whole`
closes and ends as that does. So no period in progress is cut short, and nothing comes of a switch
that is set in the last one. -/
theorem execute_cancelled_prefix (ready : r.calculator plan = .ok c) (switch : Switch) :
    let whole := r.execute plan .untouched
    let o := r.execute plan switch
    (∃ k p, plan.periods[k]? = some p ∧ whole.SwitchSetAt r c plan switch k ∧
        (∀ j < k, ¬whole.SwitchSetAt r c plan switch j) ∧ k ≤ whole.closings.length ∧
        o.closings = whole.closings.take k ∧ o.ending = .failed ⟨k, p, .cancelled⟩) ∨
      (∀ k p, plan.periods[k]? = some p → whole.SwitchSetAt r c plan switch k →
          whole.closings.length < k) ∧
        o.closings = whole.closings ∧ o.ending = whole.ending := by
  intro whole o
  have stopped := proceed_cancelled r c plan switch 0 (plan.history r.options.start) false
    plan.periods
  dsimp only at stopped
  rw [← execute_eq_of_calculator ready, ← execute_eq_of_calculator ready] at stopped
  cases stopped with
  | @stopped k p period here before reached closings ending =>
      rw [Nat.zero_add] at ending
      exact Or.inl ⟨k, p, period, here, before, reached, closings, ending⟩
  | same unset closings ending => exact Or.inr ⟨unset, closings, ending⟩

set_option maxRecDepth 20000 in
/-- A call in the second period asks for the run to be cancelled. That period is closed all the
same. There is no raw input for the third, but the run is cancelled before it can fail for that. -/
theorem execute_cancelled_prefix_before_failure :
    let statement : Statement :=
      { code := ""
        items := [
          { code := "NET", formula := none, declared := { code := "NET" } },
          { code := "A"
            formula := some ⟨"NET+STOP()",
              .binary .add (.reference (.bare "NET")) (.call "STOP" []), [.bare "NET"]⟩
            declared := { code := "A", formula := some "NET+STOP()" } }]
        order := [0, 1]
        graph := ⟨["NET", "A"], [("A", "NET")]⟩
        checks := [] }
    let stop : Callable := ⟨fun _ _ => .ok 0.0, some fun _ context => context.period == 8⟩
    let functions := Registry.empty.register "STOP" (.exact 0) stop
    let records : List RawInput := [⟨"NET", 7, 40.0⟩, ⟨"NET", 8, 30.0⟩]
    let r : Runner := ⟨statement, functions, {}, [], some fun _ _ => .ok records, []⟩
    let plan : Plan := ⟨"E1", 1, [7, 8, 9], none, .empty⟩
    let c : Calculator := ⟨statement, functions, {},
      [.rawInput (.ofRecords "E1" 1 records) statement.claims (.sequential 0 [7, 8, 9])]⟩
    let whole := r.execute plan .untouched
    let o := r.execute plan ⟨fun _ => false, true⟩
    r.calculator plan = .ok c ∧
      whole.ending = .failed ⟨2, 9, .period (.item "NET" ""
        (.gap "rawinput" (.bare "NET") (.noRecord "NET" 9 "E1" 1)))⟩ ∧
      whole.closings.map (fun closing => closing.values.toList) =
        [[("A", 40.0), ("NET", 40.0)], [("A", 30.0), ("NET", 30.0)]] ∧
      whole.SwitchSetAt r c plan ⟨fun _ => false, true⟩ 2 ∧
      o.closings = whole.closings.take 2 ∧ o.ending = .failed ⟨2, 9, .cancelled⟩ := by
  intro statement stop functions records r plan c whole o
  have ready : r.calculator plan = .ok c := rfl
  have fails : whole.ending = .failed ⟨2, 9, .period (.item "NET" ""
      (.gap "rawinput" (.bare "NET") (.noRecord "NET" 9 "E1" 1)))⟩ := by
    unfold whole r plan functions stop statement records
    with_unfolding_all rfl
  have cancelled : o.ending = .failed ⟨2, 9, .cancelled⟩ := by
    unfold o r plan functions stop statement records
    with_unfolding_all rfl
  refine ⟨ready, fails, ?_, ?_⟩
  · unfold whole r plan functions stop statement records
    with_unfolding_all rfl
  obtain ⟨k, p, -, here, -, -, closings, ending⟩ | ⟨-, -, ending⟩ :=
    execute_cancelled_prefix ready ⟨fun _ => false, true⟩
  · cases cancelled.symm.trans ending
    exact ⟨here, closings, cancelled⟩
  · -- The runs do not end alike.
    cases cancelled.symm.trans (ending.trans fails)

end Runner

end Rollforward
