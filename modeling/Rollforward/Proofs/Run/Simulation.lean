import Mathlib.Data.List.Forall2
import Rollforward.Proofs.Evaluation.Correspondence
import Rollforward.Proofs.Run.Progress

/-!
# `Rollforward.Proofs.Run.Simulation`: two runs side by side

Two runs of the same periods are compared period by period. Whatever is to hold between their
histories (`R`), between the periods that they close (`C`) and between the errors that they end with
(`F`), it holds of the whole runs when every period carries it on (`Runner.StepRelated`).
`Runner.proceed_related` is the induction over the periods, which is the same for every choice of
the three.
-/

set_option autoImplicit false

namespace Rollforward

/-! ### Outcomes -/

/-- The runs end in the same place, for reasons that `F` relates. -/
inductive Ending.Related (F : RunError → RunError → Prop) : Ending → Ending → Prop where
  | completed : Related F .completed .completed
  | failed (index period : Nat) {e f : RunError} (causes : F e f) :
    Related F (.failed ⟨index, period, e⟩) (.failed ⟨index, period, f⟩)

/-- The runs close as many periods, related by `C` one by one, end in the same place, for reasons
that `F` relates, and both were asked to be cancelled or neither was. -/
structure Outcome.Related (C : Closing → Closing → Prop) (F : RunError → RunError → Prop)
    (o o' : Outcome) : Prop where
  closings : List.Forall₂ C o.closings o'.closings
  ending : o.ending.Related F o'.ending
  cancelled : o.cancelled = o'.cancelled

/-- Endings that are related by equality are equal. -/
theorem Ending.Related.eq {e f : Ending} (h : e.Related Eq f) : e = f := by
  cases h with
  | completed => rfl
  | failed index period causes => rw [causes]

/-- And so are outcomes. A simulation with equality shows that two runs are the same. -/
theorem Outcome.Related.eq {o o' : Outcome} (h : o.Related Eq Eq o') : o = o' := by
  cases o
  cases o'
  cases List.forall₂_eq_eq_eq ▸ h.closings
  cases h.ending.eq
  cases h.cancelled
  rfl

/-! ### Periods -/

namespace Runner

variable {r r' : Runner} {c c' : Calculator} {plan plan' : Plan} {switch : Switch}
  {C : Closing → Closing → Prop} {F : RunError → RunError → Prop}

/-- From related histories the two periods have related results, they ask alike, and the histories
behind them are related again. -/
structure StepRelated (R : Series → Series → Prop) (C : Closing → Closing → Prop)
    (F : RunError → RunError → Prop) (switch : Switch) (r r' : Runner) (c c' : Calculator)
    (context context' : Context) (history history' : Series) : Prop where
  results : Corresponds F C (closePeriod c r.invariants history context)
    (closePeriod c' r'.invariants history' context')
  asks : switch.shared = true → periodCancels c r.invariants history context =
    periodCancels c' r'.invariants history' context'
  histories : ∀ a b, C a b →
    R (history.insert context.time a.values) (history'.insert context'.time b.values)

/-- Runs whose periods `ps` are related step by step are related as a whole. -/
theorem proceed_related (R : Series → Series → Prop) (cancelled : F .cancelled .cancelled)
    {ps : List Nat} {index : Nat}
    (step : ∀ k p, ps[k]? = some p → ∀ history history', R history history' →
      StepRelated R C F switch r r' c c' (plan.contextAt r.options.start (index + k) p)
        (plan'.contextAt r'.options.start (index + k) p) history history')
    {history history' : Series} (related : R history history') (asked : Bool) :
    (r.proceed c plan switch index history asked ps).Related C F
      (r'.proceed c' plan' switch index history' asked ps) := by
  induction ps generalizing index history history' asked with
  | nil => exact ⟨.nil, .completed, rfl⟩
  | cons p ps ih =>
      have later : ∀ k q, ps[k]? = some q → ∀ history history', R history history' →
          StepRelated R C F switch r r' c c' (plan.contextAt r.options.start (index + 1 + k) q)
            (plan'.contextAt r'.options.start (index + 1 + k) q) history history' := by
        intro k q found
        rw [Nat.add_right_comm]
        exact step (k + 1) q found
      let context := plan.contextAt r.options.start index p
      let context' := plan'.contextAt r'.options.start index p
      have first : StepRelated R C F switch r r' c c' context context' history history' :=
        step 0 p rfl history history' related
      have asks : (switch.shared && periodCancels c r.invariants history context) =
          (switch.shared && periodCancels c' r'.invariants history' context') := by
        cases shared : switch.shared with
        | false => rfl
        | true => rw [first.asks shared]
      have here : (⟨plan.entity, plan.scenario, p, r.options.start + index⟩ : Context) = context :=
        rfl
      have here' : (⟨plan'.entity, plan'.scenario, p, r'.options.start + index⟩ : Context) =
          context' :=
        rfl
      rw [proceed, proceed]
      -- Both look at the same switch, and both have been asked by now or neither has.
      by_cases pressed : (asked || switch.pressed index) = true
      · rw [if_pos pressed, if_pos pressed]
        exact ⟨.nil, .failed index p cancelled, rfl⟩
      rw [if_neg pressed, if_neg pressed]
      dsimp only
      rw [here, here', ← asks]
      obtain ⟨e, f, failed, failed', errors⟩ | ⟨a, b, closed, closed', same⟩ :=
        first.results.error_or_ok
      · rw [failed, failed']
        exact ⟨.nil, .failed index p errors, rfl⟩
      · rw [closed, closed']
        obtain ⟨closings, ending, cancelled⟩ := ih later (first.histories a b same)
          (switch.shared && periodCancels c r.invariants history context)
        exact ⟨.cons same closings, ending, cancelled⟩

/-- Runs that begin alike, and whose periods are related step by step, are related as a whole. -/
theorem execute_related (R : Series → Series → Prop) (periods : plan'.periods = plan.periods)
    (cancelled : F .cancelled .cancelled)
    (calculators : Corresponds F
      (fun c c' => ∀ k p, plan.periods[k]? = some p → ∀ history history', R history history' →
        StepRelated R C F switch r r' c c' (plan.contextAt r.options.start k p)
          (plan'.contextAt r'.options.start k p) history history')
      (r.calculator plan) (r'.calculator plan'))
    (related : R (plan.history r.options.start) (plan'.history r'.options.start)) :
    (r.execute plan switch).Related C F (r'.execute plan' switch) := by
  obtain ⟨e, f, failed, failed', errors⟩ | ⟨c, c', ready, ready', steps⟩ :=
    calculators.error_or_ok
  · rw [execute_eq_of_error failed, execute_eq_of_error failed', periods]
    exact ⟨.nil, .failed _ _ errors, rfl⟩
  · rw [execute_eq_of_calculator ready, execute_eq_of_calculator ready', periods]
    refine proceed_related R cancelled ?_ related false
    intro k p found
    rw [Nat.zero_add]
    exact steps k p found

end Runner

end Rollforward
