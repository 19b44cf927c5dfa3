import Rollforward.Proofs.Period.Alike
import Rollforward.Proofs.Run.Simulation

/-!
# `Rollforward.Proofs.Run.Alike`: runs that no period tells apart

Two runs take the same course when their calculators are alike in every period that they get to:
each period closes alike, or fails in the same way, and what is known before the next one is the
same again. `proceed_alike` says so of the periods of a run, `execute_alike` of a whole run of one
plan.
-/

set_option autoImplicit false

namespace Rollforward.Runner

variable {r r' : Runner} {c c' : Calculator} {plan plan' : Plan}

/-- Calculators that are alike in the periods `ps` calculate them to the same outcome. -/
theorem proceed_alike {ps : List Nat} {index : Nat} (invariants : r'.invariants = r.invariants)
    (contexts : ∀ i p, plan'.contextAt r'.options.start i p = plan.contextAt r.options.start i p)
    (alike : ∀ k p, ps[k]? = some p →
      c.Alike r.invariants (plan.contextAt r.options.start (index + k) p) c')
    (switch : Switch) (history : Series) (asked : Bool) :
    r'.proceed c' plan' switch index history asked ps =
      r.proceed c plan switch index history asked ps := by
  refine (proceed_related Eq rfl ?_ rfl asked).eq.symm
  rintro k p found history _ rfl
  have period := alike k p found
  rw [contexts]
  exact {
    results := .of_eq (by rw [invariants, period.closePeriod_eq])
    asks := fun _ => by rw [invariants, period.periodCancels_eq]
    histories := by
      rintro a _ rfl
      rfl }

/-- What two runs have of raw inputs: neither has any for the same reason, or with those of the one
and of the other the chains answer alike what a period asks for in the contexts of `P`. -/
def RawAlike (r r' : Runner) (plan plan' : Plan) (P : Context → Prop) : Prop :=
  (∃ e, r.rawProvider plan = .error e ∧ r'.rawProvider plan' = .error e) ∨
    ∃ raw raw', r.rawProvider plan = .ok raw ∧ r'.rawProvider plan' = .ok raw' ∧
      ∀ context, P context → Chain.AgreeOn (r.statement.asked r.invariants) context
        (raw ++ r.providers) (raw' ++ r'.providers)

/-- On the clock, runners whose statements are alike fail to begin for the same reason, or begin
with calculators that are alike where the raw inputs are. -/
theorem calculator_alike {P : Context → Prop} (options : r'.options = r.options)
    (functions : r'.functions = r.functions) (statements : r.statement.Alike r'.statement)
    (raw : RawAlike r r' plan plan' P) (fits : plan.fits r.options.start = true)
    (fits' : plan'.fits r.options.start = true) :
    (∃ e, r.calculator plan = .error e ∧ r'.calculator plan' = .error e) ∨
      ∃ c c', r.calculator plan = .ok c ∧ r'.calculator plan' = .ok c' ∧
        ∀ context, P context → c.Alike r.invariants context c' := by
  rw [calculator, calculator, options, if_pos fits, if_pos fits', functions]
  obtain ⟨e, none, none'⟩ | ⟨chain, chain', loaded, loaded', answers⟩ := raw
  · rw [none, none']
    exact Or.inl ⟨e, rfl, rfl⟩
  · rw [loaded, loaded']
    refine Or.inr ⟨_, _, rfl, rfl, ?_⟩
    intro context here
    exact ⟨statements, rfl, rfl, answers context here⟩

/-- Runners whose statements are alike run a plan to the same outcome when their raw inputs are
alike in every context. -/
theorem execute_alike (options : r'.options = r.options) (functions : r'.functions = r.functions)
    (invariants : r'.invariants = r.invariants) (statements : r.statement.Alike r'.statement)
    (raw : RawAlike r r' plan plan fun _ => True) (switch : Switch) :
    r'.execute plan switch = r.execute plan switch := by
  by_cases fits : plan.fits r.options.start = true
  · rw [execute, execute]
    obtain ⟨e, failed, failed'⟩ | ⟨c, c', ready, ready', alike⟩ :=
      calculator_alike options functions statements raw fits fits
    · rw [failed, failed']
    · rw [ready, ready']
      dsimp only
      rw [options]
      refine proceed_alike invariants ?_ (fun k p _ => alike _ trivial) switch _ _
      intro i p
      rw [options]
  · have failed : r.calculator plan = .error (.outsideClock plan.periods.length r.options.start) :=
      if_neg fits
    have failed' : r'.calculator plan = r.calculator plan := by
      rw [failed, calculator, options, if_neg fits]
    rw [execute_eq_of_error failed, execute_eq_of_error (failed'.trans failed)]

end Rollforward.Runner
