import Rollforward.Run.Execute

/-!
# `Rollforward.Proofs.Period.Closing`: what a closed period says about its calculation

A period that is closed has passed three stages: its ledger was filled, the rules of the template
were checked and then the invariants. `calculateIn_eq_ok` and `closePeriod_eq_ok` say what each of
them put into the closing and what it would not have let pass, `violations_of_closePeriod` what the
last two come to together.
-/

set_option autoImplicit false

namespace Rollforward

variable {c : Calculator} {history : Series} {context : Context} {closing : Closing}

/-- A calculated period is the closed ledger with what the rules of the template find wrong with it.
Strictly, they find no errors. -/
theorem Calculator.calculateIn_eq_ok (h : c.calculateIn history context = .ok closing) :
    ∃ l, c.ledger history context = .ok l ∧
      let values := close c.statement.items l
      let found := c.check c.statement.checks history context values
      closing = ⟨context, values, (context.shift? (-1)).bind history.get?, found⟩ ∧
        (c.options.strict = true → found.filter Violation.isError = []) := by
  unfold calculateIn at h
  cases ledger : c.ledger history context with
  | error e =>
      rw [ledger] at h
      cases h
  | ok l =>
      rw [ledger] at h
      dsimp only at h
      split at h
      · cases h
      · next passed =>
        refine ⟨l, rfl, (Except.ok.inj h).symm, ?_⟩
        intro strict
        simpa [strict] using passed

/-- A period of a run is a calculated period in which the invariants find no errors. Their warnings
follow the violations that it has. -/
theorem Runner.closePeriod_eq_ok {invariants : List Check}
    (h : closePeriod c invariants history context = .ok closing) :
    ∃ calculated, c.calculateIn history context = .ok calculated ∧
      let found := c.check invariants history context calculated.values
      found.filter Violation.isError = [] ∧
        closing = { calculated with
          violations := calculated.violations ++ found.filter fun v => v.isError == false } := by
  unfold closePeriod at h
  cases calculated : c.calculateIn history context with
  | error e =>
      rw [calculated] at h
      cases h
  | ok values =>
      rw [calculated] at h
      dsimp only at h
      split at h
      · next passed => exact ⟨values, rfl, List.isEmpty_iff.1 passed, (Except.ok.inj h).symm⟩
      · cases h

/-- A period is closed about what it is calculated about, and opens with what the history has for
the time before. -/
theorem Runner.context_opening_of_closePeriod {invariants : List Check}
    (h : closePeriod c invariants history context = .ok closing) :
    closing.context = context ∧
      closing.opening = (context.shift? (-1)).bind history.get? := by
  obtain ⟨calculated, ok, -, rfl⟩ := closePeriod_eq_ok h
  obtain ⟨l, -, rfl, -⟩ := Calculator.calculateIn_eq_ok ok
  exact ⟨rfl, rfl⟩

/-- All rules are evaluated in front of the values that the period is closed with. -/
theorem Runner.violations_of_closePeriod {invariants : List Check}
    (h : closePeriod c invariants history context = .ok closing) :
    let found (rules : List Check) := c.check rules history closing.context closing.values
    closing.violations =
        found c.statement.checks ++ (found invariants).filter (fun v => v.isError == false) ∧
      (found invariants).filter Violation.isError = [] ∧
      (c.options.strict = true → (found c.statement.checks).filter Violation.isError = []) := by
  obtain ⟨calculated, ok, fatal, rfl⟩ := closePeriod_eq_ok h
  obtain ⟨l, -, rfl, strict⟩ := Calculator.calculateIn_eq_ok ok
  exact ⟨rfl, fatal, strict⟩

/-- Whatever a period fails for, it is not that the run is cancelled. -/
theorem Runner.closePeriod_ne_cancelled (c : Calculator) (invariants : List Check)
    (history : Series) (context : Context) :
    closePeriod c invariants history context ≠ .error .cancelled := by
  intro cancelled
  unfold closePeriod at cancelled
  split at cancelled
  · cases cancelled
  · dsimp only at cancelled
    split at cancelled <;> cases cancelled

end Rollforward
