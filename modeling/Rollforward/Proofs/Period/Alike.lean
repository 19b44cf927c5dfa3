import Rollforward.Proofs.Period.Correspondence

/-!
# `Rollforward.Proofs.Period.Alike`: periods that two calculators calculate alike

Calculators whose statements are alike, and whose providers answer alike all that a period asks for,
cannot be told apart by a period: they fill the same ledger, find the same violations, and ask for
the run to be cancelled in the same cases. `Calculator.Alike.closePeriod_eq` and
`Calculator.Alike.periodCancels_eq` say so of everything that a run takes from a period.
-/

set_option autoImplicit false

namespace Rollforward

/-- The calculators differ at most in what a period with the rules `invariants` does not look at. -/
structure Calculator.Alike (invariants : List Check) (context : Context) (c c' : Calculator) :
    Prop where
  statements : c.statement.Alike c'.statement
  functions : c.functions = c'.functions
  options : c.options = c'.options
  answers : Chain.AgreeOn (c.statement.asked invariants) context c.providers c'.providers

namespace Calculator.Alike

variable {invariants : List Check} {context : Context} {c c' : Calculator}

/-- In front of the same history they get the same answers to all that a period asks for. -/
theorem correspondIn (h : Alike invariants context c c') (history : Series) :
    CorrespondIn Eq invariants c c' history history context context where
  statements := h.statements
  functions := h.functions
  steady := .refl _ _
  strict := by rw [h.options]
  tolerance := by rw [h.options]
  items := by
    intro l r hr
    unfold itemEnvironment
    rw [h.statements.provider_eq]
    exact .of_eq (h.answers.cons _ r hr)
  rules := fun _ r hr => .of_eq (h.answers.cons _ r hr)
  opening := rfl

/-- The calculators close a period alike, or fail to in the same way. -/
theorem closePeriod_eq (h : Alike invariants context c c') (history : Series) :
    Runner.closePeriod c' invariants history context =
      Runner.closePeriod c invariants history context :=
  (h.correspondIn history).closePeriod_eq.symm

/-- A call in the period asks for the run to be cancelled with both calculators or with neither. -/
theorem periodCancels_eq (h : Alike invariants context c c') (history : Series) :
    Runner.periodCancels c' invariants history context =
      Runner.periodCancels c invariants history context :=
  (h.correspondIn history).periodCancels_eq.symm

end Calculator.Alike

end Rollforward
