import Rollforward.Proofs.Rule.Verdict
import Rollforward.Proofs.Run.Progress
import Rollforward.Provider.Domain
import Rollforward.Registry.Standard

/-!
# `Rollforward.Proofs.Run.Verdict`: what a run lets pass

Rules are checked in three stages. The rules of the template are checked when a period is
calculated, and their errors are fatal to it only in strict runs; then the invariants are checked,
whose errors are fatal always, and whose warnings are added to what was found. `Closing.Judged` says
what comes of it without the stages: which violations a closed period lists, and which rules hold in
it. `judged_of_closePeriod` follows one period through the stages, and `execute_judges` all of them.
-/

set_option autoImplicit false

namespace Rollforward

/-- What a closed period of a run says about the rules, which are evaluated in `env`. -/
structure Closing.Judged (closing : Closing) (r : Runner) (env : Environment) : Prop where
  /-- The violations are those that the rules of the template find, and behind them those that the
  invariants with warnings find, in the order of the rules. -/
  violations : ∃ found : Check → Option Violation,
    (∀ k v, found k = some v ↔ k.Finds env r.options.tolerance closing.values v) ∧
      closing.violations = r.statement.checks.filterMap found ++
        (r.invariants.filter fun k => k.rule.severity == .warning).filterMap found
  invariants : ∀ k ∈ r.invariants, k.rule.severity = .error →
    k.Holds env r.options.tolerance closing.values
  strict : r.options.strict = true → ∀ k ∈ r.statement.checks, k.rule.severity = .error →
    k.Holds env r.options.tolerance closing.values

/-- What the rules are evaluated in for the closed period number `k`: its values, the history of the
periods closed before it, and then the raw inputs and the providers of the caller. -/
def Outcome.ruleEnvironment (o : Outcome) (r : Runner) (plan : Plan) (raw : Chain) (k : Nat)
    (closing : Closing) : Environment :=
  let history := plan.historyAfter r.options.start (o.closings.take k)
  ⟨.snapshot closing.values history :: (raw ++ r.providers), r.functions, closing.context⟩

namespace Runner

variable {r : Runner} {plan : Plan}

/-- A period is closed with the violations that the rules find in it, and errors do not get past
the invariants and, strictly, past the rules of the template. -/
theorem judged_of_closePeriod {raw : Chain} {history : Series} {context : Context}
    {closing : Closing}
    (closed : closePeriod ⟨r.statement, r.functions, r.options, raw ++ r.providers⟩ r.invariants
      history context = .ok closing) :
    closing.Judged r
      ⟨.snapshot closing.values history :: (raw ++ r.providers), r.functions, closing.context⟩ := by
  obtain ⟨listed, fatal, strict⟩ := violations_of_closePeriod closed
  constructor
  case violations =>
    refine ⟨_, fun k v => Check.violation?_eq_some_iff, ?_⟩
    rw [listed]
    -- The violations that are left of the invariants are those of invariants with warnings.
    exact congrArg _ (Check.filter_not_isError_violations _ _ _ _)
  case invariants => exact Check.holds_of_filter_isError fatal
  case strict => exact fun on => Check.holds_of_filter_isError (strict on)

/-- The violations of a closed period are exactly those that the rules of the template find in it,
followed by those that the invariants with warnings find, each in front of the history of the
periods before. In every closed period the invariants with errors hold, and in a strict run so do
the rules of the template with errors. A completed run has closed every period of its plan. -/
theorem execute_judges (r : Runner) (plan : Plan) (switch : Switch) :
    let o := r.execute plan switch
    (∀ (k : Nat) (closing : Closing), o.closings[k]? = some closing →
      ∃ raw, r.rawProvider plan = .ok raw ∧
        closing.Judged r (o.ruleEnvironment r plan raw k closing)) ∧
    (o.ending = .completed → ∀ k p, plan.periods[k]? = some p →
      ∃ closing raw, o.closings[k]? = some closing ∧ r.rawProvider plan = .ok raw ∧
        closing.context = plan.contextAt r.options.start k p ∧
        closing.Judged r (o.ruleEnvironment r plan raw k closing)) := by
  intro o
  -- A kept period was closed in front of the history of the periods kept before it.
  have judged : ∀ (k : Nat) (closing : Closing), o.closings[k]? = some closing →
      ∃ raw, r.rawProvider plan = .ok raw ∧
        closing.Judged r (o.ruleEnvironment r plan raw k closing) := by
    intro k closing kept
    obtain ⟨c, p, ready, -, closed⟩ := exists_closePeriod_of_execute kept
    obtain ⟨-, raw, loaded, rfl⟩ := calculator_eq_ok_iff.1 ready
    exact ⟨raw, loaded, judged_of_closePeriod closed⟩
  refine ⟨judged, ?_⟩
  intro completed k p period
  -- A completed run kept a period for each place of the plan.
  have bound : k < o.closings.length := by
    rw [length_closings_of_completed completed]
    exact (List.getElem?_eq_some_iff.1 period).1
  have kept : o.closings[k]? = some o.closings[k] := List.getElem?_eq_getElem bound
  obtain ⟨raw, loaded, verdict⟩ := judged k _ kept
  refine ⟨o.closings[k], raw, kept, loaded, ?_, verdict⟩
  obtain ⟨c, q, -, found, closed⟩ := exists_closePeriod_of_execute kept
  obtain rfl : q = p := Option.some.inj (found.symm.trans period)
  exact context_of_closePeriod closed

set_option maxRecDepth 20000 in
/-- A strict run with a rule that is refused, one that has no value in the first period, one that is
skipped, an invariant that warns and one that holds. -/
theorem execute_judges_strict :
    let a : Formula.Expr := .reference (.bare "A")
    let statement : Statement :=
      { code := ""
        items := [{ code := "A", formula := none, declared := { code := "A" } }]
        order := [0]
        graph := ⟨["A"], []⟩
        checks := [
          ⟨{ id := "ZERO", formula := "A", kind := .equation, severity := .warning }, a⟩,
          ⟨{ id := "BEFORE", formula := "A[t-1]", severity := .warning },
            .reference ⟨none, "A", -1⟩⟩,
          ⟨{ id := "DEBT", formula := "DEBT", requiredItems := ["DEBT"] },
            .reference (.bare "DEBT")⟩] }
    let invariants : List Check := [
      ⟨{ id := "SOME", formula := "A" }, a⟩,
      ⟨{ id := "BELOW", formula := "-A", kind := .boundary, severity := .warning },
        .unary .negate a⟩]
    let r : Runner := ⟨statement, .standard, { strict := true }, invariants, none,
      [.fixed (.ofList [("A", 1.0)])]⟩
    let plan : Plan := ⟨"E1", 1, [7, 8], none, .empty⟩
    let o := r.execute plan .untouched
    o.ending = .completed ∧
      o.closings.map (fun closing => closing.violations.map fun v => (v.rule, v.value)) =
        [[("ZERO", some 1.0), ("BEFORE", none), ("BELOW", some (-1.0))],
          [("ZERO", some 1.0), ("BELOW", some (-1.0))]] ∧
      ∃ closing raw, o.closings[1]? = some closing ∧ r.rawProvider plan = .ok raw ∧
        closing.context = plan.contextAt 0 1 8 ∧
        closing.Judged r (o.ruleEnvironment r plan raw 1 closing) := by
  intro a statement invariants r plan o
  have completed : o.ending = .completed := by
    unfold o r plan invariants statement a
    with_unfolding_all rfl
  obtain ⟨-, periods⟩ := execute_judges r plan .untouched
  refine ⟨completed, ?_, periods completed 1 8 rfl⟩
  unfold o r plan invariants statement a
  with_unfolding_all rfl

end Runner

end Rollforward
