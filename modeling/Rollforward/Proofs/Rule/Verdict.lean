import Rollforward.Rule.Check

/-!
# `Rollforward.Proofs.Rule.Verdict`: what a rule finds, and when it holds

A rule is skipped where something that it needs is missing. Otherwise it finds a violation when its
formula has no value and when the value does not pass (`Check.Finds`), and it holds when the value
passes (`Check.Holds`). `violation?_eq_some_iff` and `violation?_eq_none_iff` say that checking a
rule comes to this, and `filter_violations` that the violations of one severity are those of the
rules of that severity.
-/

set_option autoImplicit false

namespace Rollforward.Check

/-- The rule finds the violation in a period that has all that it needs. -/
inductive Finds (k : Check) (env : Environment) (tolerance : Float) (values : Snapshot) :
    Violation → Prop where
  /-- The formula has no value, and neither has the violation. -/
  | failed {e : EvalError} (complete : ∀ code ∈ k.rule.requiredItems, values.contains code = true)
      (eval : Evaluation.eval env k.expr = .error e) :
      Finds k env tolerance values (k.violation none (k.rule.describe ++ ": " ++ e.message))
  /-- The value of the formula does not pass. -/
  | refused {v : Float} (complete : ∀ code ∈ k.rule.requiredItems, values.contains code = true)
      (eval : Evaluation.eval env k.expr = .ok v)
      (refused : k.rule.kind.passes v (k.rule.tolerance.getD tolerance) = false) :
      Finds k env tolerance values (k.violation (some v) k.rule.describe)

/-- The period lacks something that the rule needs, or the value of its formula passes. -/
inductive Holds (k : Check) (env : Environment) (tolerance : Float) (values : Snapshot) : Prop where
  | skipped {code : String} (required : code ∈ k.rule.requiredItems)
      (missing : values.contains code = false)
  | passed {v : Float} (eval : Evaluation.eval env k.expr = .ok v)
      (passes : k.rule.kind.passes v (k.rule.tolerance.getD tolerance) = true)

variable {k : Check} {ks : List Check} {env : Environment} {tolerance : Float} {values : Snapshot}
  {v : Violation}

/-! ### One rule -/

/-- A rule applies where all that it requires is there. -/
theorem applies_eq_true_iff :
    k.applies values = true ↔ ∀ code ∈ k.rule.requiredItems, values.contains code = true :=
  List.all_eq_true

/-- A rule is passed over for one missing item. -/
theorem applies_eq_false_iff :
    k.applies values = false ↔ ∃ code ∈ k.rule.requiredItems, values.contains code = false := by
  simp [applies]

/-- What makes a violation fail a strict run. -/
theorem isError_eq_true_iff : k.isError = true ↔ k.rule.severity = .error := beq_iff_eq

/-- There are two severities, so what is no error is a warning. -/
theorem isError_eq_false_iff : k.isError = false ↔ k.rule.severity = .warning := by
  unfold isError
  cases k.rule.severity <;> decide

/-- The violation of a rule is of its severity. -/
theorem Finds.isError_eq (h : k.Finds env tolerance values v) : v.isError = k.isError := by
  cases h with
  | failed complete eval => rfl
  | refused complete eval refused => rfl

/-- Checking a rule either finds a violation, for a reason, or finds that the rule holds. -/
theorem violation?_cases (k : Check) (env : Environment) (tolerance : Float) (values : Snapshot) :
    (∃ v, k.violation? env tolerance values = some v ∧ k.Finds env tolerance values v) ∨
      k.violation? env tolerance values = none ∧ k.Holds env tolerance values := by
  unfold violation?
  by_cases applies : k.applies values = true
  · have complete := applies_eq_true_iff.1 applies
    rw [if_pos applies]
    cases eval : Evaluation.eval env k.expr with
    | error e => exact Or.inl ⟨_, rfl, .failed complete eval⟩
    | ok x =>
        rw [judge]
        by_cases passes : k.rule.kind.passes x (k.rule.tolerance.getD tolerance) = true
        · rw [if_pos passes]
          exact Or.inr ⟨rfl, .passed eval passes⟩
        · rw [if_neg passes]
          exact Or.inl ⟨_, rfl, .refused complete eval (eq_false_of_ne_true passes)⟩
  · obtain ⟨code, required, missing⟩ := applies_eq_false_iff.1 (eq_false_of_ne_true applies)
    rw [if_neg applies]
    exact Or.inr ⟨rfl, .skipped required missing⟩

/-- What is computed is what the rule finds: the one lemma that opens the judgement of a rule. -/
theorem violation?_eq_some_iff :
    k.violation? env tolerance values = some v ↔ k.Finds env tolerance values v := by
  constructor
  · intro h
    obtain ⟨w, found, finds⟩ | ⟨none, -⟩ := violation?_cases k env tolerance values
    · rw [found] at h
      rwa [← Option.some.inj h]
    · rw [none] at h
      cases h
  · intro h
    unfold violation?
    cases h with
    | failed complete eval => rw [if_pos (applies_eq_true_iff.2 complete), eval, judge]
    | refused complete eval refused =>
        rw [if_pos (applies_eq_true_iff.2 complete), eval, judge, if_neg (by rw [refused]; decide)]

/-- And nothing is reported exactly where the rule holds or does not apply. -/
theorem violation?_eq_none_iff :
    k.violation? env tolerance values = none ↔ k.Holds env tolerance values := by
  constructor
  · intro h
    obtain ⟨w, found, -⟩ | ⟨-, holds⟩ := violation?_cases k env tolerance values
    · rw [found] at h
      cases h
    · exact holds
  · intro h
    unfold violation?
    cases h with
    | skipped required missing =>
        have skipped := applies_eq_false_iff.2 ⟨_, required, missing⟩
        rw [skipped]
        rfl
    | passed eval passes => rw [eval, judge, if_pos passes, ite_self]

/-! ### Several rules -/

/-- The violations of one severity are those of the rules of that severity. -/
theorem filter_violations (ks : List Check) (env : Environment) (tolerance : Float)
    (values : Snapshot) (error : Bool) :
    (violations ks env tolerance values).filter (fun v => v.isError == error) =
      violations (ks.filter fun k => k.isError == error) env tolerance values := by
  unfold violations
  induction ks with
  | nil => rfl
  | cons k ks ih =>
      rw [List.filterMap_cons, List.filter_cons]
      cases found : k.violation? env tolerance values with
      | none =>
          dsimp only
          rw [ih]
          split
          · rw [List.filterMap_cons, found]
          · rfl
      | some v =>
          -- The violation is filtered out exactly if the rule is.
          have same := (violation?_eq_some_iff.1 found).isError_eq
          dsimp only
          rw [List.filter_cons, same, ih]
          split
          · rw [List.filterMap_cons, found]
          · rfl

/-- Rules find nothing when they all hold, and only then. -/
theorem violations_eq_nil_iff :
    violations ks env tolerance values = [] ↔ ∀ k ∈ ks, k.Holds env tolerance values := by
  rw [violations, List.filterMap_eq_nil_iff]
  exact forall₂_congr fun k _ => violation?_eq_none_iff

/-- Where no errors are found, every rule whose violation would be one holds. -/
theorem holds_of_filter_isError
    (none : (violations ks env tolerance values).filter Violation.isError = []) :
    ∀ k ∈ ks, k.rule.severity = .error → k.Holds env tolerance values := by
  intro k hk error
  have errors := filter_violations ks env tolerance values true
  simp only [beq_true] at errors
  rw [none] at errors
  exact violations_eq_nil_iff.1 errors.symm k
    (List.mem_filter.2 ⟨hk, isError_eq_true_iff.2 error⟩)

/-- The violations that are no errors are those of the rules with warnings. -/
theorem filter_not_isError_violations (ks : List Check) (env : Environment) (tolerance : Float)
    (values : Snapshot) :
    (violations ks env tolerance values).filter (fun v => v.isError == false) =
      violations (ks.filter fun k => k.rule.severity == .warning) env tolerance values := by
  rw [filter_violations]
  congr 1
  refine List.filter_congr fun k _ => ?_
  rw [Bool.eq_iff_iff, beq_iff_eq, beq_iff_eq]
  exact isError_eq_false_iff

end Rollforward.Check
