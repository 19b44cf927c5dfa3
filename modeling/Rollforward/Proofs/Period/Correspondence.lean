import Mathlib.Data.List.Forall2
import Rollforward.Period.Cancellation
import Rollforward.Proofs.Period.Closing
import Rollforward.Proofs.Period.Item
import Rollforward.Proofs.Statement.Alike

/-!
# `Rollforward.Proofs.Period.Correspondence`: periods that differ in their errors at most

A period asks its chain for the references of its formulas, those of the items and those of the
rules, and for the bare codes of the items without formula. `Statement.asked` lists them.

Where two calculators get corresponding answers to these, each in front of its own history and
context (`Calculator.CorrespondIn`), they take the same course: they fill the same ledger, or fail
at the same item, find violations of the same rules, and ask for the run to be cancelled in the same
cases. The errors of references are all that may differ, and they are seen in two places, in the
error of an item and in the message of a rule without a value. The relations `SameUpTo` follow them
there. `corresponds_closePeriod` and `periodCancels_eq` cover everything that a run takes from a
period.
-/

set_option autoImplicit false

namespace Rollforward

open Formula (Expr Reference)

/-! ### What a period asks for -/

namespace Statement

/-- The formulas that a period evaluates: of the items, of the rules of the template, and of the
rules that the run adds. -/
def formulas (s : Statement) (invariants : List Check) : List Expr :=
  s.items.filterMap (fun i => i.formula.map ItemFormula.expr) ++
    (s.checks ++ invariants).map Check.expr

/-- The references that a period asks its chain for. -/
def asked (s : Statement) (invariants : List Check) : List Reference :=
  (s.formulas invariants).flatMap Expr.references ++
    (s.items.filter fun i => i.isComputed == false).map fun i => .bare i.code

variable {s : Statement} {invariants : List Check}

/-- The formula of an item is one that a period evaluates. -/
theorem mem_formulas_of_item {i : Item} (hi : i ∈ s.items) {f : ItemFormula}
    (hf : i.formula = some f) : f.expr ∈ s.formulas invariants := by
  refine List.mem_append_left _ (List.mem_filterMap.2 ⟨i, hi, ?_⟩)
  rw [hf]
  rfl

/-- So is that of a rule, whether the template or the run brought it. -/
theorem mem_formulas_of_check {k : Check} (hk : k ∈ s.checks ∨ k ∈ invariants) :
    k.expr ∈ s.formulas invariants :=
  List.mem_append_right _ (List.mem_map_of_mem (List.mem_append.2 hk))

/-- What a formula reads is asked for. -/
theorem references_subset_asked {e : Expr} (he : e ∈ s.formulas invariants) :
    e.references ⊆ s.asked invariants := by
  intro r hr
  exact List.mem_append_left _ (List.mem_flatMap.2 ⟨e, he, hr⟩)

/-- What an item asks for, with a formula or without one, is among what its period asks for. -/
theorem asks_subset_asked {i : Item} (hi : i ∈ s.items) : i.asks ⊆ s.asked invariants := by
  unfold Item.asks
  cases hf : i.formula with
  | none =>
      intro r hr
      obtain rfl : r = .bare i.code := List.mem_singleton.1 hr
      have raw : (i.isComputed == false) = true := beq_iff_eq.2 (Item.isComputed_eq_false_iff.2 hf)
      exact List.mem_append_right _ (List.mem_map.2 ⟨i, List.mem_filter.2 ⟨hi, raw⟩, rfl⟩)
  | some f => exact references_subset_asked (mem_formulas_of_item hi hf)

/-- What a period asks for is in one of its formulas, or is the bare code of an item without one. -/
theorem mem_asked_iff {r : Reference} :
    r ∈ s.asked invariants ↔ (∃ e ∈ s.formulas invariants, r ∈ e.references) ∨
      ∃ i ∈ s.items, i.isComputed = false ∧ r = .bare i.code := by
  simp only [asked, List.mem_append, List.mem_flatMap, List.mem_map, List.mem_filter, beq_iff_eq,
    and_assoc, @eq_comm _ r]

end Statement

/-! ### Outcomes of a period -/

/-- The violations are the same, or are of one rule that has no value for reasons that `E` relates.
-/
inductive Violation.SameUpTo (E : EvalError → EvalError → Prop) : Violation → Violation → Prop where
  | same (v : Violation) : SameUpTo E v v
  | failed (k : Check) {e f : EvalError} (errors : E e f) :
    SameUpTo E (k.violation none (k.rule.describe ++ ": " ++ e.message))
      (k.violation none (k.rule.describe ++ ": " ++ f.message))

/-- The periods fail at the same place, for reasons that `E` relates. -/
inductive PeriodError.SameUpTo (E : EvalError → EvalError → Prop) :
    PeriodError → PeriodError → Prop where
  | item (code sourceText : String) {e f : EvalError} (errors : E e f) :
    SameUpTo E (.item code sourceText e) (.item code sourceText f)
  | writtenTwice (code : String) : SameUpTo E (.writtenTwice code) (.writtenTwice code)
  | rulesFailed {vs ws : List Violation} (violations : List.Forall₂ (Violation.SameUpTo E) vs ws) :
    SameUpTo E (.rulesFailed vs) (.rulesFailed ws)

/-- The runs fail in the same way, for reasons that `E` relates. -/
inductive RunError.SameUpTo (E : EvalError → EvalError → Prop) : RunError → RunError → Prop where
  | same (e : RunError) : SameUpTo E e e
  | period {e f : PeriodError} (errors : PeriodError.SameUpTo E e f) :
    SameUpTo E (.period e) (.period f)
  | invariantsFailed {vs ws : List Violation}
    (violations : List.Forall₂ (Violation.SameUpTo E) vs ws) :
    SameUpTo E (.invariantsFailed vs) (.invariantsFailed ws)

/-- The closed periods have the same values, and violations that are the same up to `E`. -/
structure Closing.SameUpTo (E : EvalError → EvalError → Prop) (a b : Closing) : Prop where
  values : a.values = b.values
  opening : a.opening = b.opening
  violations : List.Forall₂ (Violation.SameUpTo E) a.violations b.violations

namespace Violation.SameUpTo

variable {E : EvalError → EvalError → Prop} {v w : Violation}

/-- All but the message is the same. -/
theorem fields_eq (h : SameUpTo E v w) :
    v.rule = w.rule ∧ v.kind = w.kind ∧ v.severity = w.severity ∧ v.value = w.value := by
  cases h <;> exact ⟨rfl, rfl, rfl, rfl⟩

/-- Whether a violation is an error or a warning is a matter of its rule. -/
theorem isError_eq (h : SameUpTo E v w) : v.isError = w.isError := by
  rw [isError, isError, h.fields_eq.2.2.1]

/-- Violations that are the same up to equal errors are the same. -/
theorem eq (h : SameUpTo Eq v w) : v = w := by
  cases h with
  | same => rfl
  | failed k errors => rw [errors]

/-- Hence rows of them are. -/
theorem eq_of_forall₂ {vs ws : List Violation} (h : List.Forall₂ (SameUpTo Eq) vs ws) : vs = ws :=
  List.forall₂_eq_eq_eq ▸ h.imp fun _ _ same => same.eq

/-- The errors among two rows correspond one by one. -/
theorem forall₂_errors {vs ws : List Violation} (h : List.Forall₂ (SameUpTo E) vs ws) :
    List.Forall₂ (SameUpTo E) (vs.filter isError) (ws.filter isError) :=
  List.rel_filter (fun v w same => by simp only [same.isError_eq]) h

/-- So do the warnings. -/
theorem forall₂_warnings {vs ws : List Violation} (h : List.Forall₂ (SameUpTo E) vs ws) :
    List.Forall₂ (SameUpTo E) (vs.filter fun v => v.isError == false)
      (ws.filter fun v => v.isError == false) :=
  List.rel_filter (fun v w same => by simp only [same.isError_eq]) h

/-- There are violations in both rows or in neither, so a strict run fails in both cases. -/
theorem isEmpty_eq {vs ws : List Violation} (h : List.Forall₂ (SameUpTo E) vs ws) :
    vs.isEmpty = ws.isEmpty := by
  cases h <;> rfl

end Violation.SameUpTo

/-- With equal errors of references, runs fail with equal errors. -/
theorem RunError.SameUpTo.eq {e f : RunError} (h : SameUpTo Eq e f) : e = f := by
  cases h with
  | same => rfl
  | period errors =>
      cases errors with
      | item code sourceText errors => rw [errors]
      | writtenTwice => rfl
      | rulesFailed violations => rw [Violation.SameUpTo.eq_of_forall₂ violations]
  | invariantsFailed violations => rw [Violation.SameUpTo.eq_of_forall₂ violations]

/-- A closed period carries its context, which the relation leaves out because it may differ. With
it, the periods are equal. -/
theorem Closing.SameUpTo.eq {a b : Closing} (h : SameUpTo Eq a b)
    (context : a.context = b.context) : a = b := by
  cases a
  cases b
  cases context
  cases h.values
  cases h.opening
  cases Violation.SameUpTo.eq_of_forall₂ h.violations
  rfl

/-- A rule finds the same wrong with values that correspond. -/
theorem Check.judge_rel {E : EvalError → EvalError → Prop} (k : Check) (tolerance : Float)
    {x y : Except EvalError Float} (h : Corresponds E Eq x y) :
    Option.Rel (Violation.SameUpTo E) (k.judge tolerance x) (k.judge tolerance y) := by
  obtain ⟨e, f, rfl, rfl, errors⟩ | ⟨v, _, rfl, rfl, rfl⟩ := h.error_or_ok
  · exact .some (.failed k errors)
  · unfold judge
    dsimp only
    split
    · exact .none
    · exact .some (.same _)

/-! ### Calculators -/

/-- Each calculator gets, in front of its own history and in its own context, answers that
correspond to those of the other, to all that a period with the rules `invariants` asks for. -/
structure Calculator.CorrespondIn (E : EvalError → EvalError → Prop) (invariants : List Check)
    (c c' : Calculator) (history history' : Series) (context context' : Context) : Prop where
  statements : c.statement.Alike c'.statement
  functions : c.functions = c'.functions
  steady : c.functions.SameIn context context'
  strict : c.options.strict = c'.options.strict
  tolerance : c.options.tolerance = c'.options.tolerance
  items : ∀ l, ∀ r ∈ c.statement.asked invariants,
    Corresponds E Eq ((c.itemEnvironment history context l).chain.resolve r context)
      ((c'.itemEnvironment history' context' l).chain.resolve r context')
  rules : ∀ values, ∀ r ∈ c.statement.asked invariants,
    Corresponds E Eq ((c.ruleEnvironment history context values).chain.resolve r context)
      ((c'.ruleEnvironment history' context' values).chain.resolve r context')
  opening : (context.shift? (-1)).bind history.get? = (context'.shift? (-1)).bind history'.get?

namespace Calculator.CorrespondIn

open Statement (getElem?_alike)

variable {E : EvalError → EvalError → Prop} {invariants : List Check} {c c' : Calculator}
  {history history' : Series} {context context' : Context}

/-- The items of a period see corresponding environments, in front of the same ledger. -/
theorem itemEnvironment (h : CorrespondIn E invariants c c' history history' context context')
    (l : Ledger) :
    Environment.CorrespondOn E (c.statement.asked invariants)
      (c.itemEnvironment history context l) (c'.itemEnvironment history' context' l) :=
  ⟨h.functions, h.steady, h.items l⟩

/-- So do its rules, in front of the same values. -/
theorem ruleEnvironment (h : CorrespondIn E invariants c c' history history' context context')
    (values : Snapshot) :
    Environment.CorrespondOn E (c.statement.asked invariants)
      (c.ruleEnvironment history context values) (c'.ruleEnvironment history' context' values) :=
  ⟨h.functions, h.steady, h.rules values⟩

/-- A ledger closes into the same values. -/
theorem close_eq (h : CorrespondIn E invariants c c' history history' context context')
    (l : Ledger) : close c.statement.items l = close c'.statement.items l := by
  let entry (e : Statement.Item × Nat) : Option (String × Float) :=
    (l.get? e.2).map fun v => (e.1.code, v)
  have entries {items items' : List Statement.Item}
      (alike : List.Forall₂ Statement.Item.Alike items items') (first : Nat) :
      (items.zipIdx first).filterMap entry = (items'.zipIdx first).filterMap entry := by
    induction alike generalizing first with
    | nil => rfl
    | @cons i i' _ _ alike _ ih =>
        have same : entry (i, first) = entry (i', first) := by
          simp only [entry, alike.code]
        rw [List.zipIdx_cons, List.zipIdx_cons, List.filterMap_cons, List.filterMap_cons, ih, same]
  exact congrArg Collection.OrderedMap.ofList (entries h.statements.items 0)

variable [Std.Refl E]

/-! ### Items -/

section Items

variable {i i' : Statement.Item}

/-- One item has corresponding values in the two periods. -/
theorem corresponds_evalItem (h : CorrespondIn E invariants c c' history history' context context')
    (hi : i ∈ c.statement.items) (alike : i.Alike i') (l : Ledger) :
    Corresponds E Eq (evalItem (c.itemEnvironment history context l) i)
      (evalItem (c'.itemEnvironment history' context' l) i') := by
  have reads : i.asks ⊆ c.statement.asked invariants := Statement.asks_subset_asked hi
  unfold evalItem
  unfold Statement.Item.asks at reads
  rw [alike.formula, alike.code]
  cases formula : i.formula with
  | none =>
      rw [formula] at reads
      exact h.items l _ (reads (List.mem_singleton.2 rfl))
  | some f =>
      rw [formula] at reads
      exact (h.itemEnvironment l).corresponds_eval reads

/-- One item asks for the run to be cancelled in both periods or in neither. -/
theorem itemCancels_eq (h : CorrespondIn E invariants c c' history history' context context')
    (hi : i ∈ c.statement.items) (alike : i.Alike i') (l : Ledger) :
    itemCancels (c.itemEnvironment history context l) i =
      itemCancels (c'.itemEnvironment history' context' l) i' := by
  have reads : i.asks ⊆ c.statement.asked invariants := Statement.asks_subset_asked hi
  unfold itemCancels
  unfold Statement.Item.asks at reads
  rw [alike.formula]
  cases formula : i.formula with
  | none => rfl
  | some f =>
      rw [formula] at reads
      exact (h.itemEnvironment l).cancels_eq reads

end Items

/-! ### Ledgers -/

/-- The items at some positions get the same values, or the first of them that gets none is the same
in both periods. -/
theorem corresponds_fill (h : CorrespondIn E invariants c c' history history' context context')
    (l : Ledger) (ps : List Nat) :
    Corresponds (PeriodError.SameUpTo E) Eq (c.fill history context l ps)
      (c'.fill history' context' l ps) := by
  induction ps generalizing l with
  | nil => exact .ok rfl
  | cons p ps ih =>
      rw [fill, fill]
      obtain ⟨none, none'⟩ | ⟨i, i', found, found', alike⟩ := getElem?_alike h.statements.items p
      · rw [none, none']
        exact ih l
      · have value := h.corresponds_evalItem (List.mem_of_getElem? found) alike l
        rw [found, found']
        dsimp only
        rw [alike.code, alike.sourceText_eq]
        obtain ⟨e, f, failed, failed', errors⟩ | ⟨v, _, value, value', rfl⟩ := value.error_or_ok
        · rw [failed, failed']
          exact .error (.item _ _ errors)
        · rw [value, value']
          dsimp only
          -- Both write the value into the same ledger, and go on with the same one.
          cases l.insert? p v with
          | none => exact .error (.writtenTwice _)
          | some next => exact ih next

/-- The items are filled in until one fails, so both periods reach the same ones, and the same ones
ask. -/
theorem fillCancels_eq (h : CorrespondIn E invariants c c' history history' context context')
    (l : Ledger) (ps : List Nat) :
    c.fillCancels history context l ps = c'.fillCancels history' context' l ps := by
  induction ps generalizing l with
  | nil => rfl
  | cons p ps ih =>
      rw [fillCancels, fillCancels]
      obtain ⟨none, none'⟩ | ⟨i, i', found, found', alike⟩ := getElem?_alike h.statements.items p
      · rw [none, none']
        exact ih l
      · have hi := List.mem_of_getElem? found
        rw [found, found']
        dsimp only
        rw [h.itemCancels_eq hi alike]
        obtain ⟨e, f, failed, failed', -⟩ | ⟨v, _, value, value', rfl⟩ :=
          (h.corresponds_evalItem hi alike l).error_or_ok
        · rw [failed, failed']
        · rw [value, value']
          dsimp only
          cases l.insert? p v with
          | none => rfl
          | some next =>
              dsimp only
              rw [ih next]

/-- The whole ledger, in the order of the statement, which is the same for both. -/
theorem corresponds_ledger (h : CorrespondIn E invariants c c' history history' context context') :
    Corresponds (PeriodError.SameUpTo E) Eq (c.ledger history context)
      (c'.ledger history' context') := by
  rw [ledger, ledger, h.statements.order, h.statements.items.length_eq]
  exact h.corresponds_fill _ _

/-! ### Rules -/

section Rules

variable {rules : List Check}

/-- The same rules are found violated. -/
theorem forall₂_check (h : CorrespondIn E invariants c c' history history' context context')
    (known : ∀ k ∈ rules, k ∈ c.statement.checks ∨ k ∈ invariants) (values : Snapshot) :
    List.Forall₂ (Violation.SameUpTo E) (c.check rules history context values)
      (c'.check rules history' context' values) := by
  have agree := h.ruleEnvironment values
  rw [check, check, Check.violations, Check.violations, ← h.tolerance]
  -- The rules are the same, and each is judged in both environments.
  have same : List.Forall₂ (fun k k' => k = k' ∧ k ∈ rules) rules rules :=
    List.forall₂_same.2 fun k hk => ⟨rfl, hk⟩
  refine List.rel_filterMap ?_ same
  rintro k _ ⟨rfl, hk⟩
  have reads := Statement.references_subset_asked (Statement.mem_formulas_of_check (known k hk))
  unfold Check.violation?
  dsimp only
  split
  · exact k.judge_rel _ (agree.corresponds_eval reads)
  · exact .none

/-- The rules ask in the same cases: none is passed over because of what the others find. -/
theorem checkCancels_eq (h : CorrespondIn E invariants c c' history history' context context')
    (known : ∀ k ∈ rules, k ∈ c.statement.checks ∨ k ∈ invariants) (values : Snapshot) :
    c.checkCancels rules history context values =
      c'.checkCancels rules history' context' values := by
  have agree := h.ruleEnvironment values
  rw [checkCancels, checkCancels, Check.cancels, Check.cancels, Bool.eq_iff_iff, List.any_eq_true,
    List.any_eq_true]
  refine exists_congr fun k => and_congr_right fun hk => ?_
  have reads := Statement.references_subset_asked (Statement.mem_formulas_of_check (known k hk))
  rw [agree.cancels_eq reads]

end Rules

/-! ### Periods -/

/-- A calculation of one period, with the strictness that turns violations into a failure. -/
theorem corresponds_calculateIn
    (h : CorrespondIn E invariants c c' history history' context context') :
    Corresponds (PeriodError.SameUpTo E) (Closing.SameUpTo E) (c.calculateIn history context)
      (c'.calculateIn history' context') := by
  rw [calculateIn, calculateIn, h.statements.checks, ← h.strict]
  obtain ⟨e, f, failed, failed', errors⟩ | ⟨l, _, filled, filled', rfl⟩ :=
    h.corresponds_ledger.error_or_ok
  · rw [failed, failed']
    exact .error errors
  rw [filled, filled']
  dsimp only
  rw [← h.close_eq, ← h.opening]
  have found := h.forall₂_check (fun k hk => Or.inl hk) (close c.statement.items l)
  have errors := Violation.SameUpTo.forall₂_errors found
  rw [Violation.SameUpTo.isEmpty_eq errors]
  split
  · exact .error (.rulesFailed errors)
  · exact .ok ⟨rfl, rfl, found⟩

/-- A calculation asks for the run to be cancelled through its items or through its rules. -/
theorem calculateCancels_eq (h : CorrespondIn E invariants c c' history history' context context') :
    c.calculateCancels history context = c'.calculateCancels history' context' := by
  rw [calculateCancels, calculateCancels, h.statements.order, h.statements.checks,
    ← h.statements.items.length_eq, h.fillCancels_eq]
  obtain ⟨e, f, failed, failed', -⟩ | ⟨l, _, filled, filled', rfl⟩ :=
    h.corresponds_ledger.error_or_ok
  · rw [failed, failed']
  · rw [filled, filled']
    dsimp only
    rw [h.close_eq, h.checkCancels_eq fun k hk => Or.inl hk]

/-- Both close the period, with the same values, or both fail to. -/
theorem corresponds_closePeriod
    (h : CorrespondIn E invariants c c' history history' context context') :
    Corresponds (RunError.SameUpTo E) (Closing.SameUpTo E)
      (Runner.closePeriod c invariants history context)
      (Runner.closePeriod c' invariants history' context') := by
  rw [Runner.closePeriod, Runner.closePeriod]
  obtain ⟨e, f, failed, failed', errors⟩ | ⟨a, b, calculated, calculated', same⟩ :=
    h.corresponds_calculateIn.error_or_ok
  · rw [failed, failed']
    exact .error (.period errors)
  rw [calculated, calculated']
  dsimp only
  rw [← same.values]
  have found := h.forall₂_check (fun k hk => Or.inr hk) a.values
  have errors := Violation.SameUpTo.forall₂_errors found
  rw [Violation.SameUpTo.isEmpty_eq errors]
  split
  · exact .ok ⟨rfl, same.opening,
      List.rel_append same.violations (Violation.SameUpTo.forall₂_warnings found)⟩
  · exact .error (.invariantsFailed errors)

/-- A call in the period asks for the run to be cancelled with both calculators or with neither. -/
theorem periodCancels_eq (h : CorrespondIn E invariants c c' history history' context context') :
    Runner.periodCancels c invariants history context =
      Runner.periodCancels c' invariants history' context' := by
  rw [Runner.periodCancels, Runner.periodCancels, h.calculateCancels_eq]
  obtain ⟨e, f, failed, failed', -⟩ | ⟨a, b, calculated, calculated', same⟩ :=
    h.corresponds_calculateIn.error_or_ok
  · rw [failed, failed']
  · rw [calculated, calculated']
    dsimp only
    rw [← same.values, h.checkCancels_eq fun k hk => Or.inr hk]

end Calculator.CorrespondIn

/-- Where the errors are the same, both calculators close a period alike or fail to in the same way.
-/
theorem Calculator.CorrespondIn.closePeriod_eq {invariants : List Check} {c c' : Calculator}
    {history history' : Series} {context : Context}
    (h : CorrespondIn Eq invariants c c' history history' context context) :
    Runner.closePeriod c invariants history context =
      Runner.closePeriod c' invariants history' context := by
  obtain ⟨e, f, failed, failed', errors⟩ | ⟨a, b, closed, closed', same⟩ :=
    h.corresponds_closePeriod.error_or_ok
  · rw [failed, failed', errors.eq]
  · have contexts : a.context = b.context :=
      (Runner.context_opening_of_closePeriod closed).1.trans
        (Runner.context_opening_of_closePeriod closed').1.symm
    rw [closed, closed', same.eq contexts]

end Rollforward
