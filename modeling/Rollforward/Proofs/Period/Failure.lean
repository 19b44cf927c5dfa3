import Rollforward.Proofs.Period.Turn
import Rollforward.Proofs.Rule.Verdict

/-!
# `Rollforward.Proofs.Period.Failure`: what a period fails for

`Evaluated` says what it means that items have been evaluated one after the other, each in front of
the values of those before it; `FailsFirst` that an item is the first of which this cannot be said.
Neither speaks of `fill`. `fill_eq_ok_iff` and `ledger_eq_error_iff` say that `fill` comes to them:
it goes on while items have values, and it stops at the first that has none.

So a period fails for one of two reasons, and they exclude each other. Either an item has no value,
and then nothing else is looked at. Or all have, and rules that are errors do not hold in a strict
calculation. `calculateIn_fails` says which of the two it is, and with what error.
-/

set_option autoImplicit false

namespace Rollforward

/-- The errors that rules find are those of rules that would be errors. -/
theorem Check.exists_error_iff {ks : List Check} {env : Environment} {tolerance : Float}
    {values : Snapshot} :
    (violations ks env tolerance values).filter Violation.isError ≠ [] ↔
      ∃ k ∈ ks, k.rule.severity = .error ∧ ∃ v, k.Finds env tolerance values v := by
  constructor
  · intro some
    obtain ⟨v, hv⟩ := List.exists_mem_of_ne_nil _ some
    obtain ⟨found, error⟩ := List.mem_filter.1 hv
    obtain ⟨k, hk, finds⟩ := List.mem_filterMap.1 found
    rw [violation?_eq_some_iff] at finds
    exact ⟨k, hk, isError_eq_true_iff.1 (finds.isError_eq.symm.trans error), v, finds⟩
  · rintro ⟨k, hk, error, v, finds⟩
    have found : v ∈ violations ks env tolerance values :=
      List.mem_filterMap.2 ⟨k, hk, violation?_eq_some_iff.2 finds⟩
    have error := finds.isError_eq.trans (isError_eq_true_iff.2 error)
    exact List.ne_nil_of_mem (List.mem_filter.2 ⟨found, error⟩)

/-- What the value of a line comes from: its formula, or else the reference to its raw input. -/
def LineItem.sourceText (line : LineItem) : String :=
  line.activeFormula?.getD (line.rawReference.getD "")

/-- The text that an error quotes is that of the line. -/
theorem Statement.Item.IsOf.sourceText_eq {line : LineItem} {i : Statement.Item}
    (h : i.IsOf line) : i.sourceText = line.sourceText := by
  unfold Statement.Item.sourceText LineItem.sourceText
  rw [← h.text, h.declared]
  cases i.formula <;> rfl

namespace Calculator

/-- The items at some positions are evaluated one after the other, each in front of the ledger of
those before it. The last ledger holds the values of all of them. -/
inductive Evaluated (c : Calculator) (history : Series) (context : Context) :
    List Nat → Ledger → Prop where
  | start : Evaluated c history context [] (.ofSize c.statement.items.length)
  | next {before : List Nat} {l next : Ledger} {p : Nat} {i : Statement.Item} {v : Float}
      (earlier : Evaluated c history context before l) (item : c.statement.items[p]? = some i)
      (value : evalItem (c.itemEnvironment history context l) i = .ok v)
      (written : l.insert? p v = some next) : Evaluated c history context (before ++ [p]) next

/-- The item is the first in the order of evaluation without a value: all items before it are
evaluated, and in front of their values its own evaluation fails. -/
inductive FailsFirst (c : Calculator) (history : Series) (context : Context) (i : Statement.Item)
    (fault : EvalError) : Prop where
  | intro {before after : List Nat} {p : Nat} {l : Ledger}
      (order : c.statement.order = before ++ p :: after) (item : c.statement.items[p]? = some i)
      (earlier : c.Evaluated history context before l)
      (fails : evalItem (c.itemEnvironment history context l) i = .error fault)

/-- Some rule of the template that is an error does not hold in front of the values. -/
def Breaks (c : Calculator) (history : Series) (context : Context) (values : Snapshot) : Prop :=
  ∃ k ∈ c.statement.checks, k.rule.severity = .error ∧
    ∃ v, k.Finds (c.ruleEnvironment history context values) c.options.tolerance values v

variable {c : Calculator} {history : Series} {context : Context} {l : Ledger}

/-! ### Items -/

/-- Items that have been evaluated one after the other are filled in. -/
theorem fill_of_evaluated {ps : List Nat} (h : c.Evaluated history context ps l) :
    c.fill history context (.ofSize c.statement.items.length) ps = .ok l := by
  induction h with
  | start => rfl
  | next earlier item value written ih =>
      rw [fill_append, ih]
      dsimp only
      rw [fill, item]
      simp only [value, written, fill]

/-- And the other way round, for positions that there are. -/
theorem evaluated_of_fill {ps : List Nat} (known : ∀ p ∈ ps, p < c.statement.items.length)
    (h : c.fill history context (.ofSize c.statement.items.length) ps = .ok l) :
    c.Evaluated history context ps l := by
  -- The induction is on the positions that are filled, one longer at a time.
  induction ps using List.reverseRecOn generalizing l with
  | nil =>
      rw [← Except.ok.inj h]
      exact .start
  | append_singleton ps p ih =>
      obtain ⟨middle, first, last⟩ := fill_append_eq_ok h
      have bound := known p (List.mem_append_right ps List.mem_cons_self)
      have item := List.getElem?_eq_getElem bound
      obtain ⟨v, next, value, written, done⟩ := fill_cons_eq_ok item last
      obtain rfl : next = l := Except.ok.inj done
      exact .next (ih (fun q hq => known q (List.mem_append_left [p] hq)) first) item value written

/-- A fill succeeds with exactly the ledger of the evaluation. -/
theorem fill_eq_ok_iff {ps : List Nat} (known : ∀ p ∈ ps, p < c.statement.items.length) :
    c.fill history context (.ofSize c.statement.items.length) ps = .ok l ↔
      c.Evaluated history context ps l :=
  ⟨evaluated_of_fill known, fill_of_evaluated⟩

/-- Positions that are not filled are filled up to one whose item has no value, or that is written
already. -/
theorem exists_of_fill_eq_error {ps : List Nat} {e : PeriodError}
    (h : c.fill history context l ps = .error e) :
    (∃ before p after i middle fault, ps = before ++ p :: after ∧
        c.statement.items[p]? = some i ∧ c.fill history context l before = .ok middle ∧
        evalItem (c.itemEnvironment history context middle) i = .error fault ∧
        e = .item i.code i.sourceText fault) ∨
      ∃ code, e = .writtenTwice code := by
  induction ps generalizing l with
  | nil => cases h
  | cons p ps ih =>
      cases item : c.statement.items[p]? with
      | none =>
          rw [fill_cons_of_none item] at h
          obtain ⟨before, q, after, i, middle, fault, rfl, hq, filled, fails⟩ | twice := ih h
          -- No item is at `p`, so nothing is written there.
          · refine Or.inl ⟨p :: before, q, after, i, middle, fault, rfl, hq, ?_, fails⟩
            rwa [fill_cons_of_none item]
          · exact Or.inr twice
      | some i =>
          rw [fill, item] at h
          cases value : evalItem (c.itemEnvironment history context l) i with
          | error fault =>
              simp only [value] at h
              have reported := (Except.error.inj h).symm
              exact Or.inl ⟨[], p, ps, i, l, fault, rfl, item, rfl, value, reported⟩
          | ok v =>
              simp only [value] at h
              cases written : l.insert? p v with
              | none =>
                  simp only [written] at h
                  exact Or.inr ⟨i.code, (Except.error.inj h).symm⟩
              | some next =>
                  simp only [written] at h
                  obtain ⟨before, q, after, j, middle, fault, rfl, hq, filled, fails⟩ | twice :=
                    ih h
                  · refine Or.inl ⟨p :: before, q, after, j, middle, fault, rfl, hq, ?_, fails⟩
                    rw [fill, item]
                    simp only [value, written, filled]
                  · exact Or.inr twice

/-- The order has positions of items only. -/
theorem lt_length_of_mem_order (compiled : c.statement.IsCompiled) :
    ∀ p ∈ c.statement.order, p < c.statement.items.length :=
  fun _ hp => compiled.mem_order.1 hp

/-- A period has the ledger that all its items make when they are evaluated. -/
theorem ledger_eq_ok_iff (compiled : c.statement.IsCompiled) :
    c.ledger history context = .ok l ↔ c.Evaluated history context c.statement.order l :=
  fill_eq_ok_iff (lt_length_of_mem_order compiled)

/-- A period has no ledger when an item has no value. The first such item is reported. -/
theorem ledger_eq_error_iff (compiled : c.statement.IsCompiled) {e : PeriodError} :
    c.ledger history context = .error e ↔
      ∃ i fault, c.FailsFirst history context i fault ∧ e = .item i.code i.sourceText fault := by
  have known := lt_length_of_mem_order compiled
  constructor
  · intro h
    obtain ⟨before, p, after, i, l, fault, order, item, filled, fails, rfl⟩ | ⟨code, rfl⟩ :=
      exists_of_fill_eq_error h
    · have earlier : ∀ q ∈ before, q < c.statement.items.length := by
        intro q hq
        refine known q ?_
        rw [order]
        exact List.mem_append_left _ hq
      exact ⟨i, fault, .intro order item (evaluated_of_fill earlier filled) fails, rfl⟩
    · exact absurd h (fill_ne_writtenTwice compiled.order_nodup
        (fun p _ => Ledger.get?_ofSize _ p) code)
  · rintro ⟨i, fault, ⟨order, item, earlier, fails⟩, rfl⟩
    rw [ledger, order, fill_append, fill_of_evaluated earlier]
    dsimp only
    rw [fill, item]
    simp only [fails]

/-! ### Rules -/

/-- With a ledger a period fails where the calculation is strict and a rule that is an error does
not hold. Otherwise it is closed. -/
theorem calculateIn_of_ledger (ledger : c.ledger history context = .ok l) :
    let broken := c.options.strict = true ∧
      c.Breaks history context (close c.statement.items l)
    (broken ∧ ∃ violations, c.calculateIn history context = .error (.rulesFailed violations)) ∨
      ¬broken ∧ ∃ closing, c.calculateIn history context = .ok closing := by
  intro broken
  have breaks : c.Breaks history context (close c.statement.items l) ↔
      (c.check c.statement.checks history context (close c.statement.items l)).filter
        Violation.isError ≠ [] := Check.exists_error_iff.symm
  unfold broken calculateIn
  rw [breaks, ledger]
  dsimp only
  split
  · next fails =>
    refine Or.inl ⟨?_, _, rfl⟩
    simpa [List.isEmpty_eq_false_iff] using fails
  · next passes =>
    refine Or.inr ⟨fun fails => passes ?_, _, rfl⟩
    simpa [List.isEmpty_eq_false_iff] using fails

/-- Where an item has no value, no rule is looked at. -/
theorem calculateIn_of_ledger_error {e : PeriodError}
    (failed : c.ledger history context = .error e) :
    c.calculateIn history context = .error e := by
  unfold calculateIn
  rw [failed]

/-- A period fails for an item exactly when an item has no value, and then for the first such item
in the order of evaluation, with its code, what its line says of it and what its own evaluation came
to. When all items have values, it fails exactly when the calculation is strict and some rule of the
template that is an error does not hold, and it is closed in every other case. -/
theorem calculateIn_fails {t : Template} (compiled : Statement.compile t = .ok c.statement)
    (history : Series) (context : Context) :
    ((∃ code text fault, c.calculateIn history context = .error (.item code text fault)) ↔
        ∃ i fault, c.FailsFirst history context i fault) ∧
      (∀ i fault, c.FailsFirst history context i fault → ∃ line ∈ t.items, i.IsOf line ∧
        c.calculateIn history context = .error (.item i.code line.sourceText fault)) ∧
      ((¬∃ i fault, c.FailsFirst history context i fault) →
        ∃ l, c.Evaluated history context c.statement.order l ∧
          let broken := c.options.strict = true ∧
            c.Breaks history context (close c.statement.items l)
          ((∃ violations, c.calculateIn history context = .error (.rulesFailed violations)) ↔
              broken) ∧
            ((∃ closing, c.calculateIn history context = .ok closing) ↔ ¬broken)) := by
  have isCompiled := Statement.isCompiled_of_compile compiled
  -- The period fails where its ledger does, so both directions rest on the ledger.
  have reported (i : Statement.Item) (fault : EvalError)
      (fails : c.FailsFirst history context i fault) :
      c.calculateIn history context = .error (.item i.code i.sourceText fault) :=
    calculateIn_of_ledger_error ((ledger_eq_error_iff isCompiled).2 ⟨i, fault, fails, rfl⟩)
  refine ⟨⟨?_, ?_⟩, ?_, ?_⟩
  · rintro ⟨code, text, fault, failed⟩
    cases ledger : c.ledger history context with
    | error e =>
        obtain ⟨i, fault, fails, -⟩ := (ledger_eq_error_iff isCompiled).1 ledger
        exact ⟨i, fault, fails⟩
    | ok l =>
        -- With a ledger the period is closed or its rules fail, and neither is an item error.
        obtain ⟨-, violations, result⟩ | ⟨-, closing, result⟩ := calculateIn_of_ledger ledger
        · cases failed.symm.trans result
        · cases failed.symm.trans result
  · rintro ⟨i, fault, fails⟩
    exact ⟨i.code, i.sourceText, fault, reported i fault fails⟩
  · intro i fault fails
    have item : i ∈ c.statement.items := by
      cases fails with
      | intro order item earlier fails => exact List.mem_of_getElem? item
    obtain ⟨line, hline, isOf⟩ := (Statement.mem_items_of_compile compiled).1 item
    exact ⟨line, hline, isOf, isOf.sourceText_eq ▸ reported i fault fails⟩
  · intro none
    cases ledger : c.ledger history context with
    | error e =>
        obtain ⟨i, fault, fails, -⟩ := (ledger_eq_error_iff isCompiled).1 ledger
        exact absurd ⟨i, fault, fails⟩ none
    | ok l =>
        refine ⟨l, (ledger_eq_ok_iff isCompiled).1 ledger, ?_⟩
        -- The two outcomes exclude each other, so each settles both equivalences at once.
        obtain ⟨broken, result⟩ | ⟨whole, result⟩ := calculateIn_of_ledger ledger
        · refine ⟨iff_of_true result broken, iff_of_false ?_ (not_not_intro broken)⟩
          rintro ⟨closing, closed⟩
          obtain ⟨violations, failed⟩ := result
          cases failed.symm.trans closed
        · refine ⟨iff_of_false ?_ whole, iff_of_true result whole⟩
          rintro ⟨violations, failed⟩
          obtain ⟨closing, closed⟩ := result
          cases failed.symm.trans closed

set_option maxRecDepth 20000 in
/-- `MARGIN` is listed first and evaluated second. `LATE` would fail too, but it is not reached. -/
theorem calculateIn_fails_division :
    let template : Template :=
      { items := [{ code := "MARGIN", formula := some " ONE/ZERO " }, { code := "ZERO" },
          { code := "LATE", formula := some "X" }] }
    let context : Context := ⟨"E1", 1, 1, 0⟩
    ∃ s, Statement.compile template = .ok s ∧
      let c : Calculator := ⟨s, .standard, {}, [.fixed (.ofList [("ONE", 1.0), ("ZERO", 0.0)])]⟩
      ∃ i, c.FailsFirst .empty context i .divisionByZero ∧
        c.calculateIn .empty context = .error (.item "MARGIN" "ONE/ZERO" .divisionByZero) := by
  intro template context
  let margin : Statement.Item :=
    { code := "MARGIN"
      formula := some ⟨"ONE/ZERO",
        .binary .div (.reference (.bare "ONE")) (.reference (.bare "ZERO")),
        [.bare "ONE", .bare "ZERO"]⟩
      declared := { code := "MARGIN", formula := some " ONE/ZERO " } }
  let s : Statement :=
    { code := ""
      items := [margin,
        { code := "ZERO", formula := none, declared := { code := "ZERO" } },
        { code := "LATE"
          formula := some ⟨"X", .reference (.bare "X"), [.bare "X"]⟩
          declared := { code := "LATE", formula := some "X" } }]
      order := [1, 0, 2]
      graph := ⟨["MARGIN", "ZERO", "LATE"], [("MARGIN", "ZERO")]⟩
      checks := [] }
  have compiled : Statement.compile template = .ok s := by
    unfold template s margin
    cbv
  let c : Calculator := ⟨s, .standard, {}, [.fixed (.ofList [("ONE", 1.0), ("ZERO", 0.0)])]⟩
  have zero : c.Evaluated .empty context [1] ⟨[none, some 0.0, none]⟩ :=
    .next .start rfl (v := 0.0) (by with_unfolding_all rfl) rfl
  have fails : c.FailsFirst .empty context margin .divisionByZero :=
    .intro (show c.statement.order = [1] ++ 0 :: [2] from rfl) rfl zero
      (by with_unfolding_all rfl)
  obtain ⟨-, reported, -⟩ := calculateIn_fails (c := c) compiled .empty context
  obtain ⟨line, -, isOf, failed⟩ := reported margin _ fails
  rw [← isOf.sourceText_eq] at failed
  exact ⟨s, compiled, margin, fails, failed⟩

end Calculator

end Rollforward
