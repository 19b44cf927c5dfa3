import Rollforward.Proofs.Period.Solution
import Rollforward.Proofs.Period.Turn

/-!
# `Rollforward.Proofs.Period.Solvable`: what has a solution is calculated

`solves_close` says that a filled ledger solves the equations of the template. Here is the converse.
Along the order of evaluation every item finds the values of the solution in what it reads, so it is
given its own value of the solution (`fill_of_equations`), and at the end the ledger holds all of
them (`ledger_of_equations`).

So whether a period can be calculated says nothing about the order either: it can when its equations
have a solution (`exists_ledger_iff`). When they have none, it is an item that has no value
(`exists_item_of_ledger_error`); which item that is does depend on the order.
-/

set_option autoImplicit false

namespace Rollforward.Calculator

variable {c : Calculator} {history : Series} {context : Context} {values : Snapshot}

/-- A part of the order is filled with the values of a solution. -/
theorem fill_of_equations (compiled : c.statement.IsCompiled)
    (equations : ∀ i ∈ c.statement.items, ∃ v, values.get? i.code = some v ∧
      c.Equation history context values i v)
    {before after : List Nat} (order : c.statement.order = before ++ after) :
    ∃ l, c.fill history context (.ofSize c.statement.items.length) before = .ok l ∧
      ∀ p ∈ before, l.get? p = (Ledger.ofValues c.statement.items values).get? p := by
  -- The induction is on the part of the order that is filled, one position longer at a time.
  induction before using List.reverseRecOn generalizing after with
  | nil => exact ⟨_, rfl, fun p hp => absurd hp List.not_mem_nil⟩
  | append_singleton before p ih =>
      rw [List.append_assoc, List.singleton_append] at order
      obtain ⟨l, filled, held⟩ := ih order
      have bound : p < c.statement.items.length := by
        rw [← compiled.mem_order, order]
        exact List.mem_append_right _ List.mem_cons_self
      have hp := List.getElem?_eq_getElem bound
      obtain ⟨v, value, equation⟩ := equations _ (List.getElem_mem bound)
      have turn : c.Turn history context before p after l := ⟨order, filled⟩
      -- What the item reads holds the values of the solution already.
      have result :
          evalItem (c.itemEnvironment history context l) c.statement.items[p] = .ok v := by
        rw [← (equation_iff compiled (List.getElem_mem bound)).1 equation]
        refine (agreeOn_itemEnvironment compiled (List.getElem_mem bound) ?_).evalItem_eq
        intro q j hq reads
        exact held q (compiled.mem_before_of_reads order hp hq reads)
      obtain ⟨next, written⟩ :=
        Ledger.exists_insert?_of_get?_eq_none (turn.get?_eq_none compiled) v
      refine ⟨next, ?_, fun q hq => ?_⟩
      · rw [fill_append, filled]
        dsimp only
        rw [fill, hp]
        simp only [result, written, fill]
      · rw [(Ledger.get?_of_insert? written).2 q]
        by_cases same : q = p
        · rw [if_pos same, same, Ledger.get?_ofValues hp, value]
        · rw [if_neg same]
          refine held q ?_
          exact (List.mem_append.1 hq).resolve_right fun last => same (List.mem_singleton.1 last)

/-- The ledger of a period holds the values that fulfil all equations. -/
theorem ledger_of_equations (compiled : c.statement.IsCompiled)
    (equations : ∀ i ∈ c.statement.items, ∃ v, values.get? i.code = some v ∧
      c.Equation history context values i v) :
    c.ledger history context = .ok (.ofValues c.statement.items values) := by
  obtain ⟨l, filled, held⟩ := fill_of_equations compiled equations (List.append_nil _).symm
  have ledger : c.ledger history context = .ok l := filled
  have size : l.slots.length = (Ledger.ofValues c.statement.items values).slots.length := by
    rw [length_ledger ledger]
    exact (List.length_map _).symm
  rw [ledger]
  refine congrArg Except.ok (Ledger.ext_get? size fun p => ?_)
  by_cases hp : p ∈ c.statement.order
  · exact held p hp
  · have outside : c.statement.items.length ≤ p := Nat.le_of_not_lt (mt compiled.mem_order.2 hp)
    rw [Ledger.get?, Ledger.get?, List.getElem?_eq_none (by rwa [length_ledger ledger]),
      List.getElem?_eq_none (by rwa [← size, length_ledger ledger])]

/-- A period has a ledger exactly when the equations of its template have a solution. -/
theorem exists_ledger_iff (compiled : c.statement.IsCompiled) :
    (∃ l, c.ledger history context = .ok l) ↔ ∃ values, c.Solves history context values := by
  constructor
  · rintro ⟨l, ledger⟩
    exact ⟨_, solves_close compiled ledger⟩
  · rintro ⟨values, solves⟩
    exact ⟨_, ledger_of_equations compiled solves.equations⟩

/-- Positions are not filled because an item has no value, or because one of them is written. -/
theorem fill_eq_error {l : Ledger} {ps : List Nat} {e : PeriodError}
    (h : c.fill history context l ps = .error e) :
    (∃ i ∈ c.statement.items, ∃ fault, e = .item i.code i.sourceText fault) ∨
      ∃ code, e = .writtenTwice code := by
  induction ps generalizing l with
  | nil => cases h
  | cons p ps ih =>
      cases hp : c.statement.items[p]? with
      | none =>
          rw [fill_cons_of_none hp] at h
          exact ih h
      | some i =>
          rw [fill, hp] at h
          cases value : evalItem (c.itemEnvironment history context l) i with
          | error fault =>
              simp only [value] at h
              exact Or.inl ⟨i, List.mem_of_getElem? hp, fault, (Except.error.inj h).symm⟩
          | ok v =>
              simp only [value] at h
              cases written : l.insert? p v with
              | none =>
                  simp only [written] at h
                  exact Or.inr ⟨i.code, (Except.error.inj h).symm⟩
              | some next =>
                  simp only [written] at h
                  exact ih h

/-- A period without a ledger has an item without a value. -/
theorem exists_item_of_ledger_error (compiled : c.statement.IsCompiled) {e : PeriodError}
    (h : c.ledger history context = .error e) :
    ∃ i ∈ c.statement.items, ∃ fault, e = .item i.code i.sourceText fault := by
  refine (fill_eq_error h).resolve_right ?_
  rintro ⟨code, rfl⟩
  exact fill_ne_writtenTwice compiled.order_nodup (fun p _ => Ledger.get?_ofSize _ p) code h

end Rollforward.Calculator
