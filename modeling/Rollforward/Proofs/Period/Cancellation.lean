import Rollforward.Proofs.Period.Fill

/-!
# `Rollforward.Proofs.Period.Cancellation`: which items ask for a run to be cancelled

While a ledger is filled, an item asks in front of what is computed before it. It asks just the same
in front of the whole ledger, so whether the items of a period with a ledger ask has nothing to do
with their order (`fillCancels_order_iff`).
-/

set_option autoImplicit false

namespace Rollforward.Calculator

variable {c : Calculator} {history : Series} {context : Context} {l l' : Ledger}

/-- A last part of the order asks when one of its items does. -/
theorem fillCancels_iff (compiled : c.statement.IsCompiled) {before ps : List Nat}
    (order : c.statement.order = before ++ ps) (h : c.fill history context l ps = .ok l') :
    c.fillCancels history context l ps = true ↔
      ∃ p ∈ ps, ∃ i, c.statement.items[p]? = some i ∧
        itemCancels (c.itemEnvironment history context l') i = true := by
  induction ps generalizing before l with
  | nil => simp [fillCancels]
  | cons p ps ih =>
      have order' : c.statement.order = (before ++ [p]) ++ ps := by
        rw [order, List.append_assoc, List.singleton_append]
      cases hp : c.statement.items[p]? with
      | none =>
          rw [fill_cons_of_none hp] at h
          rw [fillCancels, hp]
          simp only [List.mem_cons, exists_eq_or_imp, hp]
          rw [ih order' h]
          simp
      | some i =>
          obtain ⟨v, next, value, written, rest⟩ := fill_cons_eq_ok hp h
          -- What the item reads is written before it, and nothing is written over later.
          have asks : itemCancels (c.itemEnvironment history context l) i =
              itemCancels (c.itemEnvironment history context l') i := by
            refine (agreeOn_itemEnvironment compiled (List.mem_of_getElem? hp) ?_).itemCancels_eq
            intro q j hq reads
            exact (get?_fill_of_reads compiled order h hp hq reads).symm
          rw [fillCancels, hp]
          simp only [value, written, Bool.or_eq_true, asks, ih order' rest, List.mem_cons,
            exists_eq_or_imp, hp, Option.some.injEq, exists_eq_left']

/-- The items of a period that has a ledger ask when one of them does in front of the ledger. -/
theorem fillCancels_order_iff (compiled : c.statement.IsCompiled)
    (h : c.ledger history context = .ok l) :
    c.fillCancels history context (.ofSize c.statement.items.length) c.statement.order = true ↔
      ∃ i ∈ c.statement.items, itemCancels (c.itemEnvironment history context l) i = true := by
  have whole : c.statement.order = [] ++ c.statement.order := rfl
  rw [fillCancels_iff compiled whole h]
  constructor
  · rintro ⟨p, -, i, hp, asks⟩
    exact ⟨i, List.mem_of_getElem? hp, asks⟩
  · rintro ⟨i, hi, asks⟩
    obtain ⟨p, hp⟩ := List.mem_iff_getElem?.1 hi
    exact ⟨p, compiled.mem_order.2 (List.getElem?_eq_some_iff.1 hp).1, i, hp, asks⟩

end Rollforward.Calculator
