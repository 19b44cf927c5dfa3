import Rollforward.Period.Cancellation
import Rollforward.Proofs.Evaluation.Agreement
import Rollforward.Proofs.Period.Resolution
import Rollforward.Proofs.Statement.Compile

/-!
# `Rollforward.Proofs.Period.Item`: what the value of an item hangs on

The value of an item hangs on what it asks for (`Environment.AgreeOn.evalItem_eq`), and so does
whether it asks for the run to be cancelled.

An item is evaluated in front of a ledger that is only partly filled. `agreeOn_itemEnvironment` says
that no more of the ledger matters than the items that the formula reads, the `readsOf` of the
graph. A reference at another time goes to the history, one with a namespace to the caller's
providers, and so does the bare code of an item without formula (`resolve_bare_of_raw`).
-/

set_option autoImplicit false

namespace Rollforward

open Formula (Reference)

namespace Environment.AgreeOn

open Calculator (evalItem itemCancels)

variable {env env' : Environment} {i : Statement.Item}

/-- An item has the same value, or the same error, where all that it asks for is answered alike. -/
theorem evalItem_eq (h : AgreeOn i.asks env env') : evalItem env i = evalItem env' i := by
  unfold evalItem
  unfold Statement.Item.asks at h
  cases hf : i.formula with
  | none =>
      rw [hf] at h
      dsimp only
      rw [h.answers _ (List.mem_singleton.2 rfl), h.context]
  | some f =>
      rw [hf] at h
      exact h.eval_eq (List.Subset.refl _)

/-- There it asks for the run to be cancelled in both environments or in neither. -/
theorem itemCancels_eq (h : AgreeOn i.asks env env') : itemCancels env i = itemCancels env' i := by
  unfold itemCancels
  unfold Statement.Item.asks at h
  cases hf : i.formula with
  | none => rfl
  | some f =>
      rw [hf] at h
      exact h.cancels_eq (List.Subset.refl _)

end Environment.AgreeOn

namespace Calculator

variable {c : Calculator} {history : Series} {context : Context} {l l' : Ledger}

/-- The ledger is asked for bare codes of this period only. -/
theorem resolve_itemEnvironment_congr {r : Reference}
    (agree : r.source = none → r.offset = 0 →
      ∀ q, c.statement.position? r.code = some q → l.get? q = l'.get? q) :
    (c.itemEnvironment history context l).chain.resolve r context =
      (c.itemEnvironment history context l').chain.resolve r context := by
  -- Whether the statement claims a reference has nothing to do with the ledger.
  refine Chain.resolve_cons_congr rfl ?_
  intro claimed
  have bare : r.source = none := (Provider.claims_statement_iff.1 claimed).1
  simp only [Provider.statement]
  by_cases now : r.offset = 0
  · rw [if_pos now, if_pos now]
    cases position : c.statement.position? r.code with
    | none => rfl
    | some q => rw [Option.bind_some, Option.bind_some, agree bare now q position]
  · rw [if_neg now, if_neg now]

/-- The value of an item without formula comes from the caller's providers. -/
theorem resolve_bare_of_raw (compiled : c.statement.IsCompiled) {i : Statement.Item}
    (hi : i ∈ c.statement.items) (raw : i.formula = none) :
    (c.itemEnvironment history context l).chain.resolve (.bare i.code) context =
      Chain.resolve c.providers (.bare i.code) context := by
  have item : c.statement.item? i.code = some i :=
    (Statement.item?_eq_some_iff compiled.codes_nodup).2 ⟨hi, rfl⟩
  exact resolve_item_raw rfl item (Statement.Item.isComputed_eq_false_iff.2 raw)

/-- In front of ledgers that agree on the items that an item reads, all that it asks for is answered
alike. -/
theorem agreeOn_itemEnvironment (compiled : c.statement.IsCompiled) {i : Statement.Item}
    (hi : i ∈ c.statement.items)
    (agree : ∀ q j, c.statement.items[q]? = some j →
      j.code ∈ Statement.readsOf c.statement.codes i → l.get? q = l'.get? q) :
    Environment.AgreeOn i.asks (c.itemEnvironment history context l)
      (c.itemEnvironment history context l') := by
  refine ⟨rfl, rfl, fun r hr => ?_⟩
  unfold Statement.Item.asks at hr
  cases hf : i.formula with
  | none =>
      rw [hf] at hr
      obtain rfl : r = .bare i.code := List.mem_singleton.1 hr
      show Chain.resolve _ _ context = Chain.resolve _ _ context
      rw [resolve_bare_of_raw compiled hi hf, resolve_bare_of_raw compiled hi hf]
  | some f =>
      rw [hf] at hr
      refine resolve_itemEnvironment_congr fun bare now q position => ?_
      obtain ⟨j, hq, hcode⟩ := (Statement.position?_eq_some_iff compiled.codes_nodup).1 position
      have known : j.code ∈ c.statement.codes := List.mem_map_of_mem (List.mem_of_getElem? hq)
      rw [hcode] at known
      refine agree q j hq ?_
      rw [hcode]
      exact compiled.mem_readsOf_of_reference hi hf hr bare now known

end Calculator

end Rollforward
