import Rollforward.Period.Calculate
import Rollforward.Proofs.Provider.Claims

/-!
# `Rollforward.Proofs.Period.Resolution`: where references are resolved in a period

In a period in progress a reference has one of four sources, and which one it is can be told from
the reference and the statement alone: the history for an item at another time, the ledger for an
item with a formula, and the caller's providers for an item without one and for everything that is
no item. The rules of a closed period read the snapshot in place of the ledger and of the providers
for items.

`Statement.Route` tells the references apart, and there is one lemma for each source. The history
has no part in what is read at the period at hand (`resolve_item_now_congr`,
`resolve_rule_now_congr`).
-/

set_option autoImplicit false

namespace Rollforward

open Formula (Reference)

/-- What a reference can be about, as a statement has it. -/
inductive Statement.Route (s : Statement) (r : Reference) : Prop where
  | prefixed (space : r.source ≠ none)
  | unknown (bare : r.source = none) (absent : s.item? r.code = none)
  /-- An item at another time. -/
  | shifted (bare : r.source = none) (shifted : r.offset ≠ 0) (i : Item)
    (item : s.item? r.code = some i)
  /-- An item at the period at hand. -/
  | now (bare : r.source = none) (now : r.offset = 0) (i : Item) (item : s.item? r.code = some i)

/-- Every reference goes one of the routes. -/
theorem Statement.route (s : Statement) (r : Reference) : s.Route r := by
  by_cases bare : r.source = none
  · cases item : s.item? r.code with
    | none => exact .unknown bare item
    | some i =>
        by_cases now : r.offset = 0
        · exact .now bare now i item
        · exact .shifted bare now i item
  · exact .prefixed bare

namespace Calculator

variable {c : Calculator} {history : Series} {context : Context} {l : Ledger} {values : Snapshot}
  {r : Reference}

/-! ### Items in progress -/

/-- An item at another time is read from the history. -/
theorem resolve_item_shifted (bare : r.source = none) (shifted : r.offset ≠ 0)
    (known : c.statement.contains r.code = true) :
    (c.itemEnvironment history context l).chain.resolve r context = history.resolve r context := by
  rw [Statement.contains_eq_isSome_item?] at known
  obtain ⟨i, item⟩ := Option.isSome_iff_exists.1 known
  have claims : (Provider.statement c.statement l history).claims r = true :=
    Provider.claims_statement_iff.2 ⟨bare, i, item, Or.inl shifted⟩
  rw [itemEnvironment, Chain.resolve_cons_of_claims claims]
  exact if_neg shifted

/-- An item with a formula is read from the ledger. -/
theorem resolve_item_computed (bare : r.source = none) (now : r.offset = 0) {i : Statement.Item}
    (item : c.statement.item? r.code = some i) (computed : i.isComputed = true) :
    (c.itemEnvironment history context l).chain.resolve r context =
      match (c.statement.position? r.code).bind l.get? with
      | some v => .ok v
      | none => .error (.gap "statement" r .notYetComputed) := by
  have claims : (Provider.statement c.statement l history).claims r = true :=
    Provider.claims_statement_iff.2 ⟨bare, i, item, Or.inr computed⟩
  rw [itemEnvironment, Chain.resolve_cons_of_claims claims]
  exact if_pos now

/-- An item without a formula is read from the caller's providers. -/
theorem resolve_item_raw (now : r.offset = 0) {i : Statement.Item}
    (item : c.statement.item? r.code = some i) (raw : i.isComputed = false) :
    (c.itemEnvironment history context l).chain.resolve r context =
      Chain.resolve c.providers r context := by
  refine Chain.resolve_cons_of_not_claims ?_ context
  intro claims
  obtain ⟨-, j, item', shifted | computed⟩ := Provider.claims_statement_iff.1 claims
  · exact shifted now
  · rw [← Option.some.inj (item.symm.trans item'), raw] at computed
    exact nomatch computed

/-- What has a namespace, or is no item, is read from the caller's providers. -/
theorem resolve_item_external (external : r.source ≠ none ∨ c.statement.item? r.code = none) :
    (c.itemEnvironment history context l).chain.resolve r context =
      Chain.resolve c.providers r context := by
  refine Chain.resolve_cons_of_not_claims ?_ context
  intro claims
  obtain ⟨bare, i, item, -⟩ := Provider.claims_statement_iff.1 claims
  cases external with
  | inl prefixed => exact prefixed bare
  | inr unknown => exact nomatch unknown.symm.trans item

/-- The history has no part in what is read at the period at hand. -/
theorem resolve_item_now_congr (now : r.offset = 0) (history history' : Series) :
    (c.itemEnvironment history context l).chain.resolve r context =
      (c.itemEnvironment history' context l).chain.resolve r context := by
  -- What the statement claims has nothing to do with the history.
  refine Chain.resolve_cons_congr rfl ?_
  intro _
  exact (if_pos now).trans (if_pos now).symm

/-! ### Rules on a closed period -/

/-- A code at another time is read from the history. -/
theorem resolve_rule_shifted (bare : r.source = none) (shifted : r.offset ≠ 0) :
    (c.ruleEnvironment history context values).chain.resolve r context =
      history.resolve r context := by
  have claims : (Provider.snapshot values history).claims r = true :=
    Provider.claims_snapshot_iff.2 ⟨bare, Or.inl shifted⟩
  rw [ruleEnvironment, Chain.resolve_cons_of_claims claims]
  exact if_neg shifted

/-- A value of the period is read from the snapshot. -/
theorem resolve_rule_held (bare : r.source = none) (now : r.offset = 0) {v : Float}
    (held : values.get? r.code = some v) :
    (c.ruleEnvironment history context values).chain.resolve r context = .ok v := by
  have contained : values.contains r.code = true := Option.isSome_iff_exists.2 ⟨v, held⟩
  have claims : (Provider.snapshot values history).claims r = true :=
    Provider.claims_snapshot_iff.2 ⟨bare, Or.inr contained⟩
  rw [ruleEnvironment, Chain.resolve_cons_of_claims claims]
  simp only [Provider.snapshot, now, if_true, held]

/-- What has a namespace, or has no value in the period at hand, is read from the caller's
providers. -/
theorem resolve_rule_external
    (external : r.source ≠ none ∨ r.offset = 0 ∧ values.get? r.code = none) :
    (c.ruleEnvironment history context values).chain.resolve r context =
      Chain.resolve c.providers r context := by
  refine Chain.resolve_cons_of_not_claims ?_ context
  intro claims
  obtain ⟨bare, shifted | held⟩ := Provider.claims_snapshot_iff.1 claims
  · cases external with
    | inl prefixed => exact prefixed bare
    | inr absent => exact shifted absent.1
  · cases external with
    | inl prefixed => exact prefixed bare
    | inr absent =>
        rw [Collection.OrderedMap.contains, absent.2] at held
        exact nomatch held

/-- The history has no part in what is read at the period at hand. -/
theorem resolve_rule_now_congr (now : r.offset = 0) (history history' : Series) :
    (c.ruleEnvironment history context values).chain.resolve r context =
      (c.ruleEnvironment history' context values).chain.resolve r context := by
  refine Chain.resolve_cons_congr rfl ?_
  intro _
  exact (if_pos now).trans (if_pos now).symm

end Calculator

end Rollforward
