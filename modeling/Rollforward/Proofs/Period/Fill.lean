import Rollforward.Proofs.Period.Item
import Rollforward.Proofs.Snapshot.Ledger

/-!
# `Rollforward.Proofs.Period.Fill`: how the ledger of a period is filled

`fill_cons_eq_ok` is one step: the item is evaluated in front of the ledger and its value written.
`fill_invariant` is a run: what every step keeps, the run keeps. For what does not hang on the
values, `fill_preserves` looks at the writes only. From it come the three facts about runs: the
ledger keeps its size, positions that are not on the list stay as they are, and a value that is
written stays.

`evalItem_of_ledger` is what the order of evaluation is for. What an item read when its turn came is
what it would read in the ledger at the end, so its value is the value that it has there.
-/

set_option autoImplicit false

namespace Rollforward.Calculator

variable {c : Calculator} {history : Series} {context : Context} {l l' : Ledger}

/-! ### Steps -/

/-- One step of a fill that succeeds: the item has a value, and its place was free. -/
theorem fill_cons_eq_ok {p : Nat} {ps : List Nat} {i : Statement.Item}
    (hp : c.statement.items[p]? = some i)
    (h : c.fill history context l (p :: ps) = .ok l') :
    ∃ v next, evalItem (c.itemEnvironment history context l) i = .ok v ∧
      l.insert? p v = some next ∧ c.fill history context next ps = .ok l' := by
  rw [fill, hp] at h
  dsimp only at h
  split at h
  · exact nomatch h
  · next v value =>
    split at h
    · exact nomatch h
    · next next written => exact ⟨v, next, value, written, h⟩

/-- Places without an item are passed over. -/
theorem fill_cons_of_none {p : Nat} (hp : c.statement.items[p]? = none) (ps : List Nat) :
    c.fill history context l (p :: ps) = c.fill history context l ps := by
  rw [fill, hp]

/-! ### Runs -/

/-- A row of positions is filled in parts, and a part that fails is the last. -/
theorem fill_append (c : Calculator) (history : Series) (context : Context) (l : Ledger)
    (before after : List Nat) :
    c.fill history context l (before ++ after) =
      match c.fill history context l before with
      | .error e => .error e
      | .ok middle => c.fill history context middle after := by
  induction before generalizing l with
  | nil => rfl
  | cons p before ih =>
      rw [List.cons_append]
      cases hp : c.statement.items[p]? with
      | none => rw [fill_cons_of_none hp, fill_cons_of_none hp, ih]
      | some i =>
          rw [fill, fill, hp]
          dsimp only
          cases evalItem (c.itemEnvironment history context l) i with
          | error e => rfl
          | ok v =>
              dsimp only
              cases l.insert? p v with
              | none => rfl
              | some next => exact ih next

/-- A fill can be stopped at any place and go on from the ledger that it has then. -/
theorem fill_append_eq_ok {before after : List Nat}
    (h : c.fill history context l (before ++ after) = .ok l') :
    ∃ middle, c.fill history context l before = .ok middle ∧
      c.fill history context middle after = .ok l' := by
  rw [fill_append] at h
  cases first : c.fill history context l before with
  | error e =>
      rw [first] at h
      exact nomatch h
  | ok middle =>
      rw [first] at h
      exact ⟨middle, rfl, h⟩

/-- What every step keeps, a run keeps. -/
theorem fill_invariant {P : Ledger → Prop} {ps : List Nat}
    (h : c.fill history context l ps = .ok l') (start : P l)
    (step : ∀ l p i v next, p ∈ ps → c.statement.items[p]? = some i →
      evalItem (c.itemEnvironment history context l) i = .ok v → l.insert? p v = some next →
      P l → P next) : P l' := by
  induction ps generalizing l with
  | nil =>
      rw [← Except.ok.inj h]
      exact start
  | cons p ps ih =>
      -- The hypothesis on steps is about positions of the list, so it passes to the rest of it.
      have later := fun l q i v next (hq : q ∈ ps) =>
        step l q i v next (List.mem_cons_of_mem p hq)
      cases hp : c.statement.items[p]? with
      | none =>
          rw [fill_cons_of_none hp] at h
          exact ih h start later
      | some i =>
          obtain ⟨v, next, value, written, rest⟩ := fill_cons_eq_ok hp h
          exact ih rest (step l p i v next List.mem_cons_self hp value written start) later

/-- What every write keeps, a run keeps. -/
theorem fill_preserves {P : Ledger → Prop} {ps : List Nat}
    (h : c.fill history context l ps = .ok l') (start : P l)
    (write : ∀ l p v next, p ∈ ps → p < c.statement.items.length → l.insert? p v = some next →
      P l → P next) : P l' := by
  refine fill_invariant h start fun m p i v next hp hi _ written kept => ?_
  exact write m p v next hp (List.getElem?_eq_some_iff.1 hi).1 written kept

/-- The ledger keeps a slot for each item. -/
theorem length_fill {ps : List Nat} (h : c.fill history context l ps = .ok l')
    (size : l.slots.length = c.statement.items.length) :
    l'.slots.length = c.statement.items.length := by
  refine fill_preserves (P := fun m => m.slots.length = c.statement.items.length) h size ?_
  intro m p v next _ bound written size
  rw [Ledger.length_of_insert? written (by rwa [size]), size]

/-- What is not filled in stays as it was. -/
theorem get?_fill_of_not_mem {ps : List Nat} (h : c.fill history context l ps = .ok l') {q : Nat}
    (hq : q ∉ ps) : l'.get? q = l.get? q := by
  refine fill_preserves (P := fun m => m.get? q = l.get? q) h rfl ?_
  intro m p v next hp _ written same
  have other : q ≠ p := by
    rintro rfl
    exact hq hp
  rw [(Ledger.get?_of_insert? written).2 q, if_neg other, same]

/-- What has a value keeps it. -/
theorem get?_fill_of_get? {ps : List Nat} (h : c.fill history context l ps = .ok l') {q : Nat}
    {v : Float} (hv : l.get? q = some v) : l'.get? q = some v := by
  refine fill_preserves (P := fun m => m.get? q = some v) h hv ?_
  intro m p w next _ _ written kept
  have ⟨empty, after⟩ := Ledger.get?_of_insert? written
  -- A written position takes no other value, so this write is at another one.
  have other : q ≠ p := by
    rintro rfl
    exact nomatch empty.symm.trans kept
  rw [after q, if_neg other, kept]

/-- An item has the value that it was given in front of the ledger of the items before it. -/
theorem get?_fill_of_mem {before after : List Nat} {p : Nat} {i : Statement.Item}
    (h : c.fill history context l (before ++ p :: after) = .ok l')
    (hp : c.statement.items[p]? = some i) :
    ∃ middle v, c.fill history context middle (p :: after) = .ok l' ∧
      evalItem (c.itemEnvironment history context middle) i = .ok v ∧ l'.get? p = some v := by
  obtain ⟨middle, -, rest⟩ := fill_append_eq_ok h
  obtain ⟨v, next, value, written, last⟩ := fill_cons_eq_ok hp rest
  refine ⟨middle, v, rest, value, get?_fill_of_get? last ?_⟩
  rw [(Ledger.get?_of_insert? written).2 p, if_pos rfl]

/-! ### The ledger of a period -/

/-- A finished ledger has a slot for each item. -/
theorem length_ledger (h : c.ledger history context = .ok l) :
    l.slots.length = c.statement.items.length :=
  length_fill h (by rw [Ledger.ofSize, List.length_replicate])

/-- What an item reads was written before its turn and is not written again. -/
theorem get?_fill_of_reads (compiled : c.statement.IsCompiled) {before after : List Nat} {p q : Nat}
    {i j : Statement.Item} (order : c.statement.order = before ++ p :: after)
    (h : c.fill history context l (p :: after) = .ok l') (hp : c.statement.items[p]? = some i)
    (hq : c.statement.items[q]? = some j)
    (reads : j.code ∈ Statement.readsOf c.statement.codes i) : l'.get? q = l.get? q := by
  have earlier := compiled.mem_before_of_reads order hp hq reads
  have notLater : q ∉ p :: after := by
    intro later
    have nodup := compiled.order_nodup
    rw [order, List.nodup_append] at nodup
    exact nodup.2.2 q earlier q later rfl
  exact get?_fill_of_not_mem h notLater

/-- Every item has the value in the ledger that its formula or its provider gives it in front of the
whole ledger. -/
theorem evalItem_of_ledger (compiled : c.statement.IsCompiled)
    (h : c.ledger history context = .ok l) {p : Nat} {i : Statement.Item}
    (hp : c.statement.items[p]? = some i) :
    ∃ v, l.get? p = some v ∧ evalItem (c.itemEnvironment history context l) i = .ok v := by
  have hmem : p ∈ c.statement.order :=
    compiled.mem_order.2 (List.getElem?_eq_some_iff.1 hp).1
  obtain ⟨before, after, order⟩ := List.append_of_mem hmem
  rw [ledger, order] at h
  obtain ⟨middle, v, rest, value, written⟩ := get?_fill_of_mem h hp
  refine ⟨v, written, ?_⟩
  rw [← value]
  refine (agreeOn_itemEnvironment compiled (List.mem_of_getElem? hp) ?_).evalItem_eq
  intro q j hq reads
  exact get?_fill_of_reads compiled order rest hp hq reads

end Rollforward.Calculator
