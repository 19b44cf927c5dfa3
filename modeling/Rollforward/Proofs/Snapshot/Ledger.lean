import Rollforward.Snapshot.Basic

/-!
# `Rollforward.Proofs.Snapshot.Ledger`: writing to a ledger

A ledger only ever gains values. `get?_of_insert?` is the whole of a write: the one position was
empty, it holds the value now, and the other positions are as they were.
-/

set_option autoImplicit false

namespace Rollforward.Ledger

variable {l l' : Ledger} {p : Nat} {v : Float}

/-- A new ledger is empty. -/
theorem get?_ofSize (size p : Nat) : (ofSize size).get? p = none := by
  rw [get?, ofSize]
  by_cases bound : p < size
  · rw [List.getElem?_replicate_of_lt bound]
    rfl
  · rw [List.getElem?_eq_none (by simpa using bound)]
    rfl

/-- Room at the end holds no value. -/
theorem get?_room (slots : List (Option Float)) (more q : Nat) :
    ((slots ++ List.replicate more none)[q]?).join = (slots[q]?).join := by
  by_cases inside : q < slots.length
  · rw [List.getElem?_append_left inside]
  · have outside : slots.length ≤ q := by omega
    rw [List.getElem?_append_right outside, List.getElem?_eq_none outside]
    exact get?_ofSize more (q - slots.length)

/-- A value goes to a free slot and leaves all others alone. -/
theorem get?_of_insert? (h : l.insert? p v = some l') :
    l.get? p = none ∧ ∀ q, l'.get? q = if q = p then some v else l.get? q := by
  unfold insert? at h
  split at h
  · exact nomatch h
  · next empty =>
    refine ⟨empty, fun q => ?_⟩
    rw [← Option.some.inj h]
    show ((List.set _ p (some v))[q]?).join = _
    by_cases same : q = p
    · have room : p < (l.slots ++ List.replicate (p + 1 - l.slots.length) none).length := by
        rw [List.length_append, List.length_replicate]
        omega
      rw [if_pos same, same, List.getElem?_set_self room]
      rfl
    · rw [if_neg same, List.getElem?_set_ne (Ne.symm same), get?_room]
      rfl

/-- A position without a value takes one. -/
theorem exists_insert?_of_get?_eq_none (h : l.get? p = none) (v : Float) :
    ∃ next, l.insert? p v = some next := by
  unfold insert?
  rw [h]
  exact ⟨_, rfl⟩

/-- Slots are filled and never added. -/
theorem length_of_insert? (h : l.insert? p v = some l') (bound : p < l.slots.length) :
    l'.slots.length = l.slots.length := by
  unfold insert? at h
  split at h
  · exact nomatch h
  · have none : p + 1 - l.slots.length = 0 := by omega
    rw [← Option.some.inj h]
    show (List.set _ p (some v)).length = _
    rw [List.length_set, none, List.replicate_zero, List.append_nil]

/-- Ledgers of one size with the same values are equal. -/
theorem ext_get? (size : l.slots.length = l'.slots.length) (h : ∀ p, l.get? p = l'.get? p) :
    l = l' := by
  have slots : l.slots = l'.slots := by
    refine List.ext_getElem size fun p bound bound' => ?_
    have value := h p
    rw [get?, get?, List.getElem?_eq_getElem bound, List.getElem?_eq_getElem bound'] at value
    exact value
  cases l
  cases l'
  congr

end Rollforward.Ledger
