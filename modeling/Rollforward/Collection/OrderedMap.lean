/-!
# `Rollforward.Collection.OrderedMap`: finite maps in key order

A map is the list of its entries in ascending order of their keys, each key once. The order is part
of the type, so two maps that answer every key alike are the same map, and listing a map needs no
sorting.

Main statements: `get?_insert_self` and `get?_insert_of_ne` say what an insertion changes.
-/

set_option autoImplicit false

namespace Rollforward.Collection

variable {α β : Type} [Ord α]

/-- Puts `v` at `k`, in place of what is there. -/
def insertEntry (k : α) (v : β) : List (α × β) → List (α × β)
  | [] => [(k, v)]
  | e :: es =>
    match compare k e.1 with
    | .lt => (k, v) :: e :: es
    | .eq => (k, v) :: es
    | .gt => e :: insertEntry k v es

/-- What stands at `k`. -/
def lookupEntry (k : α) : List (α × β) → Option β
  | [] => none
  | e :: es => if compare k e.1 = .eq then some e.2 else lookupEntry k es

/-- Inserting adds the one entry; the others stood there before. -/
theorem mem_of_mem_insertEntry {k : α} {v : β} {x : α × β} {es : List (α × β)}
    (h : x ∈ insertEntry k v es) : x = (k, v) ∨ x ∈ es := by
  induction es with
  | nil => simpa [insertEntry] using h
  | cons e es ih =>
    simp only [insertEntry] at h
    split at h
    · simpa using h
    · simp only [List.mem_cons] at h ⊢
      rcases h with h | h <;> simp [h]
    · simp only [List.mem_cons] at h ⊢
      rcases h with h | h
      · simp [h]
      · rcases ih h with h | h <;> simp [h]

/-- Inserting keeps the keys ascending. -/
theorem pairwise_insertEntry [Std.TransOrd α] [Std.LawfulEqOrd α] {k : α} {v : β}
    {es : List (α × β)} (h : es.Pairwise fun a b => compare a.1 b.1 = .lt) :
    (insertEntry k v es).Pairwise fun a b => compare a.1 b.1 = .lt := by
  induction es with
  | nil => simp [insertEntry]
  | cons e es ih =>
    have ⟨first, rest⟩ := List.pairwise_cons.1 h
    simp only [insertEntry]
    split
    · next below =>
      refine List.pairwise_cons.2 ⟨fun x hx => ?_, h⟩
      rcases List.mem_cons.1 hx with hx | hx
      · rwa [hx]
      · exact Std.TransCmp.lt_trans below (first x hx)
    · next same =>
      have same := Std.LawfulEqOrd.eq_of_compare same
      exact List.pairwise_cons.2 ⟨fun x hx => same ▸ first x hx, rest⟩
    · next above =>
      refine List.pairwise_cons.2 ⟨fun x hx => ?_, ih rest⟩
      rcases mem_of_mem_insertEntry hx with hx | hx
      · subst hx
        exact Std.OrientedCmp.gt_iff_lt.1 above
      · exact first x hx

/-- What an insertion puts at its key. -/
theorem lookupEntry_insertEntry_self [Std.LawfulEqOrd α] (k : α) (v : β) (es : List (α × β)) :
    lookupEntry k (insertEntry k v es) = some v := by
  induction es with
  | nil => simp [insertEntry, lookupEntry]
  | cons e es ih =>
    simp only [insertEntry]
    split <;> simp_all [lookupEntry]

/-- What an insertion leaves alone. -/
theorem lookupEntry_insertEntry_of_ne [Std.LawfulEqOrd α] {k l : α} (v : β) (es : List (α × β))
    (h : l ≠ k) : lookupEntry l (insertEntry k v es) = lookupEntry l es := by
  have differ : compare l k ≠ .eq := fun eq => h (Std.LawfulEqOrd.eq_of_compare eq)
  induction es with
  | nil => simp [insertEntry, lookupEntry, differ]
  | cons e es ih =>
    simp only [insertEntry]
    split
    · simp [lookupEntry, differ]
    · next same =>
      have same := Std.LawfulEqOrd.eq_of_compare same
      simp [lookupEntry, ← same, differ]
    · simp [lookupEntry, ih]

/-- A finite map. -/
structure OrderedMap (α β : Type) [Ord α] where
  /-- The entries, in ascending order of their keys. -/
  toList : List (α × β)
  ascending : toList.Pairwise fun a b => compare a.1 b.1 = .lt
  deriving Repr

namespace OrderedMap

/-- The map without entries. -/
def empty : OrderedMap α β := ⟨[], List.Pairwise.nil⟩

instance : Inhabited (OrderedMap α β) := ⟨empty⟩

/-- What stands at a key. -/
def get? (m : OrderedMap α β) (k : α) : Option β := lookupEntry k m.toList

/-- Whether anything stands at a key. -/
def contains (m : OrderedMap α β) (k : α) : Bool := (m.get? k).isSome

/-- How many entries there are. -/
def size (m : OrderedMap α β) : Nat := m.toList.length

/-- Whether there is no entry. -/
def isEmpty (m : OrderedMap α β) : Bool := m.toList.isEmpty

variable [Std.TransOrd α] [Std.LawfulEqOrd α]

/-- Puts `v` at `k`, in place of what stood there. -/
def insert (m : OrderedMap α β) (k : α) (v : β) : OrderedMap α β :=
  ⟨insertEntry k v m.toList, pairwise_insertEntry m.ascending⟩

/-- The map of a list of entries; of two with one key, the later counts. -/
def ofList (es : List (α × β)) : OrderedMap α β :=
  es.foldl (fun m e => m.insert e.1 e.2) empty

/-- An inserted value is found. -/
@[simp] theorem get?_insert_self (m : OrderedMap α β) (k : α) (v : β) :
    (m.insert k v).get? k = some v :=
  lookupEntry_insertEntry_self k v m.toList

/-- At the other keys an insertion changes nothing. -/
theorem get?_insert_of_ne (m : OrderedMap α β) {k l : α} (v : β) (h : l ≠ k) :
    (m.insert k v).get? l = m.get? l :=
  lookupEntry_insertEntry_of_ne v m.toList h

end OrderedMap

end Rollforward.Collection
