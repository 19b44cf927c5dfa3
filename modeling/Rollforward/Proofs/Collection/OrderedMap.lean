import Mathlib.Data.List.Induction
import Mathlib.Data.List.Nodup
import Rollforward.Collection.OrderedMap

/-!
# `Rollforward.Proofs.Collection.OrderedMap`: maps by their answers

A map is known by what it answers. `get?_eq_some_iff` reads an answer as an entry of the list, and
`ext_get?` says that maps with the same answers are equal: both lists are ascending, so the entries
leave no choice of order. `get?_ofList_eq_some_iff` is the answer of a map that is made of a list in
which no key stands twice.
-/

set_option autoImplicit false

namespace Rollforward.Collection

variable {α β : Type} [Ord α]

/-- In an ascending list an entry is found at its key. -/
theorem lookupEntry_eq_some_iff [Std.LawfulEqOrd α] {k : α} {v : β} {es : List (α × β)}
    (ascending : es.Pairwise fun a b => compare a.1 b.1 = .lt) :
    lookupEntry k es = some v ↔ (k, v) ∈ es := by
  induction es with
  | nil => simp [lookupEntry]
  | cons e es ih =>
      obtain ⟨first, rest⟩ := List.pairwise_cons.1 ascending
      rw [lookupEntry, List.mem_cons]
      by_cases same : compare k e.1 = .eq
      · have hk : k = e.1 := Std.LawfulEqOrd.eq_of_compare same
        rw [if_pos same]
        constructor
        · intro h
          exact Or.inl (Prod.ext hk (Option.some.inj h).symm)
        · rintro (h | h)
          · rw [← h]
          · -- The keys behind `e` are greater than its own.
            have greater := first _ h
            rw [hk, Std.ReflOrd.compare_self] at greater
            cases greater
      · rw [if_neg same, ih rest]
        refine ⟨Or.inr, fun h => h.resolve_left ?_⟩
        intro h
        rw [← h] at same
        exact same Std.ReflOrd.compare_self

namespace OrderedMap

variable {m m' : OrderedMap α β} {k : α} {v : β} {es : List (α × β)}

/-- A key is known where it has a value. -/
theorem contains_eq_true_iff : m.contains k = true ↔ ∃ v, m.get? k = some v :=
  Option.isSome_iff_exists

/-- Looking up and listing agree, which is how statements on maps become statements on lists. -/
theorem get?_eq_some_iff [Std.LawfulEqOrd α] : m.get? k = some v ↔ (k, v) ∈ m.toList :=
  lookupEntry_eq_some_iff m.ascending

/-- Every key stands once. -/
theorem nodup_keys [Std.LawfulEqOrd α] (m : OrderedMap α β) : (m.toList.map Prod.fst).Nodup := by
  refine List.pairwise_map.2 (m.ascending.imp fun {a b} below same => ?_)
  rw [same, Std.ReflOrd.compare_self] at below
  exact nomatch below

variable [Std.TransOrd α] [Std.LawfulEqOrd α]

/-- Maps that answer every key alike are equal. -/
theorem ext_get? (h : ∀ k, m.get? k = m'.get? k) : m = m' := by
  have perm : m.toList.Perm m'.toList := by
    refine (List.perm_ext_iff_of_nodup m.nodup_keys.of_map m'.nodup_keys.of_map).2 fun e => ?_
    rw [← get?_eq_some_iff, ← get?_eq_some_iff, h]
  have same : m.toList = m'.toList := by
    refine perm.eq_of_pairwise (fun a b _ _ below above => ?_) m.ascending m'.ascending
    rw [Std.OrientedOrd.eq_swap, below] at above
    exact nomatch above
  cases m
  cases m'
  congr

/-- An insertion takes the place of an earlier one for its key and leaves the others. -/
theorem get?_insert [DecidableEq α] (m : OrderedMap α β) (k l : α) (v : β) :
    (m.insert k v).get? l = if l = k then some v else m.get? l := by
  by_cases same : l = k
  · rw [if_pos same, same, get?_insert_self]
  · rw [if_neg same, get?_insert_of_ne m v same]

/-- The entries are put in from the first to the last, so the last for a key counts. -/
theorem ofList_concat (es : List (α × β)) (e : α × β) :
    ofList (es ++ [e]) = (ofList es).insert e.1 e.2 := by
  rw [ofList, ofList, List.foldl_append, List.foldl_cons, List.foldl_nil]

/-- What is found was in the list, if not necessarily as the only entry for its key. -/
theorem mem_of_get?_ofList [DecidableEq α] (h : (ofList es).get? k = some v) : (k, v) ∈ es := by
  induction es using List.reverseRecOn generalizing v with
  | nil => exact nomatch h
  | append_singleton es e ih =>
      rw [ofList_concat, get?_insert] at h
      split at h
      · next same =>
        have value : e.2 = v := Option.some.inj h
        rw [same, ← value]
        exact List.mem_append_right _ (List.mem_singleton.2 rfl)
      · exact List.mem_append_left _ (ih h)

/-- Of a list in which no key stands twice every entry is found. -/
theorem get?_ofList_eq_some_iff [DecidableEq α] (nodup : (es.map Prod.fst).Nodup) :
    (ofList es).get? k = some v ↔ (k, v) ∈ es := by
  refine ⟨mem_of_get?_ofList, fun h => ?_⟩
  induction es using List.reverseRecOn with
  | nil => exact nomatch h
  | append_singleton es e ih =>
      rw [List.map_append, List.nodup_append] at nodup
      obtain ⟨before, -, apart⟩ := nodup
      rw [ofList_concat, get?_insert]
      cases List.mem_append.1 h with
      | inl earlier =>
          have differ : k ≠ e.1 := apart k (List.mem_map_of_mem earlier) e.1 (by simp)
          rw [if_neg differ, ih before earlier]
      | inr last =>
          rw [← List.mem_singleton.1 last, if_pos rfl]

end OrderedMap

end Rollforward.Collection
