import Mathlib.Data.List.Nodup
import Rollforward.Proofs.Collection.OrderedMap
import Rollforward.Statement.Basic

/-!
# `Rollforward.Proofs.Statement.Basic`: items by code and by position

Where no code stands twice, a code names one item and one position. `item?_eq_some_iff` and
`position?_eq_some_iff` read the two lookups as what they find, and `get?_claims_eq_some_iff` reads
the claims as the items without formula.
-/

set_option autoImplicit false

namespace Rollforward.Statement

/-- The codes of the items, in the order of the template. -/
def codes (s : Statement) : List String := s.items.map Item.code

variable {s : Statement} {code : String} {p : Nat} {i j : Item}

/-- An item is computed if it has a formula, and otherwise it is asked for. -/
theorem Item.isComputed_eq_false_iff : i.isComputed = false ↔ i.formula = none := by
  rw [isComputed, Option.isSome_eq_false_iff, Option.isNone_iff_eq_none]

/-- Items with the same code are one item. -/
theorem eq_of_code_eq (nodup : s.codes.Nodup) (hi : i ∈ s.items) (hj : j ∈ s.items)
    (same : i.code = j.code) : i = j :=
  List.inj_on_of_nodup_map nodup hi hj same

/-- Items with the same code stand in the same place. -/
theorem position_eq_of_code_eq (nodup : s.codes.Nodup) {q : Nat} (hp : s.items[p]? = some i)
    (hq : s.items[q]? = some j) (same : i.code = j.code) : p = q := by
  have hcode : s.codes[p]? = s.codes[q]? := by
    rw [codes, List.getElem?_map, List.getElem?_map, hp, hq]
    exact congrArg some same
  have bound : p < s.codes.length := by
    rw [codes, List.length_map]
    exact (List.getElem?_eq_some_iff.1 hp).1
  exact (List.getElem?_inj bound nodup).1 hcode

/-- A statement knows the codes of its items. -/
theorem contains_iff_mem_codes : s.contains code = true ↔ code ∈ s.codes := by
  simp only [contains, codes, List.any_eq_true, List.mem_map, beq_iff_eq]

/-- A code is known where it names an item. -/
theorem contains_eq_isSome_item? (s : Statement) (code : String) :
    s.contains code = (s.item? code).isSome := by
  rw [contains, item?, Bool.eq_iff_iff, List.any_eq_true, List.find?_isSome]

/-- And what it has an item for it knows. -/
theorem contains_of_item? (item : s.item? code = some i) : s.contains code = true := by
  rw [contains_eq_isSome_item?, item]
  rfl

/-- With distinct codes, looking an item up by its code is finding it in the list. -/
theorem item?_eq_some_iff (nodup : s.codes.Nodup) :
    s.item? code = some i ↔ i ∈ s.items ∧ i.code = code := by
  constructor
  · intro found
    exact ⟨List.mem_of_find?_eq_some found, by simpa using List.find?_some found⟩
  · rintro ⟨hi, hcode⟩
    cases found : s.item? code with
    | none => exact absurd hcode (by simpa using List.find?_eq_none.1 found i hi)
    | some j =>
        have hj : j.code = code := by simpa using List.find?_some found
        have hmem : j ∈ s.items := List.mem_of_find?_eq_some found
        rw [eq_of_code_eq nodup hmem hi (hj.trans hcode.symm)]

/-- The place of a code is that of its item. -/
theorem position?_eq_some_iff (nodup : s.codes.Nodup) :
    s.position? code = some p ↔ ∃ i, s.items[p]? = some i ∧ i.code = code := by
  constructor
  · intro found
    obtain ⟨bound, hcode, -⟩ := List.findIdx?_eq_some_iff_getElem.1 found
    exact ⟨s.items[p], List.getElem?_eq_getElem bound, by simpa using hcode⟩
  · rintro ⟨i, hp, hcode⟩
    cases found : s.position? code with
    | none =>
        have other := List.findIdx?_eq_none_iff.1 found i (List.mem_of_getElem? hp)
        exact absurd hcode (by simpa using other)
    | some q =>
        obtain ⟨bound, hq, -⟩ := List.findIdx?_eq_some_iff_getElem.1 found
        have hq : s.items[q].code = code := by simpa using hq
        have same := position_eq_of_code_eq nodup (List.getElem?_eq_getElem bound) hp
          (hq.trans hcode.symm)
        rw [same]

/-- The item of a code stands at the position of the code. -/
theorem exists_position?_of_item? (nodup : s.codes.Nodup) (item : s.item? code = some i) :
    i.code = code ∧ ∃ q, s.items[q]? = some i ∧ s.position? code = some q := by
  obtain ⟨hi, hcode⟩ := (item?_eq_some_iff nodup).1 item
  obtain ⟨q, hq⟩ := List.mem_iff_getElem?.1 hi
  exact ⟨hcode, q, hq, (position?_eq_some_iff nodup).2 ⟨i, hq, hcode⟩⟩

/-- The claims hold the raw-input key of every item without formula, and no other. -/
theorem get?_claims_eq_some_iff (nodup : s.codes.Nodup) {key : String} :
    s.claims.get? code = some key ↔
      ∃ i ∈ s.items, i.isComputed = false ∧ i.code = code ∧ i.declared.rawKey = key := by
  have keys : (((s.items.filter fun i => i.isComputed == false).map fun i =>
      (i.code, i.declared.rawKey)).map Prod.fst).Nodup := by
    rw [List.map_map]
    exact nodup.sublist (List.filter_sublist.map Item.code)
  rw [claims, claimsOf, Collection.OrderedMap.get?_ofList_eq_some_iff keys]
  simp only [List.mem_map, List.mem_filter, beq_iff_eq, Prod.mk.injEq, and_assoc]

/-- The claims of a code depend on the item of the code only. -/
theorem get?_claims_congr {s' : Statement} (nodup : s.codes.Nodup) (nodup' : s'.codes.Nodup)
    (item : s'.item? code = s.item? code) : s'.claims.get? code = s.claims.get? code := by
  have claimed {s : Statement} (nodup : s.codes.Nodup) (key : String) :
      s.claims.get? code = some key ↔
        ∃ i, s.item? code = some i ∧ i.isComputed = false ∧ i.declared.rawKey = key := by
    rw [get?_claims_eq_some_iff nodup]
    refine exists_congr fun i => ?_
    rw [item?_eq_some_iff nodup, and_assoc, and_left_comm (a := i.isComputed = false)]
  refine Option.ext fun key => ?_
  rw [claimed nodup', claimed nodup, item]

end Rollforward.Statement
