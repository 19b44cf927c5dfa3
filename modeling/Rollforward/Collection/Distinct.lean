/-!
# `Rollforward.Collection.Distinct`: ascending lists without repetition

A finite set is a list in ascending order that names each member once, so two lists with the same
members are the same list.
-/

set_option autoImplicit false

namespace Rollforward.Collection

variable {α : Type} [Ord α]

/-- Puts `a` in its place, unless the list names it already. -/
def insertDistinct (a : α) : List α → List α
  | [] => [a]
  | b :: bs =>
    match compare a b with
    | .lt => a :: b :: bs
    | .eq => b :: bs
    | .gt => b :: insertDistinct a bs

/-- The members of a list in ascending order, each once. -/
def sortDistinct (as : List α) : List α :=
  as.foldr insertDistinct []

/-- Inserting adds the one member. -/
theorem mem_insertDistinct [Std.LawfulEqOrd α] {a x : α} {as : List α} :
    x ∈ insertDistinct a as ↔ x = a ∨ x ∈ as := by
  induction as with
  | nil => simp [insertDistinct]
  | cons b bs ih =>
    simp only [insertDistinct]
    split
    · simp
    · next h => simp [Std.LawfulEqOrd.eq_of_compare h]
    · simp only [List.mem_cons, ih]
      constructor
      · rintro (h | h | h) <;> simp [h]
      · rintro (h | h | h) <;> simp [h]

/-- Sorting keeps exactly the members. -/
theorem mem_sortDistinct [Std.LawfulEqOrd α] {x : α} {as : List α} :
    x ∈ sortDistinct as ↔ x ∈ as := by
  induction as with
  | nil => simp [sortDistinct]
  | cons a as ih => simpa [sortDistinct, mem_insertDistinct] using or_congr Iff.rfl ih

/-- Inserting keeps a list ascending, and so free of repetition. -/
theorem pairwise_insertDistinct [Std.TransOrd α] [Std.LawfulEqOrd α] {a : α} {as : List α}
    (h : as.Pairwise fun a b => compare a b = .lt) :
    (insertDistinct a as).Pairwise fun a b => compare a b = .lt := by
  induction as with
  | nil => simp [insertDistinct]
  | cons b bs ih =>
    have ⟨first, rest⟩ := List.pairwise_cons.1 h
    simp only [insertDistinct]
    split
    · next below =>
      refine List.pairwise_cons.2 ⟨fun x hx => ?_, h⟩
      rcases List.mem_cons.1 hx with hx | hx
      · rwa [hx]
      · exact Std.TransCmp.lt_trans below (first x hx)
    · exact h
    · next above =>
      refine List.pairwise_cons.2 ⟨fun x hx => ?_, ih rest⟩
      rcases mem_insertDistinct.1 hx with hx | hx
      · subst hx
        exact Std.OrientedCmp.gt_iff_lt.1 above
      · exact first x hx

/-- A sorted list is ascending. -/
theorem pairwise_sortDistinct [Std.TransOrd α] [Std.LawfulEqOrd α] (as : List α) :
    (sortDistinct as).Pairwise fun a b => compare a b = .lt := by
  induction as with
  | nil => exact List.Pairwise.nil
  | cons a as ih => exact pairwise_insertDistinct ih

end Rollforward.Collection
