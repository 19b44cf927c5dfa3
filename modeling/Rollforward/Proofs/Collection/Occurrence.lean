import Mathlib.Data.Finset.Card
import Mathlib.Data.Finset.Dedup
import Mathlib.Data.List.Induction

/-!
# `Rollforward.Proofs.Collection.Occurrence`: each member where it first occurs

`List.eraseDups` keeps the first occurrence of each member and drops the later ones. A list that
grows at its end is read best from there: one more member is kept if it did not occur before
(`eraseDups_concat`). The rest follows by induction from the end: nothing is kept twice
(`nodup_eraseDups`), what is kept stands in the order of the first occurrences
(`pairwise_idxOf_eraseDups`), and a search finds the same (`find?_eraseDups`).

The rest are three facts about the parts of a list: where a member of one stands
(`append_eq_append_cons`), where a run of members ends (`takeWhile_append_of_stops`), and which of
two members comes first (`idxOf_lt_of_pairwise_not`).
-/

set_option autoImplicit false

namespace Rollforward.Collection

variable {α : Type} [BEq α] [LawfulBEq α]

/-- A member at the end is kept where it first occurs there. -/
theorem eraseDups_concat [DecidableEq α] (as : List α) (a : α) :
    (as ++ [a]).eraseDups = if a ∈ as then as.eraseDups else as.eraseDups ++ [a] := by
  rw [List.eraseDups_append]
  split
  · next known => simp [List.removeAll, known]
  · next fresh => simp [List.removeAll, fresh, List.eraseDups_cons]

/-- Nothing comes twice after repetitions are dropped. -/
theorem nodup_eraseDups (as : List α) : as.eraseDups.Nodup := by
  classical
  induction as using List.reverseRecOn with
  | nil => exact List.nodup_nil
  | append_singleton as a ih =>
      rw [eraseDups_concat]
      split
      · exact ih
      · next fresh =>
        have apart : a ∉ as.eraseDups := fun kept => fresh (List.mem_eraseDups.1 kept)
        exact ih.append (List.nodup_singleton a) (List.disjoint_singleton.2 apart)

/-- What is kept stands in the order of the first occurrences. -/
theorem pairwise_idxOf_eraseDups (as : List α) :
    as.eraseDups.Pairwise fun a b => as.idxOf a < as.idxOf b := by
  classical
  induction as using List.reverseRecOn with
  | nil => exact List.Pairwise.nil
  | append_singleton as a ih =>
      -- What occurred before still occurs first where it did.
      have kept : as.eraseDups.Pairwise fun b c => (as ++ [a]).idxOf b < (as ++ [a]).idxOf c := by
        refine ih.imp_of_mem fun {b c} hb hc before => ?_
        rw [List.idxOf_append_of_mem (List.mem_eraseDups.1 hb),
          List.idxOf_append_of_mem (List.mem_eraseDups.1 hc)]
        exact before
      rw [eraseDups_concat]
      split
      · exact kept
      · next fresh =>
        refine List.pairwise_append.2 ⟨kept, List.pairwise_singleton _ a, fun b hb c hc => ?_⟩
        rw [List.mem_singleton] at hc
        have earlier := List.idxOf_lt_length_iff.2 (List.mem_eraseDups.1 hb)
        rw [hc, List.idxOf_append_of_mem (List.mem_eraseDups.1 hb),
          List.idxOf_append_of_notMem fresh]
        omega

/-- The first member with a property is never dropped. -/
theorem find?_eraseDups (p : α → Bool) (as : List α) : as.eraseDups.find? p = as.find? p := by
  classical
  induction as using List.reverseRecOn with
  | nil => rfl
  | append_singleton as a ih =>
      rw [eraseDups_concat, List.find?_append, ← ih]
      split
      · next known =>
        cases found : as.eraseDups.find? p with
        | some b => rfl
        | none =>
            have notHere := List.find?_eq_none.1 found a (List.mem_eraseDups.2 known)
            simp [notHere]
      · rw [List.find?_append]

/-- Members that stay apart are kept where what they are mapped to is. -/
theorem eraseDups_map {β : Type} [BEq β] [LawfulBEq β] {f : α → β} (apart : Function.Injective f)
    (as : List α) : (as.map f).eraseDups = as.eraseDups.map f := by
  classical
  induction as using List.reverseRecOn with
  | nil => rfl
  | append_singleton as a ih =>
      have kept : f a ∈ as.map f ↔ a ∈ as := List.mem_map_of_injective apart
      rw [List.map_append, List.map_singleton, eraseDups_concat, eraseDups_concat, ih]
      by_cases known : a ∈ as
      · rw [if_pos known, if_pos (kept.2 known)]
      · rw [if_neg known, if_neg (mt kept.1 known), List.map_append, List.map_singleton]

/-- As many are kept as there are different ones. -/
theorem length_eraseDups [DecidableEq α] (as : List α) :
    as.eraseDups.length = as.toFinset.card := by
  rw [← List.toFinset_card_of_nodup (nodup_eraseDups as)]
  congr 1
  ext a
  rw [List.mem_toFinset, List.mem_toFinset, List.mem_eraseDups]

/-! ### Parts of a list -/

/-- A member stands in the first of two parts of a list or in the second. -/
theorem append_eq_append_cons {β : Type} {xs ys before after : List β} {b : β}
    (h : xs ++ ys = before ++ b :: after) :
    (∃ more, xs = before ++ b :: more ∧ after = more ++ ys) ∨
      ∃ more, before = xs ++ more ∧ ys = more ++ b :: after := by
  obtain ⟨more, rfl, rfl⟩ | ⟨more, rfl, behind⟩ := List.append_eq_append_iff.1 h
  · exact Or.inr ⟨more, rfl, rfl⟩
  · cases more with
    | nil => exact Or.inr ⟨[], by simp, behind.symm⟩
    | cons d more =>
        obtain ⟨rfl, rfl⟩ := List.cons.inj behind
        exact Or.inl ⟨more, rfl, rfl⟩

/-- A run of members with a property ends in front of the first member without it. -/
theorem takeWhile_append_of_stops {β : Type} {p : β → Bool} {run rest : List β}
    (all : ∀ b ∈ run, p b = true) (stops : ∀ b ∈ rest.head?, p b = false) :
    (run ++ rest).takeWhile p = run := by
  rw [List.takeWhile_append_of_pos all]
  cases rest with
  | nil => exact List.append_nil run
  | cons b bs => rw [List.takeWhile_cons, stops b rfl, if_neg nofun, List.append_nil]

/-- Where no member is related to a later one, a member stands behind whatever it is related to. -/
theorem idxOf_lt_of_pairwise_not {r : α → α → Prop} {as : List α} {a b : α}
    (notLater : as.Pairwise fun a b => ¬r a b) (notSelf : ¬r a a) (ha : a ∈ as) (hb : b ∈ as)
    (related : r a b) : as.idxOf b < as.idxOf a := by
  have bound := List.idxOf_lt_length_iff.2 ha
  have bound' := List.idxOf_lt_length_iff.2 hb
  by_contra later
  obtain same | before := Nat.eq_or_lt_of_le (Nat.le_of_not_lt later)
  · rw [List.idxOf_inj ha] at same
    exact notSelf (same ▸ related)
  · refine List.pairwise_iff_getElem.1 notLater _ _ bound bound' before ?_
    rwa [List.getElem_idxOf, List.getElem_idxOf]

end Rollforward.Collection
