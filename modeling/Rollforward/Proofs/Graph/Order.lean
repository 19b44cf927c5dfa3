import Mathlib.Data.List.Perm.Basic
import Rollforward.Graph.Order

/-!
# `Rollforward.Proofs.Graph.Order`: the order of evaluation is one

A node is taken off when it depends on none of those left, itself included. So no node depends on
itself or on one that is taken after it (`peel_ready`), and no node gets lost (`peel_perm`).
`order_eq_ok` says both of a graph that has an order.
-/

set_option autoImplicit false

namespace Rollforward.Graph

variable {g : Graph} {left : List String}

/-- A node is ready when it depends on none of those left, itself included. -/
theorem isReady_eq_true_iff {code : String} :
    g.isReady left code = true ↔ ∀ other ∈ left, g.hasEdge code other = false := by
  simp [isReady]

/-- One step of `peel`, with the reason for it. -/
theorem peel_cases (g : Graph) (left : List String) :
    (g.peel left = ([], left) ∧ ∀ code ∈ left, g.isReady left code = false) ∨
      ∃ code ∈ left, g.isReady left code = true ∧
        g.peel left = (code :: (g.peel (left.erase code)).1, (g.peel (left.erase code)).2) := by
  rw [peel]
  split
  · next none =>
    refine Or.inl ⟨rfl, fun code hcode => ?_⟩
    exact eq_false_of_ne_true (List.find?_eq_none.1 none code hcode)
  · next code found =>
    exact Or.inr ⟨code, List.mem_of_find?_eq_some found, List.find?_some found, rfl⟩

/-- What holds of a list without a ready node, and of a list with one when it holds of the rest,
holds of every list. -/
theorem peel_induction {motive : List String → Prop} (g : Graph)
    (stuck : ∀ left, g.peel left = ([], left) → motive left)
    (take : ∀ left code, code ∈ left → g.isReady left code = true →
      g.peel left = (code :: (g.peel (left.erase code)).1, (g.peel (left.erase code)).2) →
      motive (left.erase code) → motive left) (left : List String) : motive left := by
  induction hsize : left.length using Nat.strongRecOn generalizing left with
  | ind size ih =>
      cases peel_cases g left with
      | inl none => exact stuck left none.1
      | inr some =>
          obtain ⟨code, hcode, ready, step⟩ := some
          have shorter : (left.erase code).length < size := by
            have := List.length_erase_of_mem hcode
            have := List.length_pos_of_mem hcode
            omega
          exact take left code hcode ready step (ih _ shorter _ rfl)

/-- Nodes are taken or left, and each of them once. -/
theorem peel_perm (g : Graph) (left : List String) :
    ((g.peel left).1 ++ (g.peel left).2).Perm left := by
  induction left using peel_induction g with
  | stuck left step =>
      rw [step]
      exact List.Perm.refl left
  | take left code hcode ready step ih =>
      rw [step]
      exact (ih.cons code).trans (List.perm_cons_erase hcode).symm

/-- Only nodes that were left can be taken. -/
theorem mem_of_mem_peel {code : String} (h : code ∈ (g.peel left).1) : code ∈ left :=
  (peel_perm g left).subset (List.mem_append_left _ h)

/-- No node that is taken off depends on itself, and none on one that is taken later. -/
theorem peel_ready (g : Graph) (left : List String) :
    (∀ code ∈ (g.peel left).1, g.hasEdge code code = false) ∧
      (g.peel left).1.Pairwise fun code later => g.hasEdge code later = false := by
  induction left using peel_induction g with
  | stuck left step =>
      rw [step]
      exact ⟨fun _ taken => absurd taken List.not_mem_nil, List.Pairwise.nil⟩
  | take left code hcode ready step ih =>
      have ready := isReady_eq_true_iff.1 ready
      rw [step]
      constructor
      · exact List.forall_mem_cons.2 ⟨ready code hcode, ih.1⟩
      -- What is taken later was still left when `code` was found ready.
      · refine List.pairwise_cons.2 ⟨fun later hlater => ready later ?_, ih.2⟩
        exact List.mem_of_mem_erase (mem_of_mem_peel hlater)

/-- An order holds every node once, no node depends on itself, and none on one behind it. -/
theorem order_eq_ok {codes : List String} (h : g.order = .ok codes) :
    codes.Perm g.nodes ∧ (∀ code ∈ codes, g.hasEdge code code = false) ∧
      codes.Pairwise fun code later => g.hasEdge code later = false := by
  change (if (g.peel g.nodes).2.isEmpty then Except.ok (g.peel g.nodes).1 else _) = _ at h
  have perm := peel_perm g g.nodes
  have ready := peel_ready g g.nodes
  split at h
  · next empty =>
    rw [List.isEmpty_iff.1 empty, List.append_nil] at perm
    rw [← Except.ok.inj h]
    exact ⟨perm, ready⟩
  · exact nomatch h

end Rollforward.Graph
