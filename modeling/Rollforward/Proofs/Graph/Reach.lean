import Mathlib.Logic.Relation
import Rollforward.Statement.Impact

/-!
# `Rollforward.Proofs.Graph.Reach`: everything that depends on given codes

`Graph.spread` moves nodes from the fresh ones to those reached, one that depends on a reached node
at a time, until there is none left. So what is reached leads to what was reached before
(`forall_mem_spread`), and no fresh node that leads there is left out (`mem_spread_of_hasEdge`).

`mem_downstream_iff` says both as one: `downstream` holds the nodes from which edges lead to one of
the starts, and no other.
-/

set_option autoImplicit false

namespace Rollforward.Graph

variable {g : Graph} {reached fresh : List String} {a b : String}

/-- The node `a` is `b` or depends on it, directly or not. -/
def Leads (g : Graph) (a b : String) : Prop :=
  Relation.ReflTransGen (fun a b => a ∈ g.nodes ∧ g.hasEdge a b = true) a b

/-- One step of `spread`, with the reason for it. -/
theorem spread_cases (g : Graph) (reached fresh : List String) :
    (g.spread reached fresh = reached ∧
        ∀ code ∈ fresh, ∀ other ∈ reached, g.hasEdge code other = false) ∨
      ∃ code ∈ fresh, (∃ other ∈ reached, g.hasEdge code other = true) ∧
        g.spread reached fresh = g.spread (code :: reached) (fresh.erase code) := by
  rw [spread]
  split
  · next none =>
    refine Or.inl ⟨rfl, fun code hcode other hother => eq_false_of_ne_true fun edge => ?_⟩
    exact List.find?_eq_none.1 none code hcode (List.any_eq_true.2 ⟨other, hother, edge⟩)
  · next code found =>
    have leads : ∃ other ∈ reached, g.hasEdge code other = true := by
      simpa using List.find?_some found
    exact Or.inr ⟨code, List.mem_of_find?_eq_some found, leads, rfl⟩

/-- What holds of the rows where nothing spreads, and of the others when it holds one step later,
holds of all. -/
theorem spread_induction {motive : List String → List String → Prop} (g : Graph)
    (stop : ∀ reached fresh, g.spread reached fresh = reached →
      (∀ code ∈ fresh, ∀ other ∈ reached, g.hasEdge code other = false) → motive reached fresh)
    (step : ∀ reached fresh code, code ∈ fresh →
      (∃ other ∈ reached, g.hasEdge code other = true) →
      g.spread reached fresh = g.spread (code :: reached) (fresh.erase code) →
      motive (code :: reached) (fresh.erase code) → motive reached fresh)
    (reached fresh : List String) : motive reached fresh := by
  induction hsize : fresh.length using Nat.strongRecOn generalizing reached fresh with
  | ind size ih =>
      cases spread_cases g reached fresh with
      | inl none => exact stop reached fresh none.1 none.2
      | inr some =>
          obtain ⟨code, hcode, leads, next⟩ := some
          have shorter : (fresh.erase code).length < size := by
            have := List.length_erase_of_mem hcode
            have := List.length_pos_of_mem hcode
            omega
          exact step reached fresh code hcode leads next (ih _ shorter _ _ rfl)

/-- What is reached stays so. -/
theorem subset_spread (g : Graph) (reached fresh : List String) :
    reached ⊆ g.spread reached fresh := by
  induction reached, fresh using spread_induction g with
  | stop reached fresh done _ =>
      rw [done]
      exact List.Subset.refl reached
  | step reached fresh code _ _ next ih =>
      rw [next]
      exact List.Subset.trans (List.subset_cons_self code reached) ih

/-- What holds of the nodes reached before, and of a fresh node that depends on one of which it
holds, holds of all that is reached. -/
theorem forall_mem_spread {motive : String → Prop} (start : ∀ code ∈ reached, motive code)
    (step : ∀ code ∈ fresh, ∀ other, g.hasEdge code other = true → motive other → motive code) :
    ∀ code ∈ g.spread reached fresh, motive code := by
  induction reached, fresh using spread_induction g with
  | stop reached fresh done _ =>
      rw [done]
      exact start
  | step reached fresh found hfound leads next ih =>
      obtain ⟨other, hother, edge⟩ := leads
      rw [next]
      refine ih ?_ fun code hcode => step code (List.mem_of_mem_erase hcode)
      exact List.forall_mem_cons.2 ⟨step found hfound other edge (start other hother), start⟩

/-- Whatever depends on what is reached is reached. -/
theorem mem_spread_of_hasEdge (hb : b ∈ g.spread reached fresh) (edge : g.hasEdge a b = true)
    (known : a ∈ reached ∨ a ∈ fresh) : a ∈ g.spread reached fresh := by
  induction reached, fresh using spread_induction g with
  | stop reached fresh done none =>
      rw [done] at hb ⊢
      refine known.resolve_right fun ha => ?_
      exact nomatch edge.symm.trans (none a ha b hb)
  | step reached fresh code _ _ next ih =>
      rw [next] at hb ⊢
      refine ih hb ?_
      by_cases same : a = code
      · exact Or.inl (List.mem_cons.2 (Or.inl same))
      · exact known.imp (List.mem_cons_of_mem code) (List.mem_erase_of_ne same).2

/-! ### Downstream -/

/-- The search starts with the nodes among the starts, and all other nodes are still to be found. -/
theorem downstream_eq (g : Graph) (starts : List String) :
    g.downstream starts = g.nodes.filter fun code =>
      (g.spread (g.nodes.filter fun code => starts.contains code)
        (g.nodes.filter fun code => !starts.contains code)).contains code := by
  rw [downstream, List.partition_eq_filter_filter]
  rfl

/-- The nodes from which edges lead to a start are downstream of it, and no other. -/
theorem mem_downstream_iff {starts : List String} :
    a ∈ g.downstream starts ↔ ∃ b ∈ starts, b ∈ g.nodes ∧ g.Leads a b := by
  rw [downstream_eq, List.mem_filter, List.contains_iff_mem]
  constructor
  · rintro ⟨-, hspread⟩
    refine forall_mem_spread (motive := fun a => ∃ b ∈ starts, b ∈ g.nodes ∧ g.Leads a b)
      ?_ ?_ a hspread
    · intro code hcode
      obtain ⟨node, start⟩ := List.mem_filter.1 hcode
      exact ⟨code, List.contains_iff_mem.1 start, node, .refl⟩
    · rintro code hcode other edge ⟨b, start, node, leads⟩
      exact ⟨b, start, node, .head ⟨(List.mem_filter.1 hcode).1, edge⟩ leads⟩
  · rintro ⟨b, start, node, leads⟩
    -- The induction is on the way from `a` to the start, one edge longer at its front.
    induction leads using Relation.ReflTransGen.head_induction_on with
    | refl =>
        have known := List.mem_filter.2 ⟨node, List.contains_iff_mem.2 start⟩
        exact ⟨node, subset_spread g _ _ known⟩
    | @head code other edge _ ih =>
        obtain ⟨hcode, edge⟩ := edge
        refine ⟨hcode, mem_spread_of_hasEdge ih.2 edge ?_⟩
        rw [List.mem_filter, List.mem_filter]
        cases starts.contains code with
        | true => exact Or.inl ⟨hcode, rfl⟩
        | false => exact Or.inr ⟨hcode, rfl⟩

end Rollforward.Graph
