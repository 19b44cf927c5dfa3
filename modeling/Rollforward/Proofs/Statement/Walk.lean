import Rollforward.Proofs.Statement.Basic
import Rollforward.Statement.Trace

/-!
# `Rollforward.Proofs.Statement.Walk`: the steps of a trace

`Statement.walkItem` and `Statement.walkChildren` call each other and carry a proof that fewer items
are left. `Walk` says the same as one relation without that proof: which lines stand below an entry,
and which items are shown by then. It goes from child to child, in three ways: a leaf has one line,
an item that was shown before has one line, and an item that is new has its own lines below it.

`walk_walkChildren` is the one place that opens the two functions. Whatever is said of a trace later
is an induction over `Walk`.
-/

set_option autoImplicit false

namespace Rollforward.Statement

/-- Below an entry at `branch`, the children have these lines. The items of `seen` were shown before
with their levels, the items of the last argument are shown by then. -/
inductive Walk (s : Statement) :
    List (String × Nat) → List Bool → List Child → List TraceLine → List (String × Nat) → Prop where
  | done (seen : List (String × Nat)) (branch : List Bool) : Walk s seen branch [] [] seen
  | leaf {seen after : List (String × Nat)} {branch : List Bool} {r : Formula.Reference}
    {rest : List Child} {more : List TraceLine} (others : Walk s seen branch rest more after) :
    Walk s seen branch (.leaf r :: rest) (⟨branch ++ [rest.isEmpty], .leaf r⟩ :: more) after
  | again {seen after : List (String × Nat)} {branch : List Bool} {code : String} {shown : Nat}
    {rest : List Child} {more : List TraceLine} (known : seen.lookup code = some shown)
    (others : Walk s seen branch rest more after) :
    Walk s seen branch (.item code :: rest)
      (⟨branch ++ [rest.isEmpty], .again code shown⟩ :: more) after
  | first {seen between after : List (String × Nat)} {branch : List Bool} {code : String}
    {rest : List Child} {below more : List TraceLine} (fresh : seen.lookup code = none)
    (inside : Walk s ((code, branch.length + 2) :: seen) (branch ++ [rest.isEmpty])
      (children s code) below between)
    (others : Walk s between branch rest more after) :
    Walk s seen branch (.item code :: rest)
      (⟨branch ++ [rest.isEmpty], .full code (branch.length + 2)⟩ :: (below ++ more)) after

variable {s : Statement} {seen : List (String × Nat)} {branch : List Bool} {level : Nat}
  {code : String}

/-- An item that was shown before has one line and shows nothing more. -/
theorem walkItem_of_shown {shown : Nat} (known : seen.lookup code = some shown) :
    (walkItem s seen branch level code).1 = ([⟨branch, .again code shown⟩], seen) := by
  rw [walkItem]
  split
  · next k found =>
    cases known.symm.trans found
    rfl
  · next found => cases known.symm.trans found

/-- A new item counts as shown before its children are walked, so that none of them shows it again
in full. -/
theorem walkItem_of_fresh (fresh : seen.lookup code = none) (item : s.contains code = true) :
    (walkItem s seen branch level code).1 =
      (⟨branch, .full code level⟩ ::
          (walkChildren s ((code, level) :: seen) branch level (children s code)).1.1,
        (walkChildren s ((code, level) :: seen) branch level (children s code)).1.2) := by
  rw [walkItem]
  split
  · next k found => cases fresh.symm.trans found
  · rw [dif_pos item]

/-- Nothing stands below an entry without children. -/
theorem walkChildren_nil : (walkChildren s seen branch level []).1 = ([], seen) := by
  rw [walkChildren]

/-- A reference to another period, to raw inputs or to a domain ends its branch. -/
theorem walkChildren_leaf {r : Formula.Reference} {rest : List Child} :
    (walkChildren s seen branch level (.leaf r :: rest)).1 =
      (⟨branch ++ [rest.isEmpty], .leaf r⟩ :: (walkChildren s seen branch level rest).1.1,
        (walkChildren s seen branch level rest).1.2) := by
  rw [walkChildren]

/-- The children behind an item start from what the item itself has shown. -/
theorem walkChildren_item {rest : List Child} :
    (walkChildren s seen branch level (.item code :: rest)).1 =
      let item := (walkItem s seen (branch ++ [rest.isEmpty]) (level + 1) code).1
      (item.1 ++ (walkChildren s item.2 branch level rest).1.1,
        (walkChildren s item.2 branch level rest).1.2) := by
  rw [walkChildren]

/-- An item among the children is one of the statement. The walk is therefore never in the case of a
code that it does not know. -/
theorem contains_of_mem_children {d : String} (h : .item d ∈ children s code) :
    s.contains d = true := by
  unfold children at h
  split at h
  · obtain ⟨r, -, made⟩ := List.mem_map.1 (List.mem_eraseDups.1 h)
    unfold childOf at made
    split at made
    · next item =>
      cases made
      exact item.2.2
    · cases made
  · exact absurd h List.not_mem_nil

/-- The two functions walk as `Walk` says. -/
theorem walk_walkChildren (s : Statement) (seen : List (String × Nat)) (branch : List Bool)
    (cs : List Child) (items : ∀ d, .item d ∈ cs → s.contains d = true) :
    Walk s seen branch cs (walkChildren s seen branch (branch.length + 1) cs).1.1
      (walkChildren s seen branch (branch.length + 1) cs).1.2 := by
  match cs with
  | [] =>
      rw [walkChildren_nil]
      exact .done seen branch
  | .leaf r :: rest =>
      rw [walkChildren_leaf]
      exact .leaf (walk_walkChildren s seen branch rest fun d hd =>
        items d (List.mem_cons_of_mem _ hd))
  | .item code :: rest =>
      have others := walk_walkChildren s
        (walkItem s seen (branch ++ [rest.isEmpty]) (branch.length + 2) code).1.2 branch rest
        fun d hd => items d (List.mem_cons_of_mem _ hd)
      rw [walkChildren_item]
      cases shown : seen.lookup code with
      | some k =>
          rw [walkItem_of_shown shown] at others ⊢
          exact .again shown others
      | none =>
          have item := items code List.mem_cons_self
          -- The item counts as shown inside, which leaves fewer to walk.
          have fewer := length_unseen_cons_lt (branch.length + 2) item shown
          have inside := walk_walkChildren s ((code, branch.length + 2) :: seen)
            (branch ++ [rest.isEmpty]) (children s code) fun d => contains_of_mem_children
          rw [List.length_append, List.length_singleton] at inside
          rw [walkItem_of_fresh shown item] at others ⊢
          exact .first shown inside others
termination_by ((unseen s seen).length, cs.length)
decreasing_by
  · exact Prod.Lex.right _ (by simp)
  -- The children behind an item are walked with no more items left than before it.
  · rcases Nat.lt_or_eq_of_le
      (walkItem s seen (branch ++ [rest.isEmpty]) (branch.length + 2) code).2 with h | h
    · exact Prod.Lex.left _ _ h
    · rw [h]
      exact Prod.Lex.right _ (by simp)
  · exact Prod.Lex.left _ _ fewer

/-- The trace of an item is the entry of the item with the lines of its children below. -/
theorem exists_walk_trace (item : s.contains code = true) :
    ∃ below after, s.trace code = ⟨[], .full code 1⟩ :: below ∧
      Walk s [(code, 1)] [] (children s code) below after := by
  have inside := walk_walkChildren s [(code, 1)] [] (children s code)
    fun d => contains_of_mem_children
  refine ⟨_, _, ?_, inside⟩
  rw [trace, walkItem_of_fresh rfl item]
  rfl

end Rollforward.Statement
