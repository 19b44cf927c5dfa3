import Rollforward.Proofs.Collection.Occurrence
import Rollforward.Statement.Trace

/-!
# `Rollforward.Proofs.Statement.Outline`: trees as indented lines

A tree is written line by line, each entry in front of those below it, one level further in. How the
entries hang together can be read from the levels alone. What stands below an entry are the lines
behind it that are deeper, up to the first that is not (`TraceLine.childrenIn`), and it is the last
child of its parent when no line of its level comes before one of a lower level
(`TraceLine.isLast`). `TraceLine.branch` does not enter into this but by its length.

`Outlined` says how the lines are put together. The three lemmas on it compare the two: the children
of an entry are those it was put together with (`Outlined.childrenIn`), the last flag of a branch
says whether the entry is the last child (`Outlined.getLast?_branch`), and the flags before it are
those of the entries above (`Outlined.exists_ancestor`). Each is an induction in which what follows
the outline may be anything that starts no deeper than the parent.
-/

set_option autoImplicit false

namespace Rollforward.Statement

open Collection (append_eq_append_cons takeWhile_append_of_stops)

/-! ### What the levels say -/

namespace TraceLine

/-- The level of an entry, one for the topmost. -/
def level (l : TraceLine) : Nat := l.branch.length + 1

/-- The children of an entry: of the lines behind it, up to the first that is no deeper, those one
level deeper. -/
def childrenIn (l : TraceLine) (behind : List TraceLine) : List TraceLine :=
  (behind.takeWhile fun d => l.level < d.level).filter fun d => d.level == l.level + 1

/-- Whether an entry is the last child of its parent: of the lines behind it, none of its level
comes before one of a lower level. -/
def isLast (l : TraceLine) (behind : List TraceLine) : Bool :=
  (behind.takeWhile fun d => l.level ≤ d.level).all fun d => d.level != l.level

end TraceLine

/-- The lines are the trees with `entries` at their tops, below a parent at `branch`. What stands
directly below an entry of a level is as `P` allows. -/
inductive Outlined (P : Nat → Entry → List Entry → Prop) :
    List Bool → List Entry → List TraceLine → Prop where
  | nil (branch : List Bool) : Outlined P branch [] []
  | cons {branch : List Bool} {e : Entry} {es inner : List Entry} {below more : List TraceLine}
    (allowed : P (branch.length + 2) e inner)
    (inside : Outlined P (branch ++ [es.isEmpty]) inner below)
    (others : Outlined P branch es more) :
    Outlined P branch (e :: es) (⟨branch ++ [es.isEmpty], e⟩ :: (below ++ more))

namespace Outlined

variable {P : Nat → Entry → List Entry → Prop} {branch : List Bool} {entries : List Entry}
  {lines rest before behind : List TraceLine} {l : TraceLine}

/-- The lines directly below a branch are one level down from it. -/
theorem level_top {last : Bool} {e : Entry} :
    TraceLine.level ⟨branch ++ [last], e⟩ = branch.length + 2 := by
  rw [TraceLine.level, List.length_append, List.length_singleton]

/-- The lines are deeper than the parent, and their branches continue its branch. -/
theorem deeper (h : Outlined P branch entries lines) :
    ∀ d ∈ lines, branch.length + 1 < d.level ∧ branch <+: d.branch := by
  induction h with
  | nil branch => exact fun d hd => absurd hd List.not_mem_nil
  | @cons branch e es inner below more allowed inside others ihInside ihOthers =>
      refine List.forall_mem_cons.2
        ⟨⟨?_, List.prefix_append _ _⟩, List.forall_mem_append.2 ⟨?_, ?_⟩⟩
      · rw [level_top]
        omega
      · intro d hd
        obtain ⟨further, continues⟩ := ihInside d hd
        rw [List.length_append, List.length_singleton] at further
        exact ⟨by omega, (List.prefix_append _ _).trans continues⟩
      · exact ihOthers

/-- The first line is one level deeper than the parent. -/
theorem level_head (h : Outlined P branch entries lines) :
    ∀ d ∈ lines.head?, d.level = branch.length + 2 := by
  cases h with
  | nil => exact nofun
  | cons allowed inside others =>
      rintro d ⟨⟩
      exact level_top

/-- The lines one level deeper than the parent are the tops of the trees. -/
theorem map_entry_filter (h : Outlined P branch entries lines) :
    (lines.filter fun d => d.level == branch.length + 2).map TraceLine.entry = entries := by
  induction h with
  | nil branch => rfl
  | @cons branch e es inner below more allowed inside others ihInside ihOthers =>
      have nothing : below.filter (fun d => d.level == branch.length + 2) = [] := by
        refine List.filter_eq_nil_iff.2 fun d hd same => ?_
        have further := (inside.deeper d hd).1
        rw [List.length_append, List.length_singleton] at further
        have same : d.level = branch.length + 2 := by simpa using same
        omega
      rw [List.filter_cons_of_pos (by simp [level_top]), List.filter_append, nothing,
        List.nil_append, List.map_cons, ihOthers]

/-- Nothing need follow. -/
theorem stops_nil : ∀ d ∈ ([] : List TraceLine).head?, d.level ≤ branch.length + 1 := nofun

/-- What follows the trees of the later children starts no deeper than they do. -/
theorem level_head_append (h : Outlined P branch entries lines)
    (stops : ∀ d ∈ rest.head?, d.level ≤ branch.length + 1) :
    ∀ d ∈ (lines ++ rest).head?, d.level ≤ branch.length + 2 := by
  intro d first
  cases lines with
  | nil => exact Nat.le_succ_of_le (stops d first)
  | cons top lines => exact Nat.le_of_eq (h.level_head d first)

/-- Where a line of the outline stands: it is at the top of the first tree, below that, or in one of
the other trees. -/
theorem cons_append_eq {top : TraceLine} {below more : List TraceLine}
    (split : top :: (below ++ more) = before ++ l :: behind) :
    (before = [] ∧ l = top ∧ behind = below ++ more) ∨
      (∃ early late, before = top :: early ∧ below = early ++ l :: late ∧ behind = late ++ more) ∨
      ∃ early, before = top :: (below ++ early) ∧ more = early ++ l :: behind := by
  obtain ⟨rfl, same⟩ | ⟨early, rfl, under⟩ := List.cons_eq_append_iff.1 split
  · cases same
    exact .inl ⟨rfl, rfl, rfl⟩
  · obtain ⟨late, inside, rfl⟩ | ⟨early, rfl, other⟩ := append_eq_append_cons under
    · exact .inr (.inl ⟨_, late, rfl, inside, rfl⟩)
    · exact .inr (.inr ⟨early, rfl, other⟩)

/-- The children of the parent are the tops of the trees. -/
theorem map_entry_childrenIn (h : Outlined P branch entries lines)
    (stops : ∀ d ∈ rest.head?, d.level ≤ branch.length + 1) (level : l.level = branch.length + 1) :
    (l.childrenIn (lines ++ rest)).map TraceLine.entry = entries := by
  have run : (lines ++ rest).takeWhile (fun d => branch.length + 1 < d.level) = lines :=
    takeWhile_append_of_stops (fun d hd => decide_eq_true (h.deeper d hd).1)
      fun d hd => decide_eq_false (Nat.not_lt.2 (stops d hd))
  rw [TraceLine.childrenIn, level, run, h.map_entry_filter]

/-- The children of an entry are those it was put together with. -/
theorem childrenIn (h : Outlined P branch entries lines)
    (stops : ∀ d ∈ rest.head?, d.level ≤ branch.length + 1)
    (split : lines = before ++ l :: behind) :
    P l.level l.entry ((l.childrenIn (behind ++ rest)).map TraceLine.entry) := by
  induction h generalizing before l behind rest with
  | nil branch => simp at split
  | @cons branch e es inner below more allowed inside others ihInside ihOthers =>
      -- What is below the first tree ends where the next one starts, or what follows the last.
      have further : ∀ d ∈ (more ++ rest).head?, d.level ≤ (branch ++ [es.isEmpty]).length + 1 := by
        rw [List.length_append, List.length_singleton]
        exact others.level_head_append stops
      obtain ⟨rfl, rfl, rfl⟩ | ⟨early, late, rfl, within, rfl⟩ | ⟨early, rfl, beside⟩ :=
        cons_append_eq split
      · rw [List.append_assoc, inside.map_entry_childrenIn further rfl, level_top]
        exact allowed
      · rw [List.append_assoc]
        exact ihInside further within
      · exact ihOthers stops beside

/-- The last flag of a branch says whether the entry is the last child of its parent. -/
theorem getLast?_branch (h : Outlined P branch entries lines)
    (stops : ∀ d ∈ rest.head?, d.level ≤ branch.length + 1)
    (split : lines = before ++ l :: behind) :
    l.branch.getLast? = some (l.isLast (behind ++ rest)) := by
  induction h generalizing before l behind rest with
  | nil branch => simp at split
  | @cons branch e es inner below more allowed inside others ihInside ihOthers =>
      have further := others.level_head_append stops
      obtain ⟨rfl, rfl, rfl⟩ | ⟨early, late, rfl, within, rfl⟩ | ⟨early, rfl, beside⟩ :=
        cons_append_eq split
      · rw [List.getLast?_concat, Option.some_inj, TraceLine.isLast, level_top, List.append_assoc]
        have deeper := inside.deeper
        rw [List.length_append, List.length_singleton] at deeper
        rw [List.takeWhile_append_of_pos fun d hd =>
          decide_eq_true (Nat.le_of_lt (deeper d hd).1), List.all_append]
        have none : below.all (fun d => d.level != branch.length + 2) = true :=
          List.all_eq_true.2 fun d hd => bne_iff_ne.2 (Nat.ne_of_gt (deeper d hd).1)
        rw [none, Bool.true_and]
        cases others with
        | nil =>
            -- What comes next is no deeper than the parent, so the run ends here.
            have run : ([] ++ rest).takeWhile
                (fun d : TraceLine => branch.length + 2 ≤ d.level) = [] :=
              takeWhile_append_of_stops nofun fun d hd =>
                decide_eq_false (Nat.not_le.2 (Nat.lt_succ_of_le (stops d hd)))
            rw [run]
            rfl
        | cons allowed inside others =>
            rw [List.cons_append, List.takeWhile_cons_of_pos (by simp [level_top]), List.all_cons,
              level_top]
            simp
      · rw [List.append_assoc]
        refine ihInside ?_ within
        rwa [List.length_append, List.length_singleton]
      · exact ihOthers stops beside

/-- Above an entry there is one at each level, and its branch is the beginning of the branch of the
entry. -/
theorem exists_ancestor (h : Outlined P branch entries lines)
    (split : lines = before ++ l :: behind) {m : Nat} (low : branch.length + 2 ≤ m)
    (high : m < l.level) :
    ∃ early ancestor between, before = early ++ ancestor :: between ∧ ancestor.level = m ∧
      (∀ d ∈ between, m < d.level) ∧ ancestor.branch <+: l.branch := by
  induction h generalizing before l behind m with
  | nil branch => simp at split
  | @cons branch e es inner below more allowed inside others ihInside ihOthers =>
      obtain ⟨rfl, rfl, rfl⟩ | ⟨early, late, rfl, within, rfl⟩ | ⟨early, rfl, beside⟩ :=
        cons_append_eq split
      · rw [level_top] at high
        omega
      · have deeper := inside.deeper
        rw [List.length_append, List.length_singleton] at deeper
        obtain rfl | above := Nat.eq_or_lt_of_le low
        · refine ⟨[], _, early, rfl, level_top, fun d hd => ?_, ?_⟩
          · exact (deeper d (within ▸ List.mem_append_left _ hd)).1
          · exact (deeper l (within ▸ List.mem_append_right _ List.mem_cons_self)).2
        · obtain ⟨first, ancestor, between, rfl, found⟩ :=
            ihInside within (by rw [List.length_append, List.length_singleton]; omega) high
          exact ⟨_ :: first, ancestor, between, rfl, found⟩
      · obtain ⟨first, ancestor, between, rfl, found⟩ := ihOthers beside low high
        refine ⟨⟨branch ++ [es.isEmpty], e⟩ :: (below ++ first), ancestor, between, ?_, found⟩
        rw [List.cons_append, List.append_assoc]

end Outlined

end Rollforward.Statement
