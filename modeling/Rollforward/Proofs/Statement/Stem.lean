import Rollforward.Statement.Trace

/-!
# `Rollforward.Proofs.Statement.Stem`: what stands before an entry

In front of an entry there are three characters for each entry above it but the topmost, and three
for the entry itself. `branchText_concat` says which, and `group_branchText` and
`group_branchText_last` find them by their level.

The text can also be made from the one in front of the parent, by putting blanks where that has a
connector and adding a connector of its own (`childStem`). The replacements look for a connector
anywhere in the text. They find none but the last: in front of it there are only blanks and bars
with blanks behind them (`branchText_concat_eq_childStem`).
-/

set_option autoImplicit false

namespace Rollforward.Statement

/-! ### Groups of three characters -/

/-- What stands in a prefix for an entry further up. -/
def stem (last : Bool) : List Char := if last then [' ', ' ', ' '] else ['|', ' ', ' ']

/-- What stands right in front of an entry. -/
def connector (last : Bool) : List Char := if last then ['`', '-', '-'] else ['|', '-', '-']

/-- The three characters of a prefix for the entry at a level. For the topmost there are none. -/
def group (text : String) (level : Nat) : List Char := (text.toList.drop (3 * (level - 2))).take 3

variable {branch early late : List Bool} {last flag : Bool}

/-- Three characters for each entry above. -/
@[simp]
theorem length_stem (last : Bool) : (stem last).length = 3 := by cases last <;> rfl

/-- Three for the entry itself. -/
@[simp]
theorem length_connector (last : Bool) : (connector last).length = 3 := by cases last <;> rfl

/-- So the level of an entry is where its connector begins, three characters at a time. -/
theorem length_flatMap_stem (branch : List Bool) :
    (branch.flatMap stem).length = 3 * branch.length := by
  induction branch with
  | nil => rfl
  | cons last branch ih =>
      rw [List.flatMap_cons, List.length_append, length_stem, ih, List.length_cons]
      omega

/-- A prefix has a stem for each entry further up, and the connector of the entry. -/
theorem branchText_concat (branch : List Bool) (last : Bool) :
    (branchText (branch ++ [last])).toList = branch.flatMap stem ++ connector last := by
  induction branch with
  | nil => cases last <;> rfl
  | cons flag branch ih =>
      have more : branch ++ [last] ≠ [] :=
        List.append_ne_nil_of_right_ne_nil _ (List.cons_ne_nil _ _)
      rw [List.cons_append, branchText, String.toList_append, ih, List.flatMap_cons,
        List.append_assoc]
      · cases flag <;> rfl
      · exact more

example : branchText [false, true, false] = "|     |--" := by decide

/-- A prefix has three characters for each entry of the branch. -/
theorem length_branchText (branch : List Bool) :
    (branchText branch).toList.length = 3 * branch.length := by
  obtain rfl | ⟨above, last, rfl⟩ := List.eq_nil_or_concat branch
  · rfl
  · rw [List.concat_eq_append, branchText_concat, List.length_append, length_flatMap_stem,
      length_connector, List.length_append, List.length_singleton]
    omega

/-- The last three characters of a prefix are a connector. -/
theorem group_branchText_last (branch : List Bool) (last : Bool) :
    group (branchText (branch ++ [last])) (branch.length + 2) = connector last := by
  rw [group, branchText_concat, Nat.add_sub_cancel, ← length_flatMap_stem, List.drop_left,
    ← length_connector last, List.take_length]

/-- The characters in front of them are stems. -/
theorem group_branchText (early late : List Bool) (flag last : Bool) :
    group (branchText (early ++ flag :: (late ++ [last]))) (early.length + 2) = stem flag := by
  have split : early ++ flag :: (late ++ [last]) = (early ++ flag :: late) ++ [last] := by simp
  rw [group, split, branchText_concat, List.flatMap_append, List.flatMap_cons, Nat.add_sub_cancel,
    ← length_flatMap_stem, List.append_assoc, List.drop_left, List.append_assoc,
    ← length_stem flag, List.take_left]

/-! ### Prefixes by replacement -/

/-- The text with each occurrence of `old`, read from the left, replaced by `new`. -/
def replaced (old new : List Char) : List Char → List Char
  | [] => []
  | c :: cs =>
    if old.isPrefixOf (c :: cs) then new ++ replaced old new (cs.drop (old.length - 1))
    else c :: replaced old new cs
termination_by text => text.length
decreasing_by
  · rw [List.length_drop, List.length_cons]
    omega
  · exact Nat.lt_succ_self _

/-- What a prefix becomes in front of the entries below: blanks instead of its connector. -/
def childStem (text : List Char) : List Char :=
  replaced (connector false) (stem false) (replaced (connector true) (stem true) text)

/-- Looking for a connector never succeeds inside the three characters of an entry above. -/
theorem replaced_connector_stem (which : Bool) (flag : Bool) (text : List Char) :
    replaced (connector which) (stem which) (stem flag ++ text) =
      stem flag ++ replaced (connector which) (stem which) text := by
  cases which <;> cases flag <;> simp [stem, connector, replaced]

/-- Hence the search passes over all entries above and comes to the connector of the entry itself.
-/
theorem replaced_connector_flatMap_stem (which : Bool) (branch : List Bool) (text : List Char) :
    replaced (connector which) (stem which) (branch.flatMap stem ++ text) =
      branch.flatMap stem ++ replaced (connector which) (stem which) text := by
  induction branch with
  | nil => rfl
  | cons flag branch ih =>
      rw [List.flatMap_cons, List.append_assoc, replaced_connector_stem, ih, List.append_assoc]

/-- The replacements touch the connector of a prefix and nothing else. -/
theorem childStem_branchText (branch : List Bool) :
    childStem (branchText branch).toList = branch.flatMap stem := by
  obtain rfl | ⟨above, last, rfl⟩ := List.eq_nil_or_concat branch
  · simp [branchText, childStem, replaced]
  · have own : replaced (connector false) (stem false)
        (replaced (connector true) (stem true) (connector last)) = stem last := by
      cases last <;> simp [stem, connector, replaced]
    rw [List.concat_eq_append, branchText_concat, childStem, replaced_connector_flatMap_stem,
      replaced_connector_flatMap_stem, own, List.flatMap_append, List.flatMap_singleton]

/-- The prefix of an entry is that of its parent with the connector replaced, and a connector of its
own. -/
theorem branchText_concat_eq_childStem (branch : List Bool) (last : Bool) :
    (branchText (branch ++ [last])).toList =
      childStem (branchText branch).toList ++ connector last := by
  rw [branchText_concat, childStem_branchText]

end Rollforward.Statement
