import Rollforward.Decimal.Text
import Rollforward.Snapshot.Basic
import Rollforward.Statement.Basic

/-!
# `Rollforward.Statement.Trace`: how a value came about

A trace shows the tree of what an item reads within its period, with the value and the formula of
each item. An item that was shown before is not shown again in full; its entry names the level where
it was.
-/

set_option autoImplicit false

namespace Rollforward.Statement

open Formula (Expr Reference)

/-- What a formula reads: an item within the period, or anything else. -/
inductive Child where
  | item (code : String)
  | leaf (r : Reference)
  deriving Repr, DecidableEq

/-- An entry of a trace. -/
inductive Entry where
  /-- An item at its level. -/
  | full (code : String) (level : Nat)
  /-- An item that is shown in full at a level. -/
  | again (code : String) (level : Nat)
  | leaf (r : Reference)
  deriving Repr, DecidableEq

/-- An entry and its place in the tree: for the entry and each one above it but the topmost, from
the top down, whether it is the last child. -/
structure TraceLine where
  branch : List Bool
  entry : Entry
  deriving Repr, DecidableEq

/-- The child that a reference makes. -/
def childOf (s : Statement) (r : Reference) : Child :=
  if r.isUnqualified ∧ r.offset = 0 ∧ s.contains r.code then .item r.code else .leaf r

/-- The children of an item, each once, in the order in which its formula reads them. -/
def children (s : Statement) (code : String) : List Child :=
  match (s.item? code).bind Item.formula with
  | some f => (f.expr.references.map (childOf s)).eraseDups
  | none => []

/-- The items that are not yet shown. -/
def unseen (s : Statement) (seen : List (String × Nat)) : List Item :=
  s.items.filter fun i => seen.all fun (code, _) => code != i.code

/-- What walking over a part of the tree answers: its lines, and the items shown by then with their
levels. -/
abbrev Walked (s : Statement) (seen : List (String × Nat)) :=
  { r : List TraceLine × List (String × Nat) //
    (unseen s r.2).length ≤ (unseen s seen).length }

/-- Showing an item of the statement for the first time leaves fewer to be shown. -/
theorem length_unseen_cons_lt {s : Statement} {seen : List (String × Nat)} {code : String}
    (level : Nat) (known : s.contains code = true) (fresh : seen.lookup code = none) :
    (unseen s ((code, level) :: seen)).length < (unseen s seen).length := by
  obtain ⟨i, hi, hcode⟩ := List.any_eq_true.1 known
  have hcode := eq_of_beq hcode
  -- The item is among those not yet shown, and no longer so afterwards.
  have outside : ∀ e ∈ seen, e.1 ≠ code := by
    intro e he eq
    have := List.lookup_eq_none_iff.1 fresh e he
    simp [eq] at this
  have into : i ∈ unseen s seen := by
    unfold unseen
    refine List.mem_filter.2 ⟨hi, List.all_eq_true.2 fun e he => ?_⟩
    simpa [hcode] using outside e he
  have split : unseen s ((code, level) :: seen)
      = (unseen s seen).filter fun j => code != j.code := by
    unfold unseen
    rw [List.filter_filter]
    rfl
  rw [split]
  refine Nat.lt_of_le_of_ne (List.length_filter_le _ _) fun eq => ?_
  have := List.length_filter_eq_length_iff.1 eq i into
  simp [hcode] at this

mutual

/-- Walks over the tree below an item. -/
def walkItem (s : Statement) (seen : List (String × Nat)) (branch : List Bool) (level : Nat)
    (code : String) : Walked s seen :=
  match _first : seen.lookup code with
  | some shown => ⟨([⟨branch, .again code shown⟩], seen), Nat.le_refl _⟩
  | none =>
    -- The item counts as shown before its children are, so a child never shows it again.
    if _known : s.contains code = true then
      have fewer := length_unseen_cons_lt level _known _first
      let ⟨(lines, after), le⟩ :=
        walkChildren s ((code, level) :: seen) branch level (children s code)
      ⟨(⟨branch, .full code level⟩ :: lines, after), by simp only at le ⊢; omega⟩
    else ⟨([], seen), Nat.le_refl _⟩
termination_by ((unseen s seen).length, 0)

/-- Walks over the trees below the children of an item. -/
def walkChildren (s : Statement) (seen : List (String × Nat)) (branch : List Bool) (level : Nat) :
    List Child → Walked s seen
  | [] => ⟨([], seen), Nat.le_refl _⟩
  | .item code :: rest =>
    let ⟨(lines, after), le⟩ := walkItem s seen (branch ++ [rest.isEmpty]) (level + 1) code
    let ⟨(more, final), le'⟩ := walkChildren s after branch level rest
    ⟨(lines ++ more, final), by simp only at le le' ⊢; omega⟩
  | .leaf r :: rest =>
    let ⟨(more, final), le⟩ := walkChildren s seen branch level rest
    ⟨(⟨branch ++ [rest.isEmpty], .leaf r⟩ :: more, final), by simp only at le ⊢; omega⟩
termination_by cs => ((unseen s seen).length, cs.length + 1)
decreasing_by
  · exact Prod.Lex.right _ (by simp)
  · rcases Nat.lt_or_eq_of_le le with h | h
    · exact Prod.Lex.left _ _ h
    · simp only at h
      rw [h]
      exact Prod.Lex.right _ (by simp)
  · exact Prod.Lex.right _ (by simp)

end

/-- The lines of the trace of an item. -/
def trace (s : Statement) (code : String) : List TraceLine := (walkItem s [] [] 1 code).1.1

/-- What stands before an entry: for each entry above it a bar, or blanks below a last child, and
its own branch. -/
def branchText : List Bool → String
  | [] => ""
  | [last] => if last then "`--" else "|--"
  | last :: rest => (if last then "   " else "|  ") ++ branchText rest

/-- What kind of leaf a reference is. -/
def leafText (r : Reference) : String :=
  match r.source with
  | some .rawInput => "raw input"
  | some (.domain _) => "peer domain"
  | none =>
    if r.offset < 0 then "prior period" else if 0 < r.offset then "lookahead" else "external"

/-- How many decimal places of a value are shown. -/
def shownPlaces : Nat := 3

/-- The value of an item, as a trace shows it. -/
def valueText (values : Snapshot) (code : String) : String :=
  match values.get? code with
  | some x => "[" ++ Decimal.fixed shownPlaces x ++ "]"
  | none => "[?]"

/-- Where the value of an item comes from, as a trace shows it. -/
def originText (s : Statement) (code : String) : String :=
  match s.item? code with
  | none => ""
  | some i =>
    match i.formula with
    | some f => " = " ++ f.text
    | none => " -> Input(" ++ Text.trim (i.declared.rawReference.getD code) ++ ")"

/-- An entry in words. -/
def entryText (s : Statement) (values : Snapshot) : Entry → String
  | .full code level =>
    "[L" ++ toString level ++ "] " ++ code ++ valueText values code ++ originText s code
  | .again code level => code ++ " -> (Ref to L" ++ toString level ++ ")"
  | .leaf r => r.text ++ " (" ++ leafText r ++ ")"

/-- The trace of an item in words. -/
def traceText (s : Statement) (values : Snapshot) (code : String) : String :=
  if s.contains code then
    "AUDIT TRACE for '" ++ code ++ "':\n" ++ String.ofList (List.replicate 50 '-') ++ "\n"
      ++ String.join ((trace s code).map fun l =>
        branchText l.branch ++ entryText s values l.entry ++ "\n")
  else "Error: unknown line item '" ++ code ++ "'\n"

end Rollforward.Statement
