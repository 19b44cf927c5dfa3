import Rollforward.Proofs.Statement.Edges
import Rollforward.Proofs.Statement.Shown
import Rollforward.Proofs.Statement.Stem

/-!
# `Rollforward.Proofs.Statement.Trace`: a trace shows what can be reached, once

The trace of an item shows in full the items that can be reached from it by references in the period
at hand (`Template.ReadsNow`), and each of them once. An entry that shows an item has one below it
for each reference of its formula (`Accounts`), and what is named again was shown in full earlier.
The prefix of an entry says how the entries hang together: what it has for the entry itself and for
those above it is decided by which of them are last children (`Prefixed`).

All of this is in `trace_shows_reachable`. What the walk shows comes from `Walk.closed` and
`Walk.reaches`, how its lines hang together from the lemmas on `Outlined`, and here the children of
an item are read as references of its formula (`children_of_parsed`). No two references make the
same child, so the children are the references without repetitions (`childOf_injective`).
-/

set_option autoImplicit false

namespace Rollforward

open Formula (Reference)

/-- The formula of the item `a` refers to the item `b` in the period at hand and without a
namespace. -/
def Template.ReadsNow (t : Template) (a b : String) : Prop :=
  b ∈ t.codes ∧ ∃ line ∈ t.items, Text.trim line.code = a ∧ line.RefersTo b 0

namespace Statement

variable {t : Template} {s : Statement} {line : LineItem} {a b code text : String}
  {e : Formula.Expr} {r : Reference}

/-! ### Children -/

/-- Only an unqualified reference in the present to a code of the template is an item of the trace.
-/
theorem childOf_eq_item_iff :
    childOf s r = .item code ↔ r = ⟨none, code, 0⟩ ∧ code ∈ s.codes := by
  unfold childOf
  constructor
  · intro made
    split at made
    · next item =>
      obtain ⟨bare, now, known⟩ := item
      rw [Reference.isUnqualified, Option.isNone_iff_eq_none] at bare
      obtain rfl : r.code = code := Child.item.inj made
      exact ⟨by rw [← bare, ← now], contains_iff_mem_codes.1 known⟩
    · cases made
  · rintro ⟨rfl, known⟩
    exact if_pos ⟨rfl, rfl, contains_iff_mem_codes.2 known⟩

/-- A reference that makes a leaf makes it of itself. -/
theorem eq_of_childOf_eq_leaf {r' : Reference} (made : childOf s r = .leaf r') : r = r' := by
  unfold childOf at made
  split at made
  · cases made
  · exact Child.leaf.inj made

/-- No two references make the same child, so no child stands for two of them. -/
theorem childOf_injective (s : Statement) : Function.Injective (childOf s) := by
  intro r r' same
  cases made : childOf s r with
  | item code =>
      obtain ⟨rfl, -⟩ := childOf_eq_item_iff.1 made
      exact (childOf_eq_item_iff.1 (same.symm.trans made)).1.symm
  | leaf other =>
      obtain rfl := eq_of_childOf_eq_leaf made
      exact (eq_of_childOf_eq_leaf (same.symm.trans made)).symm

/-- Every line of the template has its item. -/
theorem exists_item?_of_line (compiled : compile t = .ok s) (hline : line ∈ t.items) :
    ∃ i, s.item? (Text.trim line.code) = some i ∧ i.IsOf line := by
  obtain ⟨i, hi, isOf⟩ := exists_item_of_line (readItems_eq_ok (compile_eq_ok compiled).1).1 hline
  have nodup := (isCompiled_of_compile compiled).codes_nodup
  exact ⟨i, (item?_eq_some_iff nodup).2 ⟨hi, isOf.code⟩, isOf⟩

/-- The children of an item with a formula are its references, each where it first occurs. -/
theorem children_of_parsed (compiled : compile t = .ok s) (hline : line ∈ t.items)
    (active : line.activeFormula? = some text) (parsed : Formula.parse text = .ok e) :
    children s (Text.trim line.code) = e.references.eraseDups.map (childOf s) := by
  obtain ⟨i, found, isOf⟩ := exists_item?_of_line compiled hline
  obtain ⟨f, hf, rfl⟩ := Option.map_eq_some_iff.1 (isOf.text.trans active)
  obtain rfl : f.expr = e := Except.ok.inj ((isOf.parsed f hf).1.symm.trans parsed)
  rw [children, found, Option.bind_some, hf]
  exact Collection.eraseDups_map (childOf_injective s) f.expr.references

/-- An item without a formula has no children. -/
theorem children_of_input (compiled : compile t = .ok s) (hline : line ∈ t.items)
    (inactive : line.activeFormula? = none) : children s (Text.trim line.code) = [] := by
  obtain ⟨i, found, isOf⟩ := exists_item?_of_line compiled hline
  rw [children, found, Option.bind_some, isOf.formula_eq_none_iff.2 inactive]

/-- What an item reads in the period at hand is what its line refers to without an offset. -/
theorem readsNow_iff (compiled : compile t = .ok s) : s.ReadsNow a b ↔ t.ReadsNow a b := by
  have codes : s.codes = t.codes := codes_of_compile compiled
  constructor
  · intro reads
    cases found : s.item? a with
    | none => simp [ReadsNow, children, found] at reads
    | some i =>
        obtain ⟨hi, rfl⟩ := (item?_eq_some_iff (isCompiled_of_compile compiled).codes_nodup).1 found
        obtain ⟨line, hline, isOf⟩ := (mem_items_of_compile compiled).1 hi
        rw [ReadsNow, isOf.code] at reads
        cases active : line.activeFormula? with
        | none =>
            rw [children_of_input compiled hline active] at reads
            exact absurd reads List.not_mem_nil
        | some text =>
            have sound := (wellFormed_of_compile compiled).lines
            obtain ⟨e, parsed⟩ := sound.parsed line hline text active
            rw [children_of_parsed compiled hline active parsed] at reads
            obtain ⟨r, hr, made⟩ := List.mem_map.1 reads
            obtain ⟨rfl, known⟩ := childOf_eq_item_iff.1 made
            exact ⟨codes ▸ known, line, hline, isOf.code.symm, text, e, active, parsed,
              List.mem_eraseDups.1 hr⟩
  · rintro ⟨known, line, hline, rfl, text, e, active, parsed, hr⟩
    rw [ReadsNow, children_of_parsed compiled hline active parsed]
    refine List.mem_map.2 ⟨_, List.mem_eraseDups.2 hr, childOf_eq_item_iff.2 ⟨rfl, ?_⟩⟩
    rwa [codes]

/-! ### What stands below an entry -/

/-- The entry at a level that stands for a reference of a formula. -/
inductive StandsFor (t : Template) (level : Nat) : Reference → Entry → Prop where
  | full {code : String} (known : code ∈ t.codes) :
    StandsFor t level ⟨none, code, 0⟩ (.full code level)
  | again {code : String} (known : code ∈ t.codes) (shown : Nat) :
    StandsFor t level ⟨none, code, 0⟩ (.again code shown)
  | leaf {r : Reference} (other : ¬(r.source = none ∧ r.offset = 0 ∧ r.code ∈ t.codes)) :
    StandsFor t level r (.leaf r)

/-- What stands directly below an entry at a level. An entry that shows an item is of that level and
has one below it for each reference of the formula, in the order in which they first occur. Any
other entry has nothing below it. -/
inductive Accounts (t : Template) (level : Nat) : Entry → List Entry → Prop where
  | leaf (r : Reference) : Accounts t level (.leaf r) []
  | again (code : String) (shown : Nat) : Accounts t level (.again code shown) []
  | input {line : LineItem} (hline : line ∈ t.items) (inactive : line.activeFormula? = none) :
    Accounts t level (.full (Text.trim line.code) level) []
  | computed {line : LineItem} {text : String} {e : Formula.Expr} {inner : List Entry}
    (hline : line ∈ t.items) (active : line.activeFormula? = some text)
    (parsed : Formula.parse text = .ok e)
    (each : List.Forall₂ (StandsFor t (level + 1)) e.references.eraseDups inner) :
    Accounts t level (.full (Text.trim line.code) level) inner

/-- What an entry shows for a child is what it has to stand for. -/
theorem standsFor_of_shownAs (compiled : compile t = .ok s) {level : Nat} {entry : Entry}
    (h : ShownAs level (childOf s r) entry) : StandsFor t level r entry := by
  have codes : s.codes = t.codes := codes_of_compile compiled
  cases made : childOf s r with
  | item code =>
      obtain ⟨rfl, known⟩ := childOf_eq_item_iff.1 made
      rw [codes] at known
      rw [made] at h
      cases h with
      | again => exact .again known _
      | full => exact .full known
  | leaf other =>
      rw [made] at h
      cases h
      obtain rfl := eq_of_childOf_eq_leaf made
      refine .leaf fun ⟨bare, now, known⟩ => ?_
      have item : childOf s r = .item r.code :=
        childOf_eq_item_iff.2 ⟨by rw [← bare, ← now], codes ▸ known⟩
      cases made.symm.trans item

/-- The children of an entry are the references of the formula of its item. -/
theorem accounts_of_expanded (compiled : compile t = .ok s) {level : Nat} {entry : Entry}
    {inner : List Entry} (h : Expanded s level entry inner)
    (item : ∀ code k, entry = .full code k → code ∈ t.codes) : Accounts t level entry inner := by
  cases h with
  | leaf r => exact .leaf r
  | again code shown => exact .again code shown
  | full code each =>
      obtain ⟨line, hline, rfl⟩ := List.mem_map.1 (item _ _ rfl)
      cases active : line.activeFormula? with
      | none =>
          rw [children_of_input compiled hline active, List.forall₂_nil_left_iff] at each
          rw [each]
          exact .input hline active
      | some text =>
          obtain ⟨e, parsed⟩ := (wellFormed_of_compile compiled).lines.parsed line hline text active
          rw [children_of_parsed compiled hline active parsed, List.forall₂_map_left_iff] at each
          exact .computed hline active parsed
            (each.imp fun r entry => standsFor_of_shownAs compiled)

/-! ### Prefixes -/

/-- How the prefix of an entry follows from where it stands. There are three characters for each
level but the first. Those for the entry itself say whether it is the last child of its parent. The
entry of a level above is the one with nothing but deeper entries between the two; the characters
for that level say whether it is a last child. The prefix is the one of the parent with the
connector there replaced, and a connector of its own. -/
structure Prefixed (before : List TraceLine) (l : TraceLine) (behind : List TraceLine) : Prop where
  width : (branchText l.branch).toList.length = 3 * (l.level - 1)
  own : 2 ≤ l.level → group (branchText l.branch) l.level = connector (l.isLast behind)
  above : ∀ m, 1 ≤ m → m < l.level → ∃ early a between, before = early ++ a :: between ∧
    a.level = m ∧ (∀ d ∈ between, m < d.level) ∧
    (2 ≤ m → group (branchText l.branch) m = stem (a.isLast (between ++ l :: behind))) ∧
    (m + 1 = l.level → (branchText l.branch).toList =
      childStem (branchText a.branch).toList ++ connector (l.isLast behind))

/-- The topmost entry has no prefix. -/
theorem prefixed_nil {entry : Entry} {before behind : List TraceLine} :
    Prefixed before ⟨[], entry⟩ behind where
  width := rfl
  own := nofun
  above m low high := by
    rw [TraceLine.level, List.length_nil] at high
    omega

/-- An entry further up stands in the prefix as a stem. -/
theorem group_branchText_of_continues {a l : TraceLine} {up : List Bool} {flag : Bool}
    (higher : a.branch = up ++ [flag]) (continues : a.branch <+: l.branch)
    (further : a.level < l.level) : group (branchText l.branch) a.level = stem flag := by
  obtain ⟨more, whole⟩ := continues
  have place : a.level = up.length + 2 := by
    rw [TraceLine.level, higher, List.length_append, List.length_singleton]
  obtain rfl | ⟨late, last, rfl⟩ := List.eq_nil_or_concat more
  · -- The branch of the entry would be that of the one above it.
    rw [List.append_nil] at whole
    rw [TraceLine.level, whole, TraceLine.level] at further
    exact absurd further (Nat.lt_irrefl _)
  · have branch : l.branch = up ++ flag :: (late ++ [last]) := by
      rw [← whole, higher, List.concat_eq_append, List.append_assoc, List.singleton_append]
    rw [branch, place, group_branchText]

/-- The parent stands in the prefix with its own, but for the connector. -/
theorem branchText_of_continues {a l : TraceLine} {up : List Bool} {flag : Bool}
    (own : l.branch = up ++ [flag]) (continues : a.branch <+: l.branch)
    (parent : a.level + 1 = l.level) :
    (branchText l.branch).toList = childStem (branchText a.branch).toList ++ connector flag := by
  obtain ⟨more, whole⟩ := continues
  rw [own] at whole
  have size : a.branch.length = up.length := by
    rw [TraceLine.level, TraceLine.level, own, List.length_append, List.length_singleton] at parent
    omega
  rw [own, (List.append_inj whole size).1, branchText_concat_eq_childStem]

/-- A tree of entries has the prefixes of its lines. The topmost entry has no prefix and is put in
front. -/
theorem Outlined.prefixed {P : Nat → Entry → List Entry → Prop} {entries : List Entry}
    {lines before behind : List TraceLine} {l : TraceLine} {topmost : Entry}
    (h : Outlined P [] entries lines) (split : lines = before ++ l :: behind) :
    Prefixed (⟨[], topmost⟩ :: before) l behind := by
  -- The last flag of a line says whether it is the last of its siblings.
  have flag {before behind : List TraceLine} {d : TraceLine}
      (split : lines = before ++ d :: behind) : ∃ up, d.branch = up ++ [d.isLast behind] := by
    have last := h.getLast?_branch Outlined.stops_nil split
    rwa [List.append_nil, List.getLast?_eq_some_iff] at last
  obtain ⟨up, own⟩ := flag split
  constructor
  case width => exact length_branchText l.branch
  case own =>
    intro _
    rw [TraceLine.level, own, List.length_append, List.length_singleton, group_branchText_last]
  case above =>
    intro m low high
    obtain rfl | low := Nat.eq_or_lt_of_le low
    · have continues : TraceLine.branch ⟨[], topmost⟩ <+: l.branch := List.nil_prefix
      refine ⟨[], ⟨[], topmost⟩, before, rfl, rfl, fun d hd => ?_, fun further => ?_,
        branchText_of_continues own continues⟩
      · exact (h.deeper d (split ▸ List.mem_append_left _ hd)).1
      · exact absurd further (by decide)
    · obtain ⟨early, a, between, rfl, rfl, deeper, continues⟩ := h.exists_ancestor split low high
      rw [List.append_assoc, List.cons_append] at split
      obtain ⟨higher, theirs⟩ := flag split
      exact ⟨⟨[], topmost⟩ :: early, a, between, rfl, rfl, deeper,
        fun _ => group_branchText_of_continues theirs continues high,
        branchText_of_continues own continues⟩

/-! ### Traces -/

/-- The items shown in a trace are those that can be reached, each once. -/
theorem shownIn_trace (compiled : compile t = .ok s) (known : code ∈ t.codes) :
    ((shownIn (s.trace code)).map Prod.fst).Nodup ∧
      ∀ other, other ∈ (shownIn (s.trace code)).map Prod.fst ↔
        Relation.ReflTransGen t.ReadsNow code other := by
  have codes : s.codes = t.codes := codes_of_compile compiled
  have reads : s.ReadsNow = t.ReadsNow := by
    funext a b
    exact propext (readsNow_iff compiled)
  obtain ⟨below, after, lines, walk⟩ :=
    exists_walk_trace (contains_iff_mem_codes.2 (codes ▸ known))
  rw [lines, shownIn_cons_full, List.map_cons, ← reads]
  have shown : (after.map Prod.fst).Perm (code :: (shownIn below).map Prod.fst) := by
    rw [walk.after_eq, List.map_append, List.map_reverse]
    exact (List.perm_append_singleton _ _).trans ((List.reverse_perm _).cons code)
  refine ⟨shown.nodup_iff.1 (walk.nodup (List.nodup_singleton code)), fun other => ⟨?_, ?_⟩⟩
  · intro inside
    obtain rfl | inside := List.mem_cons.1 inside
    · exact .refl
    · obtain ⟨d, hd, path⟩ := walk.reaches other inside
      exact .head hd path
  · intro path
    -- Along the way each item is shown, the first by the entry at the top, the next with the one
    -- that reads it.
    induction path with
    | refl => exact List.mem_cons_self
    | @tail a b path step ih =>
        rw [← shown.mem_iff]
        obtain rfl | inside := List.mem_cons.1 ih
        · exact walk.closed.1 b step
        · exact walk.closed.2 a inside b step

end Statement

end Rollforward
