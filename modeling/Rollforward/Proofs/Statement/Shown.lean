import Mathlib.Logic.Relation
import Rollforward.Proofs.Statement.Outline
import Rollforward.Proofs.Statement.Walk

/-!
# `Rollforward.Proofs.Statement.Shown`: which items a trace shows

A walk shows an item in full where it first comes to it, and names the level of that entry wherever
it comes to the item again. The items shown by the end of a walk are those shown before and those
its lines show (`Walk.after_eq`). From this it follows, by induction over the walk, that no item is
shown twice (`Walk.nodup`), that what is named again was shown earlier
(`Walk.mem_shownIn_of_again`), and that the items shown are those that can be reached: what is shown
is reached (`Walk.reaches`), and with an item its children are shown, be it before or within the
walk (`Walk.closed`).

`Walk.exists_outlined` puts the lines together as a tree, in which the children of an entry are
those of the item it shows.
-/

set_option autoImplicit false

namespace Rollforward.Statement

/-! ### Entries in full -/

/-- The item that an entry shows in full, with its level. -/
def Entry.full? : Entry → Option (String × Nat)
  | .full code level => some (code, level)
  | .again _ _ => none
  | .leaf _ => none

/-- The items that lines show in full, with their levels. -/
def shownIn (lines : List TraceLine) : List (String × Nat) :=
  lines.filterMap fun l => l.entry.full?

section

variable {branch : List Bool} {code : String} {level : Nat} {lines more : List TraceLine}

/-- An entry in full shows its item. -/
@[simp]
theorem shownIn_cons_full :
    shownIn (⟨branch, .full code level⟩ :: lines) = (code, level) :: shownIn lines := rfl

/-- An entry that points back shows nothing. -/
@[simp]
theorem shownIn_cons_again :
    shownIn (⟨branch, .again code level⟩ :: lines) = shownIn lines := rfl

/-- A leaf is no item. -/
@[simp]
theorem shownIn_cons_leaf {r : Formula.Reference} :
    shownIn (⟨branch, .leaf r⟩ :: lines) = shownIn lines := rfl

/-- Lines show what their parts show. -/
@[simp]
theorem shownIn_append : shownIn (lines ++ more) = shownIn lines ++ shownIn more :=
  List.filterMap_append

/-- What is shown has a line. -/
theorem mem_shownIn :
    (code, level) ∈ shownIn lines ↔ ∃ l ∈ lines, l.entry = .full code level := by
  rw [shownIn, List.mem_filterMap]
  refine exists_congr fun l => and_congr_right fun _ => ?_
  cases l.entry with
  | full c k => simp [Entry.full?]
  | again c k => simp [Entry.full?]
  | leaf r => simp [Entry.full?]

end

/-- An item that a list of items with their levels does not know is not among them. -/
theorem not_mem_of_lookup_eq_none {seen : List (String × Nat)} {code : String}
    (fresh : seen.lookup code = none) : code ∉ seen.map Prod.fst := by
  intro known
  obtain ⟨e, he, rfl⟩ := List.mem_map.1 known
  exact absurd (List.lookup_eq_none_iff.1 fresh e he) (by simp)

/-- A level that is looked up is one that was put down. -/
theorem mem_of_lookup_eq_some {seen : List (String × Nat)} {code : String} {level : Nat}
    (known : seen.lookup code = some level) : (code, level) ∈ seen := by
  obtain ⟨before, after, rfl, -⟩ := List.lookup_eq_some_iff.1 known
  exact List.mem_append_right _ List.mem_cons_self

/-! ### What a walk shows -/

variable {s : Statement} {seen after : List (String × Nat)} {branch : List Bool} {cs : List Child}
  {lines : List TraceLine}

/-- The formula of the item `a` reads the item `b` in the period at hand. -/
def ReadsNow (s : Statement) (a b : String) : Prop := .item b ∈ children s a

namespace Walk

/-- By the end of a walk those items are shown that were before, and those of its lines. -/
theorem after_eq (h : Walk s seen branch cs lines after) :
    after = (shownIn lines).reverse ++ seen := by
  induction h with
  | done seen branch => rfl
  | leaf others ih => simpa using ih
  | again known others ih => simpa using ih
  | first fresh inside others ihInside ihOthers => simp [ihOthers, ihInside]

/-- What is shown by the end of a walk was shown before it or by its lines. The walk puts it in the
order of the lines turned around, which is of no interest here. -/
theorem mem_after_iff (h : Walk s seen branch cs lines after) {e : String × Nat} :
    e ∈ after ↔ e ∈ shownIn lines ∨ e ∈ seen := by
  rw [h.after_eq, List.mem_append, List.mem_reverse]

/-- What is shown stays shown. -/
theorem mem_codes_after (h : Walk s seen branch cs lines after) {code : String}
    (known : code ∈ seen.map Prod.fst) : code ∈ after.map Prod.fst := by
  rw [h.after_eq, List.map_append]
  exact List.mem_append_right _ known

/-- No item is shown twice. -/
theorem nodup (h : Walk s seen branch cs lines after) (apart : (seen.map Prod.fst).Nodup) :
    (after.map Prod.fst).Nodup := by
  induction h with
  | done seen branch => exact apart
  | leaf others ih => exact ih apart
  | again known others ih => exact ih apart
  | first fresh inside others ihInside ihOthers =>
      exact ihOthers (ihInside (List.nodup_cons.2 ⟨not_mem_of_lookup_eq_none fresh, apart⟩))

/-- An item that is named again was shown in full before, at the level that is named. -/
theorem mem_shownIn_of_again (h : Walk s seen branch cs lines after)
    {before behind : List TraceLine} {l : TraceLine} (split : lines = before ++ l :: behind)
    {code : String} {shown : Nat} (again : l.entry = .again code shown) :
    (code, shown) ∈ shownIn before ∨ (code, shown) ∈ seen := by
  induction h generalizing before behind l with
  | done seen branch => simp at split
  | leaf others ih =>
      obtain ⟨rfl, same⟩ | ⟨early, rfl, beside⟩ := List.cons_eq_append_iff.1 split
      · cases same
        cases again
      · rw [shownIn_cons_leaf]
        exact ih beside again
  | again known others ih =>
      obtain ⟨rfl, same⟩ | ⟨early, rfl, beside⟩ := List.cons_eq_append_iff.1 split
      · cases same
        cases again
        exact .inr (mem_of_lookup_eq_some known)
      · rw [shownIn_cons_again]
        exact ih beside again
  | first fresh inside others ihInside ihOthers =>
      -- The line is the entry itself, one of those inside it, or one beside it.
      obtain ⟨rfl, rfl, rfl⟩ | ⟨early, late, rfl, within, rfl⟩ | ⟨early, rfl, beside⟩ :=
        Outlined.cons_append_eq split
      · cases again
      · have shown := ihInside within again
        rw [List.mem_cons] at shown
        rw [shownIn_cons_full, List.mem_cons]
        tauto
      · have shown := ihOthers beside again
        rw [inside.mem_after_iff, List.mem_cons] at shown
        rw [shownIn_cons_full, shownIn_append, List.mem_cons, List.mem_append]
        tauto

/-- What a walk shows is reached from the items among its children. -/
theorem reaches (h : Walk s seen branch cs lines after) :
    ∀ code ∈ (shownIn lines).map Prod.fst,
      ∃ d, .item d ∈ cs ∧ Relation.ReflTransGen s.ReadsNow d code := by
  induction h with
  | done seen branch => exact fun code hcode => absurd hcode List.not_mem_nil
  | leaf others ih =>
      intro code hcode
      obtain ⟨d, hd, path⟩ := ih code hcode
      exact ⟨d, List.mem_cons_of_mem _ hd, path⟩
  | again known others ih =>
      intro code hcode
      obtain ⟨d, hd, path⟩ := ih code hcode
      exact ⟨d, List.mem_cons_of_mem _ hd, path⟩
  | @first seen between after branch top rest below more fresh inside others ihInside ihOthers =>
      rw [shownIn_cons_full, shownIn_append, List.map_cons, List.map_append]
      refine List.forall_mem_cons.2 ⟨⟨top, List.mem_cons_self, .refl⟩,
        List.forall_mem_append.2 ⟨fun code hcode => ?_, fun code hcode => ?_⟩⟩
      · obtain ⟨d, hd, path⟩ := ihInside code hcode
        exact ⟨top, List.mem_cons_self, path.head hd⟩
      · obtain ⟨d, hd, path⟩ := ihOthers code hcode
        exact ⟨d, List.mem_cons_of_mem _ hd, path⟩

/-- By the end of a walk the items among its children are shown, and so are those that the items of
its lines read. -/
theorem closed (h : Walk s seen branch cs lines after) :
    (∀ d, .item d ∈ cs → d ∈ after.map Prod.fst) ∧
      ∀ code ∈ (shownIn lines).map Prod.fst, ∀ d, s.ReadsNow code d → d ∈ after.map Prod.fst := by
  induction h with
  | done seen branch =>
      exact ⟨fun d hd => absurd hd List.not_mem_nil,
        fun code hcode => absurd hcode List.not_mem_nil⟩
  | leaf others ih =>
      refine ⟨fun d hd => ih.1 d ?_, ih.2⟩
      exact (List.mem_cons.1 hd).resolve_left nofun
  | @again seen after branch code shown rest more known others ih =>
      refine ⟨fun d hd => ?_, ih.2⟩
      obtain same | hd := List.mem_cons.1 hd
      · obtain rfl : d = code := Child.item.inj same
        exact others.mem_codes_after (List.mem_map_of_mem (mem_of_lookup_eq_some known))
      · exact ih.1 d hd
  | @first seen between after branch top rest below more fresh inside others ihInside ihOthers =>
      constructor
      · intro d hd
        obtain same | hd := List.mem_cons.1 hd
        · obtain rfl : d = top := Child.item.inj same
          exact others.mem_codes_after (inside.mem_codes_after List.mem_cons_self)
        · exact ihOthers.1 d hd
      · rw [shownIn_cons_full, shownIn_append, List.map_cons, List.map_append]
        refine List.forall_mem_cons.2 ⟨fun d hd => others.mem_codes_after (ihInside.1 d hd),
          List.forall_mem_append.2 ⟨fun code hcode d hd => ?_, ihOthers.2⟩⟩
        exact others.mem_codes_after (ihInside.2 code hcode d hd)

end Walk

/-! ### The tree of a walk -/

/-- The entry that stands for a child at a level. -/
inductive ShownAs (level : Nat) : Child → Entry → Prop where
  | leaf (r : Formula.Reference) : ShownAs level (.leaf r) (.leaf r)
  | again (code : String) (shown : Nat) : ShownAs level (.item code) (.again code shown)
  | full (code : String) : ShownAs level (.item code) (.full code level)

/-- What stands directly below an entry at a level: the children of the item, where the entry shows
one in full, and nothing otherwise. -/
inductive Expanded (s : Statement) (level : Nat) : Entry → List Entry → Prop where
  | leaf (r : Formula.Reference) : Expanded s level (.leaf r) []
  | again (code : String) (shown : Nat) : Expanded s level (.again code shown) []
  | full (code : String) {inner : List Entry}
    (each : List.Forall₂ (ShownAs (level + 1)) (children s code) inner) :
    Expanded s level (.full code level) inner

/-- The lines of a walk are the trees of its children. -/
theorem Walk.exists_outlined (h : Walk s seen branch cs lines after) :
    ∃ entries, Outlined (Expanded s) branch entries lines ∧
      List.Forall₂ (ShownAs (branch.length + 2)) cs entries := by
  have sameEnd {level : Nat} {cs : List Child} {es : List Entry}
      (each : List.Forall₂ (ShownAs level) cs es) : cs.isEmpty = es.isEmpty := by
    cases each with
    | nil => rfl
    | cons => rfl
  induction h with
  | done seen branch => exact ⟨[], .nil branch, .nil⟩
  | @leaf seen after branch r rest more others ih =>
      obtain ⟨es, outlined, each⟩ := ih
      refine ⟨.leaf r :: es, ?_, .cons (.leaf r) each⟩
      rw [sameEnd each]
      exact .cons (.leaf r) (.nil _) outlined
  | @again seen after branch code shown rest more known others ih =>
      obtain ⟨es, outlined, each⟩ := ih
      refine ⟨.again code shown :: es, ?_, .cons (.again code shown) each⟩
      rw [sameEnd each]
      exact .cons (.again code shown) (.nil _) outlined
  | @first seen between after branch code rest below more fresh inside others ihInside ihOthers =>
      obtain ⟨inner, within, eachInside⟩ := ihInside
      obtain ⟨es, outlined, each⟩ := ihOthers
      rw [List.length_append, List.length_singleton] at eachInside
      refine ⟨.full code (branch.length + 2) :: es, ?_, .cons (.full code) each⟩
      rw [sameEnd each] at within ⊢
      exact .cons (.full code eachInside) within outlined

end Rollforward.Statement
