import Mathlib.Data.List.Forall2
import Rollforward.Proofs.Statement.Compile
import Rollforward.Provider.Statement

/-!
# `Rollforward.Proofs.Statement.Alike`: statements that no calculation tells apart

A calculation looks at the codes of the items, at their formulas and, where there is none, at what
is declared in place of it. Statements that have all this in common are alike (`Statement.Alike`):
they find the same items at the same places, claim the same references and the same raw-input keys.

The raw-input reference of a line with a formula is not among it, so templates that differ in such
references only compile to statements that are alike (`exists_alike_of_compile`).
-/

set_option autoImplicit false

namespace Rollforward

open Formula (Reference)

/-- The lines differ at most in their raw-input reference, and in nothing without a formula. -/
structure LineItem.Alike (line line' : LineItem) : Prop where
  code : line'.code = line.code
  formula : line'.formula = line.formula
  declared : line.activeFormula? = none → line' = line

/-- Alike lines agree on whether they have a formula, and on the formula. -/
theorem LineItem.Alike.activeFormula?_eq {line line' : LineItem} (h : line.Alike line') :
    line'.activeFormula? = line.activeFormula? := by
  rw [activeFormula?, activeFormula?, h.formula]

namespace Statement

/-- The items differ at most in what is declared beside their formula. Of an item without one, no
more is looked at than the raw-input reference and the key that comes of it. -/
structure Item.Alike (i i' : Item) : Prop where
  code : i'.code = i.code
  formula : i'.formula = i.formula
  rawReference : i.formula = none → i'.declared.rawReference = i.declared.rawReference
  rawKey : i.formula = none → i'.declared.rawKey = i.declared.rawKey

namespace Item.Alike

variable {i i' : Item}

/-- Each item is like itself. Most items of two such statements are not only alike but equal. -/
theorem refl (i : Item) : i.Alike i := ⟨rfl, rfl, fun _ => rfl, fun _ => rfl⟩

/-- Alike items are computed both or neither. -/
theorem isComputed_eq (h : i.Alike i') : i'.isComputed = i.isComputed := by
  rw [isComputed, isComputed, h.formula]

/-- Alike items read the same references. -/
theorem references_eq (h : i.Alike i') : i'.references = i.references := by
  rw [references, references, h.formula]

/-- Errors quote the same text for alike items: the formula or, without one, the raw-input
reference. -/
theorem sourceText_eq (h : i.Alike i') : i'.sourceText = i.sourceText := by
  rw [sourceText, sourceText, h.formula]
  cases none : i.formula with
  | none => simp only [h.rawReference none]
  | some f => rfl

end Item.Alike

/-! ### Rows of items -/

section Items

variable {items items' : List Item}

/-- At a position there is an item in both rows or in neither. -/
theorem getElem?_alike (h : List.Forall₂ Item.Alike items items') (p : Nat) :
    (items[p]? = none ∧ items'[p]? = none) ∨
      ∃ i i', items[p]? = some i ∧ items'[p]? = some i' ∧ i.Alike i' := by
  induction h generalizing p with
  | nil => simp
  | @cons i i' is is' alike _ ih =>
      cases p with
      | zero => exact Or.inr ⟨i, i', rfl, rfl, alike⟩
      | succ p => exact ih p

/-- A code leads to alike items, so it is computed in both statements or in neither. -/
theorem find?_alike (h : List.Forall₂ Item.Alike items items') (code : String) :
    ((items'.find? fun i => i.code == code).map Item.isComputed) =
      (items.find? fun i => i.code == code).map Item.isComputed := by
  induction h with
  | nil => rfl
  | @cons i i' is is' alike _ ih =>
      rw [List.find?_cons, List.find?_cons, alike.code]
      split
      · exact congrArg some alike.isComputed_eq
      · exact ih

/-- A code stands at the same place in both. -/
theorem findIdx?_alike (h : List.Forall₂ Item.Alike items items') (code : String) :
    (items'.findIdx? fun i => i.code == code) = items.findIdx? fun i => i.code == code := by
  induction h with
  | nil => rfl
  | cons alike _ ih => rw [List.findIdx?_cons, List.findIdx?_cons, alike.code, ih]

/-- The codes are the same and in the same order. -/
theorem map_code_alike (h : List.Forall₂ Item.Alike items items') :
    items'.map Item.code = items.map Item.code := by
  induction h with
  | nil => rfl
  | cons alike _ ih => rw [List.map_cons, List.map_cons, alike.code, ih]

/-- The namespace of computed items claims the same codes. -/
theorem claimsOf_alike (h : List.Forall₂ Item.Alike items items') :
    claimsOf items' = claimsOf items := by
  have entries :
      ((items'.filter fun i => i.isComputed == false).map fun i => (i.code, i.declared.rawKey)) =
        (items.filter fun i => i.isComputed == false).map fun i =>
          (i.code, i.declared.rawKey) := by
    induction h with
    | nil => rfl
    | @cons i i' is is' alike _ ih =>
        rw [List.filter_cons, List.filter_cons, alike.isComputed_eq]
        by_cases raw : (i.isComputed == false) = true
        · have none : i.formula = none := by simpa [Item.isComputed] using raw
          rw [if_pos raw, if_pos raw, List.map_cons, List.map_cons, ih, alike.code,
            alike.rawKey none]
        · rw [if_neg raw, if_neg raw, ih]
  rw [claimsOf, claimsOf, entries]

/-- An item gets the same edges. -/
theorem readsOf_alike {codes : List String} {i i' : Item} (h : i.Alike i') :
    readsOf codes i' = readsOf codes i := by
  rw [readsOf, readsOf, h.references_eq, h.code]

/-- The graph of the items is the same, not only one with the same edges: it is built from the codes
and the references, in their order. -/
theorem graphOf_alike (h : List.Forall₂ Item.Alike items items') :
    graphOf items' = graphOf items := by
  have edges (codes : List String) (g : Graph) :
      items'.foldl (fun g i => (readsOf codes i).foldl (fun g d => g.addEdge i.code d) g) g =
        items.foldl (fun g i => (readsOf codes i).foldl (fun g d => g.addEdge i.code d) g) g := by
    induction h generalizing g with
    | nil => rfl
    | cons alike _ ih => rw [List.foldl_cons, List.foldl_cons, readsOf_alike alike, alike.code, ih]
  rw [graphOf, graphOf, map_code_alike h]
  exact edges _ _

end Items

/-! ### Statements -/

/-- The statements have items that are alike, in the same order, and the same rules. -/
structure Alike (s s' : Statement) : Prop where
  items : List.Forall₂ Item.Alike s.items s'.items
  order : s'.order = s.order
  checks : s'.checks = s.checks

namespace Alike

variable {s s' : Statement}

/-- Each statement is like itself. -/
theorem refl (s : Statement) : s.Alike s where
  items := List.forall₂_same.2 fun i _ => Item.Alike.refl i
  order := rfl
  checks := rfl

/-- Alike statements answer for the same codes. -/
theorem claims_eq (h : s.Alike s') : s'.claims = s.claims := claimsOf_alike h.items

/-- The items of a period in progress answer the same references alike. -/
theorem provider_eq (h : s.Alike s') (l : Ledger) (history : Series) :
    Provider.statement s' l history = Provider.statement s l history := by
  have claims (r : Reference) : (Provider.statement s' l history).claims r =
      (Provider.statement s l history).claims r := by
    have kind := find?_alike h.items r.code
    show (r.isUnqualified && _) = (r.isUnqualified && _)
    rw [item?, item?]
    cases found : s.items.find? fun i => i.code == r.code with
    | none =>
        rw [found, Option.map_none, Option.map_eq_none_iff] at kind
        rw [kind]
    | some i =>
        rw [found, Option.map_some, Option.map_eq_some_iff] at kind
        obtain ⟨i', found', computed⟩ := kind
        rw [found']
        simp only [computed]
  have resolve (r : Reference) (context : Context) :
      (Provider.statement s' l history).resolve r context =
        (Provider.statement s l history).resolve r context := by
    simp only [Provider.statement, position?, findIdx?_alike h.items]
  rw [Provider.statement, Provider.statement, Provider.mk.injEq]
  exact ⟨rfl, funext claims, funext fun r => funext (resolve r)⟩

end Alike

/-! ### Templates -/

/-- A line that is read alone is read in either form. It is the formula that can make it fail, and
the codes seen before, and both forms share them. -/
theorem exists_alike_of_readItem {seen : List String} {line line' : LineItem} {i : Item}
    (alike : line.Alike line') (read : readItem seen line = .ok i) :
    ∃ i', readItem seen line' = .ok i' ∧ i.Alike i' := by
  unfold readItem at read ⊢
  rw [alike.code, alike.activeFormula?_eq]
  dsimp only at read ⊢
  split at read
  · cases read
  · next filled =>
    rw [if_neg filled]
    split at read
    · cases read
    · next fresh =>
      rw [if_neg fresh]
      cases active : line.activeFormula? with
      | none =>
          simp only [active] at read
          -- A line without formula is the same in both forms.
          rw [← Except.ok.inj read, alike.declared active]
          exact ⟨_, rfl, Item.Alike.refl _⟩
      | some text =>
          simp only [active] at read ⊢
          cases parsed : readFormula (Text.trim line.code) text with
          | error e =>
              rw [parsed] at read
              cases read
          | ok f =>
              rw [parsed] at read
              rw [← Except.ok.inj read]
              exact ⟨_, rfl, rfl, rfl, (fun none => nomatch none), (fun none => nomatch none)⟩

/-- The lines of a template, by induction along them: the codes seen so far stay the same. -/
theorem exists_alike_of_readItems {seen : List String} {lines lines' : List LineItem}
    {items : List Item} (alike : List.Forall₂ LineItem.Alike lines lines')
    (read : readItems seen lines = .ok items) :
    ∃ items', readItems seen lines' = .ok items' ∧ List.Forall₂ Item.Alike items items' := by
  induction alike generalizing seen items with
  | nil =>
      rw [← Except.ok.inj read]
      exact ⟨[], rfl, .nil⟩
  | @cons line line' lines lines' first _ ih =>
      rw [readItems] at read
      cases readFirst : readItem seen line with
      | error e =>
          rw [readFirst] at read
          cases read
      | ok i =>
          rw [readFirst] at read
          dsimp only at read
          obtain ⟨i', readFirst', alike⟩ := exists_alike_of_readItem first readFirst
          cases readRest : readItems (i.code :: seen) lines with
          | error e =>
              rw [readRest] at read
              cases read
          | ok is =>
              rw [readRest] at read
              obtain ⟨is', readRest', rest⟩ := ih readRest
              rw [← Except.ok.inj read]
              refine ⟨i' :: is', ?_, .cons alike rest⟩
              rw [readItems, readFirst']
              dsimp only
              rw [alike.code, readRest']

/-- Templates whose lines are alike compile to statements that are alike. -/
theorem exists_alike_of_compile {t : Template} {lines : List LineItem} {s : Statement}
    (alike : List.Forall₂ LineItem.Alike t.items lines) (compiled : compile t = .ok s) :
    ∃ s', compile { t with items := lines } = .ok s' ∧ s.Alike s' := by
  unfold compile at compiled
  split at compiled
  · cases compiled
  · next items read =>
    dsimp only at compiled
    split at compiled
    · cases compiled
    · next codes ordered =>
      split at compiled
      · cases compiled
      · next checks rules =>
        obtain ⟨items', read', same⟩ := exists_alike_of_readItems alike read
        have ordered' : (graphOf items').order = .ok codes := by
          rw [graphOf_alike same]
          exact ordered
        let order := codes.filterMap fun code => items'.findIdx? fun i => i.code == code
        rw [← Except.ok.inj compiled]
        refine ⟨⟨t.code, items', order, graphOf items', checks⟩, ?_, same, ?_, rfl⟩
        · simp only [compile, read', ordered', rules, order]
        · simp only [order, findIdx?_alike same]

end Statement

end Rollforward
