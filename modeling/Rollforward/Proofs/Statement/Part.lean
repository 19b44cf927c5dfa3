import Rollforward.Proofs.Statement.WellFormed

/-!
# `Rollforward.Proofs.Statement.Part`: parts of a template that stand by themselves

A part of a statement has some of its items, in whatever order, and with an item all that its
formula reads (`Statement.Part`). Whatever one of its items asks for is an item of both statements
or of neither (`Part.item?_eq_of_asks`), so its claims give the same answers to these references.

A template is compared by this one relation with two others. The lines can be put in another order;
then each statement is a part of the other (`part_of_perm`). Or lines can be left out; what remains
is a part when the codes that are kept are closed under the dependencies of the graph
(`part_of_only`). In both cases the other template compiles, since every part of a well-formed
template is well-formed (`Template.WellFormed.subperm`).
-/

set_option autoImplicit false

namespace Rollforward

open Formula (Reference)

/-! ### Parts of a template -/

/-- None of the conditions on the lines of a template asks for a line to be there. -/
theorem LineItem.Sound.subperm {lines lines' : List LineItem} (h : Sound lines)
    (sub : lines'.Subperm lines) : Sound lines' where
  filled := fun line hline => h.filled line (sub.subset hline)
  distinct := by
    obtain ⟨rest, perm, sublist⟩ := sub
    exact (perm.map _).nodup_iff.1 (h.distinct.sublist (sublist.map _))
  parsed := fun line hline => h.parsed line (sub.subset hline)

namespace Template

variable {t t' : Template}

/-- A part of the lines has no other dependencies. -/
theorem Depends.of_subset (items : t'.items ⊆ t.items) {a b : String} (h : t'.Depends a b) :
    t.Depends a b := by
  obtain ⟨hb, line, hline, code, reads⟩ := h
  exact ⟨List.map_subset _ items hb, line, items hline, code, reads⟩

/-- A part of a well-formed template is well-formed, in whatever order it has the lines. -/
theorem WellFormed.subperm (h : t.WellFormed) (items : t'.items.Subperm t.items)
    (rules : t'.rules ⊆ t.rules) : t'.WellFormed where
  lines := h.lines.subperm items
  acyclic := fun code cycle =>
    h.acyclic code (Relation.TransGen.mono (fun _ _ => Depends.of_subset items.subset) _ _ cycle)
  rules := fun rule hrule => h.rules rule (rules hrule)

/-- The template with the lines of some codes only, and without rules. -/
def only (t : Template) (codes : List String) : Template :=
  { t with items := t.items.filter fun line => codes.contains (Text.trim line.code), rules := [] }

end Template

namespace Statement

/-! ### Parts of a statement -/

/-- `s'` has items of `s`, and with every item those that it reads. -/
structure Part (s s' : Statement) : Prop where
  items : s'.items ⊆ s.items
  reads : ∀ i ∈ s'.items, ∀ code ∈ readsOf s.codes i, code ∈ s'.codes

namespace Part

variable {s s' : Statement} {code : String}

/-- A part knows no codes that the whole does not. -/
theorem codes (h : s.Part s') : s'.codes ⊆ s.codes := List.map_subset _ h.items

/-- A code that is known to both statements or to neither has one item. -/
theorem item?_eq (h : s.Part s') (nodup : s.codes.Nodup) (nodup' : s'.codes.Nodup)
    (kept : code ∈ s.codes → code ∈ s'.codes) : s'.item? code = s.item? code := by
  refine Option.ext fun i => ?_
  rw [item?_eq_some_iff nodup, item?_eq_some_iff nodup']
  constructor
  · rintro ⟨hi, same⟩
    exact ⟨h.items hi, same⟩
  · rintro ⟨hi, rfl⟩
    obtain ⟨j, hj, same⟩ := List.mem_map.1 (kept (List.mem_map_of_mem hi))
    rw [← eq_of_code_eq nodup (h.items hj) hi same]
    exact ⟨hj, rfl⟩

/-- Of the items of `s` those that an item of `s'` asks for are items of `s'` too. -/
theorem mem_codes_of_asks (h : s.Part s') (compiled : s.IsCompiled) {i : Item} (hi : i ∈ s'.items)
    {r : Reference} (hr : r ∈ i.asks) (bare : r.source = none) (known : r.code ∈ s.codes) :
    r.code ∈ s'.codes := by
  by_cases own : r.code = i.code
  · rw [own]
    exact List.mem_map_of_mem hi
  · exact h.reads i hi _ (compiled.mem_readsOf_of_asks (h.items hi) hr bare own known)

/-- What an item of the part asks for has the same item in both, or none in either. The claims of
the two statements cannot differ there. -/
theorem item?_eq_of_asks (h : s.Part s') (compiled : s.IsCompiled) (compiled' : s'.IsCompiled)
    {i : Item} (hi : i ∈ s'.items) {r : Reference} (hr : r ∈ i.asks) (bare : r.source = none) :
    s'.item? r.code = s.item? r.code :=
  h.item?_eq compiled.codes_nodup compiled'.codes_nodup (h.mem_codes_of_asks compiled hi hr bare)

/-- Statements that are parts of each other claim the same keys. -/
theorem claims_eq (h : s.Part s') (whole : s'.Part s) (nodup : s.codes.Nodup)
    (nodup' : s'.codes.Nodup) : s'.claims = s.claims := by
  refine Collection.OrderedMap.ext_get? fun code => ?_
  exact get?_claims_congr nodup nodup' (h.item?_eq nodup nodup' fun known => whole.codes known)

end Part

/-! ### Lines in another order -/

section Perm

variable {t t' : Template} {s s' : Statement}

/-- Whether a template compiles does not depend on the order of its lines. -/
theorem exists_compile_of_perm (perm : t.items.Perm t'.items) (rules : t'.rules = t.rules)
    (compiled : compile t = .ok s) : ∃ s', compile t' = .ok s' := by
  have wellFormed := exists_compile_iff.1 ⟨s, compiled⟩
  have same : t'.rules ⊆ t.rules := by
    rw [rules]
    exact List.Subset.refl _
  exact exists_compile_iff.2 (wellFormed.subperm perm.symm.subperm same)

/-- With the same lines in another order each statement is a part of the other. -/
theorem part_of_perm (perm : t.items.Perm t'.items) (compiled : compile t = .ok s)
    (compiled' : compile t' = .ok s') : s.Part s' := by
  have items (i : Item) : i ∈ s'.items ↔ i ∈ s.items := by
    rw [mem_items_of_compile compiled, mem_items_of_compile compiled']
    simp only [perm.mem_iff]
  constructor
  case items => exact fun i hi => (items i).1 hi
  case reads =>
    intro i _ code reads
    obtain ⟨j, hj, same⟩ := List.mem_map.1 (mem_readsOf.1 reads).1
    exact List.mem_map.2 ⟨j, (items j).2 hj, same⟩

end Perm

/-! ### Lines left out -/

section Only

variable {t : Template} {s s' : Statement} {codes : List String}

/-- Whatever lines are left out, the rest compiles. -/
theorem exists_compile_only (compiled : compile t = .ok s) (codes : List String) :
    ∃ s', compile (t.only codes) = .ok s' := by
  have wellFormed := exists_compile_iff.1 ⟨s, compiled⟩
  exact exists_compile_iff.2
    (wellFormed.subperm List.filter_sublist.subperm (List.nil_subset _))

/-- What remains are the items of the codes that are kept. -/
theorem mem_items_only (compiled : compile t = .ok s) (compiled' : compile (t.only codes) = .ok s')
    {i : Item} : i ∈ s'.items ↔ i ∈ s.items ∧ i.code ∈ codes := by
  rw [mem_items_of_compile compiled, mem_items_of_compile compiled']
  simp only [Template.only, List.mem_filter, List.contains_iff_mem]
  constructor
  · rintro ⟨line, ⟨hline, kept⟩, isOf⟩
    rw [← isOf.code] at kept
    exact ⟨⟨line, hline, isOf⟩, kept⟩
  · rintro ⟨⟨line, hline, isOf⟩, kept⟩
    rw [isOf.code] at kept
    exact ⟨line, ⟨hline, kept⟩, isOf⟩

/-- The codes that are kept are those of the template that were asked for. -/
theorem mem_codes_only (compiled : compile t = .ok s) (compiled' : compile (t.only codes) = .ok s')
    {code : String} : code ∈ s'.codes ↔ code ∈ s.codes ∧ code ∈ codes := by
  simp only [Statement.codes, List.mem_map, mem_items_only compiled compiled']
  constructor
  · rintro ⟨i, ⟨hi, kept⟩, rfl⟩
    exact ⟨⟨i, hi, rfl⟩, kept⟩
  · rintro ⟨⟨i, hi, rfl⟩, kept⟩
    exact ⟨i, ⟨hi, kept⟩, rfl⟩

/-- No rule is taken over, since it may name items that are left out. -/
theorem checks_only (compiled' : compile (t.only codes) = .ok s') : s'.checks = [] :=
  (Except.ok.inj (checks_of_compile compiled')).symm

/-- What remains is a part when the codes that are kept have all that they depend on. -/
theorem part_of_only (compiled : compile t = .ok s) (compiled' : compile (t.only codes) = .ok s')
    (closed : ∀ code ∈ codes, s.graph.dependenciesOf code ⊆ codes) : s.Part s' := by
  constructor
  case items => exact fun i hi => ((mem_items_only compiled compiled').1 hi).1
  case reads =>
    intro i hi code reads
    obtain ⟨hi, kept⟩ := (mem_items_only compiled compiled').1 hi
    have known := (mem_readsOf.1 reads).1
    refine (mem_codes_only compiled compiled').2 ⟨known, closed _ kept ?_⟩
    have isCompiled := isCompiled_of_compile compiled
    rw [Graph.dependenciesOf, List.mem_filter, isCompiled.nodes]
    exact ⟨known, (isCompiled.hasEdge i hi code).2 reads⟩

end Only

end Statement

end Rollforward
