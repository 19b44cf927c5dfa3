import Rollforward.Proofs.Run.RawInputs
import Rollforward.Proofs.Text.Run
import Rollforward.Registry.Standard

/-!
# `Rollforward.Proofs.Run.Padding`: blanks around the codes of a template

A template whose codes have blanks around them compiles like the one without them, up to what the
items were declared as (`Statement.compile_trimmed`). So the codes, the order, the graph and the
rules are the same, and the same codes are claimed from the raw inputs.

The keys need not be the same. An item without formula that names no key of its own takes the code
as it is declared for its key, blanks included. `Statement.claims_trimmed_iff` says that this is the
only difference, and where there is none every run has the same outcome.
-/

set_option autoImplicit false

namespace Rollforward

/-! ### Codes without blanks -/

namespace LineItem

/-- The line with its code trimmed. -/
def trimmed (line : LineItem) : LineItem := { line with code := Text.trim line.code }

/-- The raw-input reference of the line names a key. -/
def NamesKey (line : LineItem) : Prop :=
  ∃ r, line.rawReference = some r ∧ Text.trim (String.ofList (behindColon r.toList)) ≠ ""

/-- Without a key of its own, a line has its code for key, as it is declared. -/
theorem rawKey_trimmed_eq_iff {line : LineItem} :
    line.trimmed.rawKey = line.rawKey ↔ line.NamesKey ∨ Text.trim line.code = line.code := by
  unfold rawKey NamesKey trimmed
  cases line.rawReference with
  | none => simp
  | some r =>
      dsimp only
      split
      · next empty => simp [empty]
      · next named => simp [named]

end LineItem

/-- The template with the codes of its lines trimmed. -/
def Template.trimmed (t : Template) : Template :=
  { t with items := t.items.map LineItem.trimmed }

namespace Statement

/-- The item of the trimmed line. -/
def Item.trimmed (i : Item) : Item := { i with declared := i.declared.trimmed }

/-- The statement of the trimmed template. -/
def trimmed (s : Statement) : Statement := { s with items := s.items.map Item.trimmed }

/-! ### Compiling -/

/-- A line is trimmed before anything is asked of its code, so trimming it earlier makes no
difference to whether it is read. -/
theorem readItem_trimmed (seen : List String) (line : LineItem) :
    readItem seen line.trimmed = (readItem seen line).map Item.trimmed := by
  have active : line.trimmed.activeFormula? = line.activeFormula? := rfl
  have code : Text.trim line.trimmed.code = Text.trim line.code := Text.trim_trim line.code
  unfold readItem
  rw [active, code]
  dsimp only
  split
  · rfl
  · split
    · rfl
    · cases line.activeFormula? with
      | none => rfl
      | some text =>
          dsimp only
          cases readFormula (Text.trim line.code) text with
          | error d => rfl
          | ok f => rfl

/-- The same for a row of lines, with the codes seen so far. -/
theorem readItems_trimmed (seen : List String) (lines : List LineItem) :
    readItems seen (lines.map LineItem.trimmed) =
      (readItems seen lines).map (List.map Item.trimmed) := by
  induction lines generalizing seen with
  | nil => rfl
  | cons line lines ih =>
      rw [List.map_cons, readItems, readItems, readItem_trimmed]
      cases readItem seen line with
      | error d => rfl
      | ok i =>
          have code : i.trimmed.code = i.code := rfl
          simp only [Except.map, code, ih]
          cases readItems (i.code :: seen) lines with
          | error d => rfl
          | ok items => rfl

/-- The codes of items are trimmed already. -/
theorem map_code_trimmed (items : List Item) :
    (items.map Item.trimmed).map Item.code = items.map Item.code := by
  rw [List.map_map]
  rfl

/-- The graph is built from codes and formulas, and both are the same. -/
theorem graphOf_trimmed (items : List Item) : graphOf (items.map Item.trimmed) = graphOf items := by
  rw [graphOf, graphOf, map_code_trimmed, List.foldl_map]
  rfl

/-- Positions are the same, too. -/
theorem findIdx?_trimmed (items : List Item) (code : String) :
    ((items.map Item.trimmed).findIdx? fun i => i.code == code) =
      items.findIdx? fun i => i.code == code := by
  rw [List.findIdx?_map]
  rfl

/-- The trimmed template has the same defect, or its statement is the same up to what the items were
declared as. -/
theorem compile_trimmed (t : Template) : compile t.trimmed = (compile t).map Statement.trimmed := by
  rw [compile, compile, Template.trimmed, readItems_trimmed]
  cases readItems [] t.items with
  | error d => rfl
  | ok items =>
      simp only [Except.map, graphOf_trimmed, findIdx?_trimmed]
      cases (graphOf items).order with
      | error path => rfl
      | ok codes =>
          dsimp only
          cases t.rules.mapM readRule with
          | error d => rfl
          | ok checks => rfl

/-! ### Claims -/

variable {s : Statement}

/-- The statements know the same codes. -/
theorem codes_trimmed (s : Statement) : s.trimmed.codes = s.codes := map_code_trimmed s.items

/-- The claims are those of the trimmed template where every item without formula has the same key
in both. -/
theorem claims_trimmed_iff (nodup : s.codes.Nodup) :
    s.trimmed.claims = s.claims ↔
      ∀ i ∈ s.items, i.formula = none → i.declared.trimmed.rawKey = i.declared.rawKey := by
  have nodup' : s.trimmed.codes.Nodup := by rwa [codes_trimmed]
  constructor
  · intro same i hi none
    have raw := Item.isComputed_eq_false_iff.2 none
    have hi' : i.trimmed ∈ s.trimmed.items := List.mem_map_of_mem hi
    have claimed := (get?_claims_eq_some_iff nodup).2 ⟨i, hi, raw, rfl, rfl⟩
    have claimed' := (get?_claims_eq_some_iff nodup').2 ⟨i.trimmed, hi', raw, rfl, rfl⟩
    rw [same] at claimed'
    exact Option.some.inj (claimed'.symm.trans claimed)
  · intro keys
    refine Collection.OrderedMap.ext_get? fun code => Option.ext fun key => ?_
    rw [get?_claims_eq_some_iff nodup', get?_claims_eq_some_iff nodup]
    constructor
    · rintro ⟨i', hi', raw, same, read⟩
      obtain ⟨i, hi, rfl⟩ := List.mem_map.1 hi'
      have key := keys i hi (Item.isComputed_eq_false_iff.1 raw)
      exact ⟨i, hi, raw, same, key.symm.trans read⟩
    · rintro ⟨i, hi, raw, same, read⟩
      have key := keys i hi (Item.isComputed_eq_false_iff.1 raw)
      exact ⟨i.trimmed, List.mem_map_of_mem hi, raw, same, key.trans read⟩

/-- The same codes are claimed. What differs is what they are claimed for. -/
theorem contains_claims_trimmed (nodup : s.codes.Nodup) (code : String) :
    s.trimmed.claims.contains code = s.claims.contains code := by
  have nodup' : s.trimmed.codes.Nodup := by rwa [codes_trimmed]
  rw [Bool.eq_iff_iff, Collection.OrderedMap.contains_eq_true_iff,
    Collection.OrderedMap.contains_eq_true_iff]
  simp only [get?_claims_eq_some_iff nodup, get?_claims_eq_some_iff nodup']
  constructor
  · rintro ⟨key, i', hi', raw, same, -⟩
    obtain ⟨i, hi, rfl⟩ := List.mem_map.1 hi'
    exact ⟨_, i, hi, raw, same, rfl⟩
  · rintro ⟨key, i, hi, raw, same, -⟩
    exact ⟨_, i.trimmed, List.mem_map_of_mem hi, raw, same, rfl⟩

/-- With the same claims no calculation tells the statements apart. -/
theorem alike_trimmed (nodup : s.codes.Nodup) (claims : s.trimmed.claims = s.claims) :
    s.Alike s.trimmed where
  items := by
    have keys := (claims_trimmed_iff nodup).1 claims
    refine List.forall₂_map_right_iff.2 (List.forall₂_same.2 fun i hi => ?_)
    exact ⟨rfl, rfl, fun _ => rfl, keys i hi⟩
  order := rfl
  checks := rfl

/-- With the codes trimmed a template has the same defect, or it compiles to the same codes, order,
graph and rules and claims the same codes. It has the same raw-input keys just when every line
without formula names a key or has no blanks around its code; then every plan has the same outcome
with both. -/
theorem compile_trimmed_claims (t : Template) :
    (∀ d, compile t.trimmed = .error d ↔ compile t = .error d) ∧
    ∀ s, compile t = .ok s → ∃ s', compile t.trimmed = .ok s' ∧ s'.codes = s.codes ∧
      s'.order = s.order ∧ s'.graph = s.graph ∧ s'.checks = s.checks ∧
      (∀ code, s'.claims.contains code = s.claims.contains code) ∧
      (s'.claims = s.claims ↔ ∀ line ∈ t.items, line.activeFormula? = none →
        line.NamesKey ∨ Text.trim line.code = line.code) ∧
      (s'.claims = s.claims → ∀ functions options invariants source providers plan switch,
        Runner.execute ⟨s', functions, options, invariants, source, providers⟩ plan switch =
          Runner.execute ⟨s, functions, options, invariants, source, providers⟩ plan switch) := by
  rw [compile_trimmed]
  constructor
  · intro d
    cases compile t with
    | error d' => exact Iff.rfl
    | ok s =>
        constructor
        · intro h
          cases h
        · intro h
          cases h
  · intro s compiled
    have nodup := (isCompiled_of_compile compiled).codes_nodup
    refine ⟨s.trimmed, by rw [compiled]; rfl, codes_trimmed s, rfl, rfl, rfl,
      contains_claims_trimmed nodup, ?_, ?_⟩
    · rw [claims_trimmed_iff nodup]
      constructor
      · intro keys line hline active
        -- Only an item without formula asks for records, and its key is the one of its line.
        obtain ⟨i, hi, isOf⟩ :=
          exists_item_of_line (readItems_eq_ok (compile_eq_ok compiled).1).1 hline
        have key := keys i hi (isOf.formula_eq_none_iff.2 active)
        rwa [isOf.declared, LineItem.rawKey_trimmed_eq_iff] at key
      · intro named i hi none
        obtain ⟨line, hline, isOf⟩ := (mem_items_of_compile compiled).1 hi
        rw [isOf.declared, LineItem.rawKey_trimmed_eq_iff]
        exact named line hline (isOf.formula_eq_none_iff.1 none)
    · intro claims functions options invariants source providers plan switch
      -- The claims are all that a run sees of the keys.
      let r : Runner := ⟨s, functions, options, invariants, source, providers⟩
      exact r.execute_eq_of_alike (alike_trimmed nodup claims) plan switch

set_option maxRecDepth 20000 in
/-- The record of `A` is found for the trimmed template only: with a blank before the code, the item
`A` asks for a key with the blank. -/
theorem compile_trimmed_claims_padded :
    let template : Template := { items := [{ code := " A" }] }
    ∃ s s', compile template = .ok s ∧ compile template.trimmed = .ok s' ∧
      s'.codes = s.codes ∧ s.claims.get? "A" = some " A" ∧ s'.claims.get? "A" = some "A" ∧
      let r : Runner := ⟨s, .standard, {}, [], some fun _ _ => .ok [⟨"A", 1, 5.0⟩], []⟩
      let plan : Plan := ⟨"E1", 1, [1], none, .empty⟩
      (r.execute plan .untouched).ending = .failed ⟨0, 1, .period (.item "A" ""
        (.gap "rawinput" (.bare "A") (.noRecord " A" 1 "E1" 1)))⟩ ∧
      let o := { r with statement := s' }.execute plan .untouched
      o.ending = .completed ∧
        o.closings.map (fun closing => closing.values.toList) = [[("A", 5.0)]] := by
  intro template
  let s : Statement :=
    ⟨"", [{ code := "A", formula := none, declared := { code := " A" } }], [0], ⟨["A"], []⟩, []⟩
  let s' : Statement :=
    ⟨"", [{ code := "A", formula := none, declared := { code := "A" } }], [0], ⟨["A"], []⟩, []⟩
  have compiled : compile template = .ok s := by
    unfold template s
    cbv
  have compiled' : compile template.trimmed = .ok s' := by
    unfold template s'
    cbv
  refine ⟨s, s', compiled, compiled', rfl, ?_, ?_, ?_⟩
  · unfold s
    with_unfolding_all rfl
  · unfold s'
    with_unfolding_all rfl
  · intro r plan
    refine ⟨?_, ?_⟩
    · unfold r plan s
      with_unfolding_all rfl
    intro o
    constructor
    · unfold o r plan s s'
      with_unfolding_all rfl
    · unfold o r plan s s'
      with_unfolding_all rfl

end Statement

end Rollforward
