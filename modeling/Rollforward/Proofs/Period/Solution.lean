import Rollforward.Proofs.Collection.OrderedMap
import Rollforward.Proofs.Period.Closing
import Rollforward.Proofs.Period.Fill
import Rollforward.Registry.Standard

/-!
# `Rollforward.Proofs.Period.Solution`: a closed period solves the equations of its template

A template is a system of equations with one unknown for each item. `Solves` says that values are a
solution: every formula, evaluated where all the items already have these values, gives the value of
its own item, and an item without formula has the value of the first provider that claims its code.

Nothing in `Solves` speaks of an order of evaluation. `solves_close` shows that the period that is
calculated is a solution, and `eq_of_solves` that there is no other: two solutions that agree on the
items that a formula reads agree on its own, and `item_induction` does the rest.
-/

set_option autoImplicit false

namespace Rollforward

open Formula (Reference)

/-- The ledger in which every item has the value that `values` has for its code. -/
def Ledger.ofValues (items : List Statement.Item) (values : Snapshot) : Ledger :=
  ⟨items.map fun i => values.get? i.code⟩

/-- A ledger that is made from values has them at the positions of their items. -/
theorem Ledger.get?_ofValues {items : List Statement.Item} {p : Nat} {i : Statement.Item}
    (hp : items[p]? = some i) (values : Snapshot) :
    (Ledger.ofValues items values).get? p = values.get? i.code := by
  rw [Ledger.get?, Ledger.ofValues, List.getElem?_map, hp]
  rfl

namespace Calculator

variable {c : Calculator} {history : Series} {context : Context}

/-! ### The equations -/

/-- `v` is what the item has to be when every item has its value of `values`. -/
def Equation (c : Calculator) (history : Series) (context : Context) (values : Snapshot)
    (i : Statement.Item) (v : Float) : Prop :=
  match i.formula with
  | some f =>
    let ledger := Ledger.ofValues c.statement.items values
    Evaluation.eval (c.itemEnvironment history context ledger) f.expr = .ok v
  | none =>
    ∃ p, Chain.claimant? c.providers (.bare i.code) = some p ∧
      p.resolve (.bare i.code) context = .ok v

/-- Values for the codes of the items and for no other, which fulfil the equation of every item. -/
structure Solves (c : Calculator) (history : Series) (context : Context) (values : Snapshot) :
    Prop where
  codes : ∀ code, values.contains code = true ↔ ∃ i ∈ c.statement.items, i.code = code
  equations : ∀ i ∈ c.statement.items, ∃ v, values.get? i.code = some v ∧
    c.Equation history context values i v

/-- There are no other codes. -/
theorem get?_eq_none_of_solves {values : Snapshot} (h : c.Solves history context values)
    {code : String} (unknown : ¬∃ i ∈ c.statement.items, i.code = code) :
    values.get? code = none := by
  cases hv : values.get? code with
  | none => rfl
  | some v =>
      have contained := Collection.OrderedMap.contains_eq_true_iff.2 ⟨v, hv⟩
      exact absurd ((h.codes code).1 contained) unknown

/-- A chain answers with its first claimant or not at all. -/
theorem resolve_eq_ok_iff {chain : Chain} {r : Reference} {v : Float} :
    chain.resolve r context = .ok v ↔
      ∃ p, chain.claimant? r = some p ∧ p.resolve r context = .ok v := by
  rw [Chain.resolve]
  cases chain.claimant? r <;> simp

/-- An item without a formula has the value that the caller's providers answer. -/
theorem exists_resolve_of_raw {values : Snapshot} (h : c.Solves history context values)
    {i : Statement.Item} (hi : i ∈ c.statement.items) (raw : i.formula = none) :
    ∃ v, values.get? i.code = some v ∧
      Chain.resolve c.providers (.bare i.code) context = .ok v := by
  obtain ⟨v, value, equation⟩ := h.equations i hi
  simp only [Equation, raw] at equation
  exact ⟨v, value, resolve_eq_ok_iff.2 equation⟩

/-- An item with a formula has the value of the formula in front of the values of all items. -/
theorem exists_eval_of_computed {values : Snapshot} (h : c.Solves history context values)
    {i : Statement.Item} (hi : i ∈ c.statement.items) {f : Statement.ItemFormula}
    (hf : i.formula = some f) :
    ∃ v, values.get? i.code = some v ∧
      Evaluation.eval (c.itemEnvironment history context (.ofValues c.statement.items values))
        f.expr = .ok v := by
  obtain ⟨v, value, equation⟩ := h.equations i hi
  simp only [Equation, hf] at equation
  exact ⟨v, value, equation⟩

/-- The equation of an item is its evaluation in front of the whole ledger. -/
theorem equation_iff (compiled : c.statement.IsCompiled) {values : Snapshot}
    {i : Statement.Item} (hi : i ∈ c.statement.items) {v : Float} :
    c.Equation history context values i v ↔
      evalItem (c.itemEnvironment history context (.ofValues c.statement.items values)) i =
        .ok v := by
  cases hf : i.formula with
  | some f => simp only [Equation, evalItem, hf]
  | none =>
      simp only [Equation, evalItem, hf]
      show _ ↔ Chain.resolve _ _ context = _
      rw [resolve_bare_of_raw compiled hi hf, resolve_eq_ok_iff]

/-- In front of the values of all items, an item with a formula is read from the values. -/
theorem resolve_item_of_values (compiled : c.statement.IsCompiled) {j : Statement.Item}
    {r : Reference} (bare : r.source = none) (now : r.offset = 0)
    (item : c.statement.item? r.code = some j) (computed : j.isComputed = true)
    (values : Snapshot) :
    (c.itemEnvironment history context (.ofValues c.statement.items values)).chain.resolve r
        context =
      match values.get? r.code with
      | some v => .ok v
      | none => .error (.gap "statement" r .notYetComputed) := by
  obtain ⟨code, q, hq, position⟩ :=
    Statement.exists_position?_of_item? compiled.codes_nodup item
  rewrite [resolve_item_computed bare now item computed, position, Option.bind_some,
    Ledger.get?_ofValues hq, code]
  rfl

/-- In front of the values of all items a reference has the same value for two calculators when both
have an item of its code or neither has, the items are of one kind and have one value, and what is
asked otherwise answers alike. -/
theorem resolve_item_of_values_congr {c' : Calculator} {history' : Series}
    {values values' : Snapshot} (compiled : c.statement.IsCompiled)
    (compiled' : c'.statement.IsCompiled) {r : Reference}
    (known : r.source = none → c'.statement.contains r.code = c.statement.contains r.code)
    (now : r.source = none → r.offset = 0 → ∀ i, c.statement.item? r.code = some i →
      ∃ j, c'.statement.item? r.code = some j ∧ j.isComputed = i.isComputed ∧
        values.get? r.code = values'.get? r.code)
    (past : r.source = none → c.statement.contains r.code = true →
      history.resolve r context = history'.resolve r context)
    (answer : Chain.resolve c.providers r context = Chain.resolve c'.providers r context) :
    (c.itemEnvironment history context (.ofValues c.statement.items values)).chain.resolve r
        context =
      (c'.itemEnvironment history' context (.ofValues c'.statement.items values')).chain.resolve r
        context := by
  cases c.statement.route r with
  | prefixed space =>
      rw [resolve_item_external (Or.inl space), resolve_item_external (Or.inl space)]
      exact answer
  | unknown bare absent =>
      have absent' : c'.statement.item? r.code = none := by
        have known := known bare
        rw [Statement.contains_eq_isSome_item?, Statement.contains_eq_isSome_item?, absent] at known
        exact Option.not_isSome_iff_eq_none.1 (by rw [known]; exact Bool.false_ne_true)
      rw [resolve_item_external (Or.inr absent), resolve_item_external (Or.inr absent')]
      exact answer
  | shifted bare shifted i item =>
      have contained := Statement.contains_of_item? item
      rw [resolve_item_shifted bare shifted contained,
        resolve_item_shifted bare shifted ((known bare).trans contained)]
      exact past bare contained
  | now bare atHand i item =>
      obtain ⟨j, item', computed, same⟩ := now bare atHand i item
      -- The items are of one kind, so they are read at the same place.
      cases kind : i.isComputed with
      | true =>
          rw [resolve_item_of_values compiled bare atHand item kind,
            resolve_item_of_values compiled' bare atHand item' (computed.trans kind), same]
      | false =>
          rw [resolve_item_raw atHand item kind,
            resolve_item_raw atHand item' (computed.trans kind)]
          exact answer

/-! ### The closed period is a solution -/

section Close

variable {l : Ledger}

/-- What closing a ledger writes down, entry by entry. -/
theorem mem_close_entries {items : List Statement.Item} {code : String} {v : Float} :
    (code, v) ∈ items.zipIdx.filterMap (fun (i, p) => (l.get? p).map fun v => (i.code, v)) ↔
      ∃ p i, items[p]? = some i ∧ i.code = code ∧ l.get? p = some v := by
  simp only [List.mem_filterMap, Prod.exists, List.mk_mem_zipIdx_iff_getElem?,
    Option.map_eq_some_iff, Prod.mk.injEq]
  constructor
  · rintro ⟨i, p, hp, v, hv, hcode, rfl⟩
    exact ⟨p, i, hp, hcode, hv⟩
  · rintro ⟨p, i, hp, hcode, hv⟩
    exact ⟨i, p, hp, v, hv, hcode, rfl⟩

/-- No code is written down twice, so no value is lost. -/
theorem nodup_close_entries {items : List Statement.Item} (nodup : (items.map (·.code)).Nodup) :
    ((items.zipIdx.filterMap (fun (i, p) => (l.get? p).map fun v => (i.code, v))).map
      Prod.fst).Nodup := by
  have apart : items.zipIdx.Pairwise fun a b => a.1.code ≠ b.1.code := by
    have firsts : (items.zipIdx.map Prod.fst).Pairwise fun i j => i.code ≠ j.code := by
      rw [List.zipIdx_map_fst]
      exact List.pairwise_map.1 nodup
    rwa [List.pairwise_map] at firsts
  refine List.pairwise_map.2 (List.pairwise_filterMap.2 (apart.imp ?_))
  rintro ⟨i, p⟩ ⟨j, q⟩ differ e he e' he'
  obtain ⟨v, -, rfl⟩ := Option.map_eq_some_iff.1 he
  obtain ⟨v', -, rfl⟩ := Option.map_eq_some_iff.1 he'
  exact differ

/-- A closed period has the value of a code from the position of its item. -/
theorem get?_close (compiled : c.statement.IsCompiled) {p : Nat} {i : Statement.Item}
    (hp : c.statement.items[p]? = some i) :
    (close c.statement.items l).get? i.code = l.get? p := by
  have nodup := nodup_close_entries (l := l) compiled.codes_nodup
  have entry (v : Float) :
      (close c.statement.items l).get? i.code = some v ↔ l.get? p = some v := by
    rw [close, Collection.OrderedMap.get?_ofList_eq_some_iff nodup, mem_close_entries]
    constructor
    · rintro ⟨q, j, hq, same, hv⟩
      rwa [← Statement.position_eq_of_code_eq compiled.codes_nodup hq hp same]
    · exact fun hv => ⟨p, i, hp, rfl, hv⟩
  exact Option.ext entry

/-- A ledger of given values closes into those of them that are of the items. -/
theorem get?_close_ofValues (compiled : c.statement.IsCompiled) (values : Snapshot)
    (code : String) :
    (close c.statement.items (.ofValues c.statement.items values)).get? code =
      if code ∈ c.statement.codes then values.get? code else none := by
  by_cases known : code ∈ c.statement.codes
  · obtain ⟨i, hi, rfl⟩ := List.mem_map.1 known
    obtain ⟨p, hp⟩ := List.mem_iff_getElem?.1 hi
    rw [if_pos known, get?_close compiled hp, Ledger.get?_ofValues hp]
  · rw [if_neg known]
    refine Option.eq_none_iff_forall_not_mem.2 fun v hv => known ?_
    obtain ⟨p, i, hp, rfl, -⟩ :=
      mem_close_entries.1 (Collection.OrderedMap.mem_of_get?_ofList hv)
    exact List.mem_map_of_mem (List.mem_of_getElem? hp)

/-- The ledger of a period can be read off the closed period. -/
theorem ofValues_close (compiled : c.statement.IsCompiled)
    (h : c.ledger history context = .ok l) :
    Ledger.ofValues c.statement.items (close c.statement.items l) = l := by
  have size : (Ledger.ofValues c.statement.items (close c.statement.items l)).slots.length =
      l.slots.length := by
    rw [length_ledger h]
    exact List.length_map _
  refine Ledger.ext_get? size fun p => ?_
  cases hp : c.statement.items[p]? with
  | some i => rw [Ledger.get?_ofValues hp, get?_close compiled hp]
  | none =>
      have outside : c.statement.items.length ≤ p := List.getElem?_eq_none_iff.1 hp
      rw [Ledger.get?, Ledger.get?, List.getElem?_eq_none (by rwa [size, length_ledger h]),
        List.getElem?_eq_none (by rwa [length_ledger h])]

/-- A ledger that is filled closes into a solution. At the end of the fill an item may be evaluated
again, in front of the whole ledger, and has the value that it got. -/
theorem solves_close (compiled : c.statement.IsCompiled) (h : c.ledger history context = .ok l) :
    c.Solves history context (close c.statement.items l) := by
  have solved (i : Statement.Item) (hi : i ∈ c.statement.items) :
      ∃ v, (close c.statement.items l).get? i.code = some v ∧
        c.Equation history context (close c.statement.items l) i v := by
    obtain ⟨p, hp⟩ := List.mem_iff_getElem?.1 hi
    obtain ⟨v, written, value⟩ := evalItem_of_ledger compiled h hp
    refine ⟨v, (get?_close compiled hp).trans written, ?_⟩
    rw [equation_iff compiled hi, ofValues_close compiled h]
    exact value
  refine ⟨fun code => ?_, solved⟩
  rw [Collection.OrderedMap.contains_eq_true_iff]
  constructor
  · rintro ⟨v, hv⟩
    obtain ⟨p, i, hp, hcode, -⟩ :=
      mem_close_entries.1 (Collection.OrderedMap.mem_of_get?_ofList hv)
    exact ⟨i, List.mem_of_getElem? hp, hcode⟩
  · rintro ⟨i, hi, rfl⟩
    obtain ⟨v, hv, -⟩ := solved i hi
    exact ⟨v, hv⟩

end Close

/-! ### There is no other solution -/

/-- There is one solution at most, by induction along the order of evaluation. -/
theorem eq_of_solves (compiled : c.statement.IsCompiled) {values values' : Snapshot}
    (h : c.Solves history context values) (h' : c.Solves history context values') :
    values = values' := by
  have agree : ∀ i ∈ c.statement.items, values.get? i.code = values'.get? i.code := by
    refine compiled.item_induction fun i hi same => ?_
    -- `same` is the induction hypothesis: the solutions agree on what `i` reads.
    obtain ⟨v, hv, equation⟩ := h.equations i hi
    obtain ⟨v', hv', equation'⟩ := h'.equations i hi
    rw [equation_iff compiled hi] at equation equation'
    -- Both formulas are evaluated in front of ledgers that agree on what the item reads.
    have congr :
        evalItem (c.itemEnvironment history context (.ofValues c.statement.items values)) i =
          evalItem (c.itemEnvironment history context (.ofValues c.statement.items values')) i := by
      refine (agreeOn_itemEnvironment compiled hi fun q j hq reads => ?_).evalItem_eq
      rw [Ledger.get?_ofValues hq, Ledger.get?_ofValues hq]
      exact same j (List.mem_of_getElem? hq) reads
    rw [congr, equation'] at equation
    rw [hv, hv', Except.ok.inj equation]
  refine Collection.OrderedMap.ext_get? fun code => ?_
  by_cases known : ∃ i ∈ c.statement.items, i.code = code
  · obtain ⟨i, hi, rfl⟩ := known
    exact agree i hi
  · rw [get?_eq_none_of_solves h known, get?_eq_none_of_solves h' known]

/-! ### Calculated periods -/

/-- Behind every closed period stands the ledger that it was closed from. -/
theorem exists_ledger_of_calculateIn {closing : Closing}
    (h : c.calculateIn history context = .ok closing) :
    ∃ l, c.ledger history context = .ok l ∧ closing.values = close c.statement.items l := by
  obtain ⟨l, ledger, rfl, -⟩ := calculateIn_eq_ok h
  exact ⟨l, ledger, rfl⟩

/-- What a calculation answers is a solution. -/
theorem solves_of_calculateIn (compiled : c.statement.IsCompiled) {closing : Closing}
    (h : c.calculateIn history context = .ok closing) :
    c.Solves history context closing.values := by
  obtain ⟨l, ledger, closed⟩ := exists_ledger_of_calculateIn h
  rw [closed]
  exact solves_close compiled ledger

/-- The ledger can be had back from the values, which is how a period is compared with itself later.
-/
theorem ledger_of_calculateIn (compiled : c.statement.IsCompiled) {closing : Closing}
    (h : c.calculateIn history context = .ok closing) :
    c.ledger history context = .ok (.ofValues c.statement.items closing.values) := by
  obtain ⟨l, ledger, closed⟩ := exists_ledger_of_calculateIn h
  rw [closed, ofValues_close compiled ledger, ledger]

/-- The values of a calculated period are those of the filled ledger, they solve the equations of
the template, and nothing else does. -/
theorem calculateIn_unique_solution {t : Template} {closing : Closing}
    (compiled : Statement.compile t = .ok c.statement)
    (calculated : c.calculateIn history context = .ok closing) :
    c.ledger history context = .ok (.ofValues c.statement.items closing.values) ∧
      c.Solves history context closing.values ∧
      ∀ values, c.Solves history context values → values = closing.values := by
  have compiled := Statement.isCompiled_of_compile compiled
  obtain ⟨l, ledger, closed⟩ := exists_ledger_of_calculateIn calculated
  have solves := solves_close compiled ledger
  rw [closed]
  refine ⟨?_, solves, fun values other => eq_of_solves compiled other solves⟩
  rw [ofValues_close compiled ledger]
  exact ledger

set_option maxRecDepth 20000 in
/-- The template lists `B` before the items that it reads. -/
theorem calculateIn_unique_solution_out_of_order :
    let template : Template :=
      { items := [{ code := "B", formula := some "A+C" }, { code := "A" },
          { code := "C", formula := some "A" }] }
    ∃ s, Statement.compile template = .ok s ∧ s.order = [1, 2, 0] ∧
      let c : Calculator := ⟨s, .standard, {}, [.fixed (.ofList [("A", 1.0)])]⟩
      ∃ closing, c.calculateIn .empty ⟨"E1", 1, 1, 0⟩ = .ok closing ∧
        closing.values.toList = [("A", 1.0), ("B", 2.0), ("C", 1.0)] ∧
        c.Solves .empty ⟨"E1", 1, 1, 0⟩ closing.values ∧
        ∀ values, c.Solves .empty ⟨"E1", 1, 1, 0⟩ values → values = closing.values := by
  intro template
  let s : Statement :=
    { code := ""
      items := [
        { code := "B"
          formula := some ⟨"A+C", .binary .add (.reference (.bare "A")) (.reference (.bare "C")),
            [.bare "A", .bare "C"]⟩
          declared := { code := "B", formula := some "A+C" } },
        { code := "A", formula := none, declared := { code := "A" } },
        { code := "C"
          formula := some ⟨"A", .reference (.bare "A"), [.bare "A"]⟩
          declared := { code := "C", formula := some "A" } }]
      order := [1, 2, 0]
      graph := ⟨["B", "A", "C"], [("B", "A"), ("B", "C"), ("C", "A")]⟩
      checks := [] }
  have compiled : Statement.compile template = .ok s := by
    unfold template s
    cbv
  let values : Snapshot := .ofList [("A", 1.0), ("B", 2.0), ("C", 1.0)]
  have calculated :
      calculateIn ⟨s, .standard, {}, [.fixed (.ofList [("A", 1.0)])]⟩ .empty ⟨"E1", 1, 1, 0⟩ =
        .ok ⟨⟨"E1", 1, 1, 0⟩, values, none, []⟩ := by
    with_unfolding_all rfl
  obtain ⟨-, solves, unique⟩ := calculateIn_unique_solution compiled calculated
  exact ⟨s, compiled, rfl, _, calculated, rfl, solves, unique⟩

end Calculator

end Rollforward
