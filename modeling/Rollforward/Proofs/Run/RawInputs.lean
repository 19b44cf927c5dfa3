import Rollforward.Proofs.Provider.RawInput
import Rollforward.Proofs.Run.Alike
import Rollforward.Registry.Standard

/-!
# `Rollforward.Proofs.Run.RawInputs`: raw inputs are read where the template asks for them

A run asks for the raw inputs that its formulas name and for those that the items without formula
take their values from (`Runner.AsksRawInput`). Sources that agree on these give the same outcome,
whatever else they hold: a key may be the code of an item with a formula, and its value is still not
looked at.

The raw-input reference of a line with a formula names no key that is asked for. It can be changed
or left out, and every run keeps its outcome.
-/

set_option autoImplicit false

namespace Rollforward

open Formula (Reference)

/-- The claims hold codes of items without formula. -/
theorem Statement.exists_item_of_claims {s : Statement} {code key : String}
    (claimed : s.claims.get? code = some key) :
    ∃ i ∈ s.items, i.isComputed = false ∧ i.code = code := by
  have entry := Collection.OrderedMap.mem_of_get?_ofList claimed
  obtain ⟨i, raw, same⟩ := List.mem_map.1 entry
  obtain ⟨hi, raw⟩ := List.mem_filter.1 raw
  exact ⟨i, hi, beq_iff_eq.1 raw, congrArg Prod.fst same⟩

namespace Runner

variable {r : Runner} {plan : Plan}

/-- The run asks for the raw input `key`: a formula names it, or an item without formula takes its
value from it. -/
def AsksRawInput (r : Runner) (key : String) : Prop :=
  (∃ e ∈ r.statement.formulas r.invariants, ∃ ref ∈ e.references,
    ref.source = some .rawInput ∧ ref.code = key) ∨
  ∃ i ∈ r.statement.items, i.isComputed = false ∧ r.statement.claims.get? i.code = some key

/-! ### Other raw inputs -/

/-- A period asks the raw inputs for keys that the run asks for. -/
theorem asksRawInput_rawKey {inputs : RawInputs} {calendar : Calendar} {ref : Reference}
    (asked : ref ∈ r.statement.asked r.invariants)
    (claimed : (Provider.rawInput inputs r.statement.claims calendar).claims ref = true) :
    r.AsksRawInput (Provider.rawKey r.statement.claims ref) := by
  unfold Provider.rawKey
  obtain prefixed | ⟨bare, -, key, claimed⟩ := Provider.claims_rawInput_iff.1 claimed
  · rw [if_pos prefixed]
    obtain ⟨e, he, read⟩ | ⟨i, -, -, rfl⟩ := Statement.mem_asked_iff.1 asked
    · exact Or.inl ⟨e, he, ref, read, prefixed, rfl⟩
    · cases prefixed
  · have unprefixed : ¬ref.source = some .rawInput := by
      rw [bare]
      exact fun h => nomatch h
    rw [if_neg unprefixed, claimed]
    obtain ⟨i, hi, raw, code⟩ := Statement.exists_item_of_claims claimed
    rw [← code] at claimed
    exact Or.inr ⟨i, hi, raw, claimed⟩

/-- Raw inputs that agree on what the run asks for answer a period alike. -/
theorem agreeOn_rawInput {inputs inputs' : RawInputs} (entity : inputs'.entity = inputs.entity)
    (scenario : inputs'.scenario = inputs.scenario)
    (values : ∀ key, r.AsksRawInput key → ∀ p, inputs'.get? key p = inputs.get? key p)
    (calendar : Calendar) (context : Context) (others : Chain) :
    Chain.AgreeOn (r.statement.asked r.invariants) context
      (.rawInput inputs r.statement.claims calendar :: others)
      (.rawInput inputs' r.statement.claims calendar :: others) := by
  intro ref asked
  -- Which references the raw inputs claim has nothing to do with what they hold.
  refine Chain.resolve_cons_congr rfl ?_
  intro claimed
  have key := asksRawInput_rawKey asked claimed
  exact (Provider.resolve_rawInput_congr entity scenario rfl (values _ key)).symm

/-- Sources that agree on what the run asks for give the plan the same outcome. -/
theorem execute_eq_of_sources {load load' : RawSource} {records records' : List RawInput}
    (loads : load plan.entity plan.scenario = .ok records)
    (loads' : load' plan.entity plan.scenario = .ok records')
    (values : ∀ key, r.AsksRawInput key → ∀ p,
      (RawInputs.ofRecords plan.entity plan.scenario records').get? key p =
        (RawInputs.ofRecords plan.entity plan.scenario records).get? key p)
    (switch : Switch) :
    { r with source := some load' }.execute plan switch =
      { r with source := some load }.execute plan switch := by
  let inputs := RawInputs.ofRecords plan.entity plan.scenario records
  let inputs' := RawInputs.ofRecords plan.entity plan.scenario records'
  have entity : inputs'.entity = inputs.entity := rfl
  have scenario : inputs'.scenario = inputs.scenario := rfl
  let before : Runner := { r with source := some load }
  let after : Runner := { r with source := some load' }
  refine @execute_alike before after plan rfl rfl rfl (.refl r.statement) (Or.inr ?_) switch
  unfold before after rawProvider
  dsimp only
  rw [loads, loads']
  refine ⟨_, _, rfl, rfl, ?_⟩
  intro context _
  exact agreeOn_rawInput entity scenario values _ context r.providers

/-! ### Other raw-input references -/

/-- Runners whose statements are alike run a plan to the same outcome. -/
theorem execute_eq_of_alike {s : Statement} (alike : r.statement.Alike s) (plan : Plan)
    (switch : Switch) : { r with statement := s }.execute plan switch = r.execute plan switch := by
  refine @execute_alike r { r with statement := s } plan rfl rfl rfl alike ?_ switch
  have raw : { r with statement := s }.rawProvider plan = r.rawProvider plan := by
    unfold rawProvider
    rw [alike.claims_eq]
  unfold RawAlike
  rw [raw]
  cases r.rawProvider plan with
  | error e => exact Or.inl ⟨e, rfl, rfl⟩
  | ok chain => exact Or.inr ⟨chain, chain, rfl, rfl, fun context _ ref _ => rfl⟩

end Runner

/-- Beside a formula the raw-input reference of a line does not matter. -/
theorem LineItem.alike_of_formula {line : LineItem} (formula : line.activeFormula? ≠ none)
    (reference : Option String) : line.Alike { line with rawReference := reference } :=
  ⟨rfl, rfl, fun none => absurd none formula⟩

/-- A line in place of one that is alike leaves the lines alike. -/
theorem LineItem.forall₂_alike_set {lines : List LineItem} {n : Nat} {line line' : LineItem}
    (found : lines[n]? = some line) (alike : line.Alike line') :
    List.Forall₂ LineItem.Alike lines (lines.set n line') := by
  induction lines generalizing n with
  | nil => cases found
  | cons first rest ih =>
      have same : ∀ other : LineItem, other.Alike other := fun _ => ⟨rfl, rfl, fun _ => rfl⟩
      cases n with
      | zero =>
          obtain rfl : first = line := Option.some.inj found
          exact .cons alike (List.forall₂_same.2 fun other _ => same other)
      | succ n => exact .cons (same first) (ih found)

namespace Runner

variable {r : Runner} {t : Template}

/-- A run reads the raw inputs that it asks for and no other. Sources that agree on the keys that a
formula names, or that an item without formula takes its value from, give the same outcome. A
raw-input reference beside a formula is not read: with another one, or with none, the template still
compiles, and every run has the outcome that it had. -/
theorem execute_reads_asked_raw_inputs (compiled : Statement.compile t = .ok r.statement) :
    (∀ (plan : Plan) (switch : Switch) (load load' : RawSource) (records records' : List RawInput),
      load plan.entity plan.scenario = .ok records →
      load' plan.entity plan.scenario = .ok records' →
      (∀ key, r.AsksRawInput key → ∀ p,
        (RawInputs.ofRecords plan.entity plan.scenario records').get? key p =
          (RawInputs.ofRecords plan.entity plan.scenario records).get? key p) →
      { r with source := some load' }.execute plan switch =
        { r with source := some load }.execute plan switch) ∧
    ∀ (n : Nat) (line : LineItem) (reference : Option String), t.items[n]? = some line →
      line.activeFormula? ≠ none →
      ∃ s, Statement.compile
          { t with items := t.items.set n { line with rawReference := reference } } = .ok s ∧
        ∀ (plan : Plan) (switch : Switch),
          { r with statement := s }.execute plan switch = r.execute plan switch := by
  constructor
  · intro plan switch load load' records records' loads loads' values
    exact execute_eq_of_sources loads loads' values switch
  · intro n line reference found formula
    have lines := LineItem.forall₂_alike_set found (LineItem.alike_of_formula formula reference)
    obtain ⟨s, compiled', alike⟩ := Statement.exists_alike_of_compile lines compiled
    exact ⟨s, compiled', execute_eq_of_alike alike⟩

set_option maxRecDepth 20000 in
/-- `REVENUE` reads a raw input of its own name, `PRICE` takes its value from the key `P`. Records
under `PRICE` and under the key that is declared beside the formula are not read. -/
theorem execute_reads_asked_raw_inputs_coincidence :
    let line : LineItem :=
      { code := "REVENUE"
        formula := some "rawinput:REVENUE+PRICE"
        rawReference := some "driver: X" }
    let template : Template :=
      { items := [{ code := "PRICE", rawReference := some "driver: P" }, line] }
    let records : List RawInput := [⟨"P", 7, 1.0⟩, ⟨"REVENUE", 7, 100.0⟩]
    let unread : List RawInput := [⟨"X", 7, 9.0⟩, ⟨"PRICE", 7, 50.0⟩]
    ∃ s, Statement.compile template = .ok s ∧
      let r : Runner := ⟨s, .standard, {}, [], none, []⟩
      let plan : Plan := ⟨"E1", 1, [7], none, .empty⟩
      let o := { r with source := some fun _ _ => .ok records }.execute plan .untouched
      o.closings.map (fun closing => closing.values.toList) =
          [[("PRICE", 1.0), ("REVENUE", 101.0)]] ∧
        { r with source := some fun _ _ => .ok (unread ++ records) }.execute plan .untouched = o ∧
        ∃ s', Statement.compile
            { template with items := template.items.set 1 { line with rawReference := none } } =
              .ok s' ∧
          ∀ plan switch,
            { r with statement := s' }.execute plan switch = r.execute plan switch := by
  intro line template records unread
  let f : Statement.ItemFormula :=
    ⟨"rawinput:REVENUE+PRICE",
      .binary .add (.reference ⟨some .rawInput, "REVENUE", 0⟩) (.reference (.bare "PRICE")),
      [.bare "PRICE", ⟨some .rawInput, "REVENUE", 0⟩]⟩
  let s : Statement :=
    { code := ""
      items := [
        { code := "PRICE", formula := none
          declared := { code := "PRICE", rawReference := some "driver: P" } },
        { code := "REVENUE", formula := some f, declared := line }]
      order := [0, 1]
      graph := ⟨["PRICE", "REVENUE"], [("REVENUE", "PRICE")]⟩
      checks := [] }
  have compiled : Statement.compile template = .ok s := by
    unfold template line s f
    cbv
  have claimed : s.claims.get? "PRICE" = some "P" := by
    with_unfolding_all rfl
  refine ⟨s, compiled, ?_⟩
  intro r plan o
  have asked : ∀ key, r.AsksRawInput key → key = "P" ∨ key = "REVENUE" := by
    rintro key (⟨e, he, ref, read, prefixed, rfl⟩ | ⟨i, hi, raw, claims⟩)
    · obtain rfl : e = f.expr := List.mem_singleton.1 he
      simp [f, Formula.Expr.references] at read
      obtain rfl | rfl := read
      · exact Or.inr rfl
      · cases prefixed
    · simp [r, s] at hi
      obtain rfl | rfl := hi
      · exact Or.inl (Option.some.inj (claims.symm.trans claimed))
      · cases raw
  obtain ⟨sources, references⟩ :=
    execute_reads_asked_raw_inputs (show Statement.compile template = .ok r.statement from compiled)
  refine ⟨?_, ?_, references 1 line none rfl ?_⟩
  · unfold o r plan records s f line
    with_unfolding_all rfl
  · refine sources _ _ _ _ records (unread ++ records) rfl rfl ?_
    intro key ask p
    obtain rfl | rfl := asked key ask
    · simp [RawInputs.get?, RawInputs.ofRecords, records, unread, List.find?_cons]
    · simp [RawInputs.get?, RawInputs.ofRecords, records, unread, List.find?_cons]
  · unfold line
    cbv
    simp

end Runner

end Rollforward
