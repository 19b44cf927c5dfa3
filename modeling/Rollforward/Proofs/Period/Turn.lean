import Rollforward.Proofs.Period.Fill
import Rollforward.Registry.Standard

/-!
# `Rollforward.Proofs.Period.Turn`: items meet only what is computed

The order of evaluation gives every position one turn. `Turn` is the state in which it comes, with
the positions before it filled and the others still to come. Two facts hold of every turn. The
position is empty, so its value can be written (`Turn.get?_eq_none`). What the item reads at the
period at hand has been written (`Turn.exists_get?_of_reads`), so the statement never answers one of
its formulas that an item is not yet computed (`Turn.resolve_statement_ne_notYetComputed`).

`compile_order_precedes_reads` says all of it of a template that compiles.
-/

set_option autoImplicit false

namespace Rollforward.Calculator

open Formula (Reference)

/-- The turn of the position `p` in the calculation of a period: the positions `before` it are
filled and make up the ledger `l`. -/
structure Turn (c : Calculator) (history : Series) (context : Context) (before : List Nat) (p : Nat)
    (after : List Nat) (l : Ledger) : Prop where
  order : c.statement.order = before ++ p :: after
  filled : c.fill history context (.ofSize c.statement.items.length) before = .ok l

variable {c : Calculator} {history : Series} {context : Context} {l : Ledger}

namespace Turn

variable {before after : List Nat} {p : Nat}

/-- The period goes on with the position whose turn it is. -/
theorem ledger_eq (turn : c.Turn history context before p after l) :
    c.ledger history context = c.fill history context l (p :: after) := by
  rw [ledger, turn.order, fill_append, turn.filled]

/-- A position is empty when its turn comes. -/
theorem get?_eq_none (compiled : c.statement.IsCompiled)
    (turn : c.Turn history context before p after l) : l.get? p = none := by
  have nodup := compiled.order_nodup
  rw [turn.order, List.nodup_append] at nodup
  have notBefore : p ∉ before := fun earlier => nodup.2.2 p earlier p List.mem_cons_self rfl
  rw [get?_fill_of_not_mem turn.filled notBefore]
  exact Ledger.get?_ofSize _ p

/-- What an item reads is written when its turn comes. -/
theorem exists_get?_of_reads (compiled : c.statement.IsCompiled)
    (turn : c.Turn history context before p after l) {q : Nat} {i j : Statement.Item}
    (hi : c.statement.items[p]? = some i) (hj : c.statement.items[q]? = some j)
    (reads : j.code ∈ Statement.readsOf c.statement.codes i) : ∃ v, l.get? q = some v := by
  have earlier : q ∈ before := compiled.mem_before_of_reads turn.order hi hj reads
  obtain ⟨first, rest, split⟩ := List.append_of_mem earlier
  have filled := turn.filled
  rw [split] at filled
  obtain ⟨middle, v, -, -, written⟩ := get?_fill_of_mem filled hj
  exact ⟨v, written⟩

/-- A formula gets a value for every item that it reads from the ledger. -/
theorem resolve_statement_now (compiled : c.statement.IsCompiled)
    (turn : c.Turn history context before p after l) {i : Statement.Item}
    (hi : c.statement.items[p]? = some i) {f : Statement.ItemFormula} (hf : i.formula = some f)
    {r : Reference} (hr : r ∈ f.expr.references)
    (claims : (Provider.statement c.statement l history).claims r = true) (now : r.offset = 0) :
    ∃ v, (Provider.statement c.statement l history).resolve r context = .ok v := by
  obtain ⟨bare, j, item, -⟩ := Provider.claims_statement_iff.1 claims
  obtain ⟨code, q, hq, position⟩ :=
    Statement.exists_position?_of_item? compiled.codes_nodup item
  have known : r.code ∈ c.statement.codes :=
    Statement.contains_iff_mem_codes.1 (Statement.contains_of_item? item)
  have reads : r.code ∈ Statement.readsOf c.statement.codes i :=
    compiled.mem_readsOf_of_reference (List.mem_of_getElem? hi) hf hr bare now known
  rw [← code] at reads
  obtain ⟨v, written⟩ := turn.exists_get?_of_reads compiled hi hq reads
  refine ⟨v, ?_⟩
  simp only [Provider.statement, now, if_true, position, Option.bind_some, written]

/-- No formula meets an item that is not yet computed. -/
theorem resolve_statement_ne_notYetComputed (compiled : c.statement.IsCompiled)
    (turn : c.Turn history context before p after l) {i : Statement.Item}
    (hi : c.statement.items[p]? = some i) {f : Statement.ItemFormula} (hf : i.formula = some f)
    {r : Reference} (hr : r ∈ f.expr.references)
    (claims : (Provider.statement c.statement l history).claims r = true) (name : String)
    (r' : Reference) :
    (Provider.statement c.statement l history).resolve r context ≠
      .error (.gap name r' .notYetComputed) := by
  by_cases now : r.offset = 0
  · obtain ⟨v, value⟩ := turn.resolve_statement_now compiled hi hf hr claims now
    rw [value]
    exact fun h => nomatch h
  · -- At another time the history answers, and what it lacks is unavailable.
    intro h
    have shifted : history.resolve r context = .error (.gap name r' .notYetComputed) :=
      (if_neg now).symm.trans h
    obtain ⟨t, unavailable⟩ := Series.eq_unavailable_of_resolve shifted
    unfold EvalError.unavailable at unavailable
    split at unavailable <;> cases unavailable

end Turn

/-- Positions that are empty and stand on the list once are written once. -/
theorem fill_ne_writtenTwice {ps : List Nat} (nodup : ps.Nodup)
    (empty : ∀ p ∈ ps, l.get? p = none) (code : String) :
    c.fill history context l ps ≠ .error (.writtenTwice code) := by
  induction ps generalizing l with
  | nil =>
      intro h
      cases h
  | cons p ps ih =>
      obtain ⟨once, rest⟩ := List.nodup_cons.1 nodup
      obtain ⟨first, later⟩ := List.forall_mem_cons.1 empty
      cases hp : c.statement.items[p]? with
      | none =>
          rw [fill_cons_of_none hp]
          exact ih rest later
      | some i =>
          rw [fill, hp]
          cases value : evalItem (c.itemEnvironment history context l) i with
          | error e =>
              simp only [value]
              intro h
              cases h
          | ok v =>
              obtain ⟨next, written⟩ := Ledger.exists_insert?_of_get?_eq_none first v
              simp only [value, written]
              -- Writing `p` fills no later position, as `p` is not on the list again.
              refine ih rest fun q hq => ?_
              have other : q ≠ p := by
                rintro rfl
                exact once hq
              rw [(Ledger.get?_of_insert? written).2 q, if_neg other]
              exact later q hq

/-- The order has each position once, so no item is written twice. -/
theorem calculateIn_ne_writtenTwice (compiled : c.statement.IsCompiled) (code : String) :
    c.calculateIn history context ≠ .error (.writtenTwice code) := by
  intro h
  unfold calculateIn at h
  split at h
  · next e failed =>
    obtain rfl : e = .writtenTwice code := Except.error.inj h
    exact fill_ne_writtenTwice compiled.order_nodup (fun p _ => Ledger.get?_ofSize _ p) code failed
  · dsimp only at h
    split at h
    · cases h
    · cases h

/-- In a template that compiles every position has one place in the order, behind the positions
whose items its own item reads at the period at hand. So in every calculation of a period, whatever
is known and whoever else is asked, a turn finds its position empty and all that its formula reads
computed. -/
theorem compile_order_precedes_reads {t : Template} {s : Statement}
    (compiled : Statement.compile t = .ok s) :
    s.order.Perm (List.range s.items.length) ∧
      (∀ p q i j f r, s.items[p]? = some i → s.items[q]? = some j → i.formula = some f →
        r ∈ f.expr.references → r.source = none → r.offset = 0 → r.code = j.code →
        s.order.idxOf q < s.order.idxOf p) ∧
      ∀ c : Calculator, c.statement = s → ∀ history context,
        (∀ before p after l, c.Turn history context before p after l →
          c.ledger history context = c.fill history context l (p :: after) ∧
          (∀ v, ∃ next, l.insert? p v = some next) ∧
          ∀ i f r, s.items[p]? = some i → i.formula = some f → r ∈ f.expr.references →
            (Provider.statement s l history).claims r = true →
            (r.offset = 0 →
              ∃ v, (Provider.statement s l history).resolve r context = .ok v) ∧
            ∀ name r', (Provider.statement s l history).resolve r context ≠
              .error (.gap name r' .notYetComputed)) ∧
        ∀ code, c.calculateIn history context ≠ .error (.writtenTwice code) := by
  have compiled := Statement.isCompiled_of_compile compiled
  refine ⟨compiled.order_perm, ?_, ?_⟩
  · intro p q i j f r hi hj hf hr bare now code
    -- A reference that names an item is one that the graph counts.
    have known : j.code ∈ s.codes := List.mem_map_of_mem (List.mem_of_getElem? hj)
    rw [← code] at known
    have reads : r.code ∈ Statement.readsOf s.codes i :=
      compiled.mem_readsOf_of_reference (List.mem_of_getElem? hi) hf hr bare now known
    rw [code] at reads
    exact compiled.idxOf_lt_of_reads hi hj reads
  · rintro c rfl history context
    refine ⟨fun before p after l turn => ⟨turn.ledger_eq, fun v => ?_, ?_⟩, fun code => ?_⟩
    · exact Ledger.exists_insert?_of_get?_eq_none (turn.get?_eq_none compiled) v
    · intro i f r hi hf hr claims
      exact ⟨turn.resolve_statement_now compiled hi hf hr claims,
        turn.resolve_statement_ne_notYetComputed compiled hi hf hr claims⟩
    · exact calculateIn_ne_writtenTwice compiled code

set_option maxRecDepth 20000 in
/-- The template lists `B` first, and its turn is the last. -/
theorem compile_order_precedes_reads_out_of_order :
    let template : Template :=
      { items := [{ code := "B", formula := some "A+C" }, { code := "A" },
          { code := "C", formula := some "A" }] }
    let context : Context := ⟨"E1", 1, 1, 0⟩
    ∃ s, Statement.compile template = .ok s ∧ s.order.idxOf 2 < s.order.idxOf 0 ∧
      let c : Calculator := ⟨s, .standard, {}, [.fixed (.ofList [("A", 1.0)])]⟩
      let l : Ledger := ⟨[none, some 1.0, some 1.0]⟩
      c.Turn .empty context [1, 2] 0 [] l ∧ (∃ next, l.insert? 0 2.0 = some next) ∧
        ∃ v, (Provider.statement s l .empty).resolve (.bare "C") context = .ok v := by
  intro template context
  let b : Statement.ItemFormula :=
    ⟨"A+C", .binary .add (.reference (.bare "A")) (.reference (.bare "C")), [.bare "A", .bare "C"]⟩
  let s : Statement :=
    { code := ""
      items := [
        { code := "B", formula := some b, declared := { code := "B", formula := some "A+C" } },
        { code := "A", formula := none, declared := { code := "A" } },
        { code := "C"
          formula := some ⟨"A", .reference (.bare "A"), [.bare "A"]⟩
          declared := { code := "C", formula := some "A" } }]
      order := [1, 2, 0]
      graph := ⟨["B", "A", "C"], [("B", "A"), ("B", "C"), ("C", "A")]⟩
      checks := [] }
  have compiled : Statement.compile template = .ok s := by
    unfold template s b
    cbv
  let c : Calculator := ⟨s, .standard, {}, [.fixed (.ofList [("A", 1.0)])]⟩
  let l : Ledger := ⟨[none, some 1.0, some 1.0]⟩
  have turn : c.Turn .empty context [1, 2] 0 [] l := ⟨rfl, by with_unfolding_all rfl⟩
  obtain ⟨-, earlier, turns⟩ := compile_order_precedes_reads compiled
  obtain ⟨-, empty, computed⟩ := (turns c rfl .empty context).1 _ _ _ _ turn
  have read := computed _ b (.bare "C") rfl rfl (by decide) (by decide)
  exact ⟨s, compiled, earlier 0 2 _ _ b (.bare "C") rfl rfl rfl (by decide) rfl rfl rfl, turn,
    empty 2.0, read.1 rfl⟩

end Rollforward.Calculator
