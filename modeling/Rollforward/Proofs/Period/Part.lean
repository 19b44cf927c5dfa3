import Rollforward.Proofs.Period.Cancellation
import Rollforward.Proofs.Period.Solvable
import Rollforward.Proofs.Provider.Target
import Rollforward.Proofs.Statement.Part
import Rollforward.Run.Execute

/-!
# `Rollforward.Proofs.Period.Part`: calculating a part of a statement

A part of a statement is calculated in front of a history with the same values for its own codes and
in front of providers that answer its own items alike. Then its items meet what they meet in the
whole (`Part.agreeOn_itemEnvironment`): what they read is in the part, and what is not in the part
they do not ask for or find outside both statements. So the values of the whole, as far as they are
values of the part, solve its equations, and the part has a ledger whenever the whole has one
(`Part.ledger_eq`). The order of evaluation of neither statement plays a role in this.

A part without rules is closed with these values (`Part.exists_closePeriod`), and asks for the run
to be cancelled only where the whole does (`Part.periodCancels`).
-/

set_option autoImplicit false

namespace Rollforward

open Formula (Reference)

/-! ### Histories -/

/-- The series have the same values for the codes at every time. -/
def Series.AgreeOn (codes : List String) (s s' : Series) : Prop :=
  ∀ t, ∀ code ∈ codes, s.value? t code = s'.value? t code

namespace Series.AgreeOn

variable {codes : List String} {s s' : Series}

/-- Histories that agree on some codes answer references to them alike, whatever the time. -/
theorem resolve_eq (h : AgreeOn codes s s') {r : Reference} (known : r.code ∈ codes)
    (context : Context) : s.resolve r context = s'.resolve r context :=
  resolve_congr (h _ r.code known)

/-- They agree on them still when each gets a snapshot that does. -/
theorem insert (h : AgreeOn codes s s') (t : Int) {values values' : Snapshot}
    (same : ∀ code ∈ codes, values.get? code = values'.get? code) :
    AgreeOn codes (s.insert t values) (s'.insert t values') := by
  intro u code known
  have other := h u code known
  unfold value? at other ⊢
  rw [Collection.OrderedMap.get?_insert, Collection.OrderedMap.get?_insert]
  by_cases here : u = t
  · rw [if_pos here, if_pos here]
    exact same code known
  · rw [if_neg here, if_neg here]
    exact other

end Series.AgreeOn

/-! ### Items -/

namespace Calculator

/-- The calculator `c'` has a part of the statement of `c`. The functions are the same, and the
caller's providers answer what the part asks for alike. -/
structure Part (context : Context) (c c' : Calculator) : Prop where
  statements : c.statement.Part c'.statement
  functions : c.functions = c'.functions
  answers : ∀ i ∈ c'.statement.items, Chain.AgreeOn i.asks context c.providers c'.providers

namespace Part

variable {context : Context} {c c' : Calculator} {history history' : Series}

section

variable (h : Part context c c') (compiled : c.statement.IsCompiled)
  (compiled' : c'.statement.IsCompiled)
  (histories : Series.AgreeOn c'.statement.codes history history')

include h compiled compiled' histories

/-- In front of the same values an item of the part meets what it meets in the whole. -/
theorem agreeOn_itemEnvironment {i : Statement.Item} (hi : i ∈ c'.statement.items)
    (values : Snapshot) :
    Environment.AgreeOn i.asks
      (c.itemEnvironment history context (.ofValues c.statement.items values))
      (c'.itemEnvironment history' context (.ofValues c'.statement.items values)) := by
  refine ⟨h.functions, rfl, fun r hr => ?_⟩
  have item := h.statements.item?_eq_of_asks compiled compiled' hi hr
  refine resolve_item_of_values_congr compiled compiled' ?_ ?_ ?_ (h.answers i hi r hr)
  · intro bare
    rw [Statement.contains_eq_isSome_item?, Statement.contains_eq_isSome_item?, item bare]
  · intro bare _ j found
    exact ⟨j, (item bare).trans found, rfl, rfl⟩
  · -- What is asked of another time is an item of the part too, so the histories agree on it.
    intro bare contained
    have known := Statement.contains_iff_mem_codes.1 contained
    exact histories.resolve_eq (h.statements.mem_codes_of_asks compiled hi hr bare known) context

/-- The values of the whole fulfil the equations of the part. -/
theorem equations {values : Snapshot} (solves : c.Solves history context values) :
    ∀ i ∈ c'.statement.items, ∃ v, values.get? i.code = some v ∧
      c'.Equation history' context values i v := by
  intro i hi
  have whole := h.statements.items hi
  obtain ⟨v, value, equation⟩ := solves.equations i whole
  refine ⟨v, value, ?_⟩
  rw [equation_iff compiled whole] at equation
  rw [equation_iff compiled' hi, ← equation]
  have agree := h.agreeOn_itemEnvironment compiled compiled' histories hi values
  exact agree.evalItem_eq.symm

/-- The values of the whole fill the ledger of the part. They solve its equations, and a fill comes
to the one solution there is. -/
theorem ledger_eq {values : Snapshot} (solves : c.Solves history context values) :
    c'.ledger history' context = .ok (.ofValues c'.statement.items values) :=
  ledger_of_equations compiled' (h.equations compiled compiled' histories solves)

/-! ### Periods -/

variable {invariants : List Check} {closing : Closing} (checks : c'.statement.checks = [])
  (closed : Runner.closePeriod c invariants history context = .ok closing)

include checks closed

/-- Where the whole is closed, a part without rules is closed with the values that its items have in
the whole. -/
theorem exists_closePeriod :
    ∃ part, Runner.closePeriod c' [] history' context = .ok part ∧
      part.context = closing.context ∧ part.violations = [] ∧
      ∀ code, part.values.get? code =
        if code ∈ c'.statement.codes then closing.values.get? code else none := by
  obtain ⟨calculated, ok, -, rfl⟩ := Runner.closePeriod_eq_ok closed
  have solves := solves_of_calculateIn compiled ok
  have ledger := h.ledger_eq compiled compiled' histories solves
  have same : calculated.context = context := by
    obtain ⟨l, -, rfl, -⟩ := calculateIn_eq_ok ok
    rfl
  let values := close c'.statement.items (.ofValues c'.statement.items calculated.values)
  refine ⟨⟨context, values, (context.shift? (-1)).bind history'.get?, []⟩, ?_, same.symm, rfl,
    get?_close_ofValues compiled' calculated.values⟩
  simp [Runner.closePeriod, calculateIn, ledger, checks, check, Check.violations, values]

/-- There it asks for the run to be cancelled only if the whole does. -/
theorem periodCancels (asks : Runner.periodCancels c' [] history' context = true) :
    Runner.periodCancels c invariants history context = true := by
  obtain ⟨calculated, ok, -, -⟩ := Runner.closePeriod_eq_ok closed
  have ledger := ledger_of_calculateIn compiled ok
  have ledger' := h.ledger_eq compiled compiled' histories (solves_of_calculateIn compiled ok)
  -- Without rules it is an item that asks.
  have filling : c'.fillCancels history' context (.ofSize c'.statement.items.length)
      c'.statement.order = true := by
    simpa [Runner.periodCancels, calculateCancels, calculateIn, ledger', checks, check,
      checkCancels, Check.violations, Check.cancels] using asks
  obtain ⟨i, hi, asks⟩ := (fillCancels_order_iff compiled' ledger').1 filling
  have agree := h.agreeOn_itemEnvironment compiled compiled' histories hi calculated.values
  have asks := agree.itemCancels_eq.trans asks
  have filling : c.fillCancels history context (.ofSize c.statement.items.length)
      c.statement.order = true :=
    (fillCancels_order_iff compiled ledger).2 ⟨i, h.statements.items hi, asks⟩
  simp [Runner.periodCancels, calculateCancels, filling]

end

end Part

end Calculator

end Rollforward
