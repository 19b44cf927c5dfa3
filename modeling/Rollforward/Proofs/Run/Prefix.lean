import Rollforward.Proofs.Provider.RawInput
import Rollforward.Proofs.Provider.Target
import Rollforward.Proofs.Run.Alike
import Rollforward.Registry.Standard

/-!
# `Rollforward.Proofs.Run.Prefix`: later periods do not reach earlier ones

A run over more periods goes the way of the run over the first of them and then on, if it gets that
far (`Runner.proceed_append`). The two runs begin differently in one thing only, the calendar of the
raw inputs, which holds the later periods too. A formula sees them where it reads a raw input ahead
of its own period. When no formula does, what a run says about its first periods is what it says
when it ends with them (`Runner.execute_append_results`).
-/

set_option autoImplicit false

namespace Rollforward

/-! ### Outcomes -/

namespace Outcome

/-- What an outcome says about the periods, one after the other: what each was closed with, and why
the next one failed, if one did. -/
def results (o : Outcome) : List (Except Failure Closing) :=
  o.closings.map .ok ++
    match o.ending with
    | .completed => []
    | .failed f => [.error f]

/-- The outcome of a run that goes on with `next` once it has completed. -/
def andThen (o : Outcome) (next : List Closing → Bool → Outcome) : Outcome :=
  match o.ending with
  | .failed _ => o
  | .completed =>
    let later := next o.closings o.cancelled
    ⟨o.closings ++ later.closings, later.ending, later.cancelled⟩

/-- A period that was closed earlier comes in front of what is done next. -/
theorem andThen_cons (closing : Closing) (o : Outcome) (next : List Closing → Bool → Outcome) :
    andThen ⟨closing :: o.closings, o.ending, o.cancelled⟩ next =
      let later := o.andThen fun closings asked => next (closing :: closings) asked
      ⟨closing :: later.closings, later.ending, later.cancelled⟩ := by
  obtain ⟨closings, ending, cancelled⟩ := o
  cases ending with
  | completed => rfl
  | failed f => rfl

end Outcome

namespace Runner

variable {r : Runner} {c : Calculator} {plan : Plan} {switch : Switch}

/-! ### More periods -/

/-- A run over `ps` and `qs` is the run over `ps`, which goes on with `qs` when it has completed. -/
theorem proceed_append (r : Runner) (c : Calculator) (plan : Plan) (switch : Switch) (index : Nat)
    (history : Series) (asked : Bool) (ps qs : List Nat) :
    r.proceed c plan switch index history asked (ps ++ qs) =
      (r.proceed c plan switch index history asked ps).andThen fun closings asks =>
        r.proceed c plan switch (index + ps.length) (history.record closings) asks qs := by
  induction ps generalizing index history asked with
  | nil => rfl
  | cons p ps ih =>
      rw [List.cons_append, proceed, proceed]
      by_cases pressed : (asked || switch.pressed index) = true
      · rw [if_pos pressed, if_pos pressed]
        rfl
      · rw [if_neg pressed, if_neg pressed]
        dsimp only
        cases closed : closePeriod c r.invariants history
            ⟨plan.entity, plan.scenario, p, r.options.start + index⟩ with
        | error e => rfl
        | ok closing =>
            have time : closing.context.time = r.options.start + index :=
              congrArg Context.time (context_of_closePeriod closed)
            dsimp only
            -- What is recorded behind the first period is recorded behind its own values.
            rw [ih, Outcome.andThen_cons, List.length_cons, Nat.add_right_comm index 1,
              Nat.add_assoc index]
            simp only [Series.record_cons, time]

/-- A run that begins with `ps` says about these periods what the run over them says. -/
theorem take_results_andThen {index : Nat} {history : Series} {ps : List Nat} {o : Outcome}
    (h : o.Unfolds r c plan index history ps) (next : List Closing → Bool → Outcome) :
    (o.andThen next).results.take ps.length = o.results := by
  unfold Outcome.andThen
  cases ending : o.ending with
  | failed f =>
      obtain ⟨-, period, -⟩ := h.failed f ending
      have room : o.closings.length < ps.length := (List.getElem?_eq_some_iff.1 period).1
      refine List.take_of_length_le ?_
      simp only [Outcome.results, ending, List.length_append, List.length_map,
        List.length_singleton]
      omega
  | completed =>
      have all : o.closings.length = ps.length := h.completed ending
      simp only [Outcome.results, ending, List.map_append, List.append_nil, List.append_assoc]
      refine List.take_left' ?_
      rw [List.length_map, all]

/-! ### More periods in the calendar -/

/-- No formula reads a raw input ahead of the period at hand. -/
def ReadsNoLaterInput (r : Runner) : Prop :=
  ∀ e ∈ r.statement.formulas r.invariants, ∀ ref ∈ e.references,
    ref.source = some .rawInput → ref.offset ≤ 0

/-- In the periods `ps` the raw inputs answer alike, whether or not the calendar goes on behind
them. -/
theorem agreeOn_append (back : r.ReadsNoLaterInput) (inputs : RawInputs) (others : Chain)
    {ps : List Nat} (qs : List Nat) {k p : Nat} (found : ps[k]? = some p) :
    Chain.AgreeOn (r.statement.asked r.invariants) (plan.contextAt r.options.start k p)
      (.rawInput inputs r.statement.claims (.sequential r.options.start ps) :: others)
      (.rawInput inputs r.statement.claims (.sequential r.options.start (ps ++ qs)) :: others) := by
  intro ref asked
  refine Chain.resolve_cons_congr rfl ?_
  intro claimed
  refine (Provider.resolve_rawInput_congr rfl rfl ?_ fun _ => rfl).symm
  refine Provider.rawPeriod_congr ?_
  intro shifted
  have bound : k < ps.length := (List.getElem?_eq_some_iff.1 found).1
  -- Bare codes are claimed in the period at hand only, so the reference stands in a formula.
  have offset : ref.offset ≤ 0 := by
    obtain prefixed | ⟨-, now, -⟩ := Provider.claims_rawInput_iff.1 claimed
    · obtain ⟨e, he, read⟩ | ⟨i, -, -, rfl⟩ := Statement.mem_asked_iff.1 asked
      · exact back e he ref read prefixed
      · cases prefixed
    · exact absurd now shifted
  -- The reference looks at a time of one of the periods `ps`, or at one before them.
  have before : r.options.start + k + ref.offset < r.options.start + ps.length := by omega
  exact Calendar.get?_sequential_append before qs

/-- A plan that fits the clock does so when it ends earlier. -/
theorem fits_of_append {start : Int} {ps qs : List Nat}
    (fits : { plan with periods := ps ++ qs }.fits start = true) :
    { plan with periods := ps }.fits start = true := by
  simp only [Plan.fits, Plan.lastIndex, List.length_append, Bool.and_eq_true, Bool.or_eq_true,
    decide_eq_true_eq] at fits ⊢
  obtain ⟨⟨opening, indices⟩, times⟩ := fits
  refine ⟨⟨opening, decide_eq_true ?_⟩, decide_eq_true ?_⟩
  · omega
  · omega

/-- The raw inputs of the runs over `ps`, and over `ps` and `qs`, are alike in the periods `ps`. -/
theorem rawAlike_append (back : r.ReadsNoLaterInput) (plan : Plan) (ps qs : List Nat) :
    RawAlike r r { plan with periods := ps } { plan with periods := ps ++ qs } fun context =>
      ∃ k p, ps[k]? = some p ∧ context = plan.contextAt r.options.start k p := by
  unfold RawAlike rawProvider
  dsimp only
  cases r.source with
  | none => exact Or.inr ⟨_, _, rfl, rfl, fun context _ ref _ => rfl⟩
  | some load =>
      dsimp only
      cases load plan.entity plan.scenario with
      | error message => exact Or.inl ⟨_, rfl, rfl⟩
      | ok records =>
          refine Or.inr ⟨_, _, rfl, rfl, ?_⟩
          rintro context ⟨k, p, found, rfl⟩
          exact agreeOn_append back _ _ qs found

/-- Later periods have no part in what a run says about its first ones, and neither has their
failure. When the plan fits the clock and no formula reads a raw input ahead of its period, the run
over `ps` and `qs` says about the periods `ps`, one after the other, what the run over `ps` says:
what each closes with, or where the run fails and why. -/
theorem execute_append_results {ps : List Nat} (nonempty : ps ≠ []) (qs : List Nat)
    (fits : { plan with periods := ps ++ qs }.fits r.options.start = true)
    (back : r.ReadsNoLaterInput) (switch : Switch) :
    (r.execute { plan with periods := ps ++ qs } switch).results.take ps.length =
      (r.execute { plan with periods := ps } switch).results := by
  rw [execute, execute]
  obtain ⟨e, failed, failed'⟩ | ⟨c, c', ready, ready', alike⟩ :=
    calculator_alike rfl rfl (.refl r.statement) (rawAlike_append back plan ps qs)
      (fits_of_append fits) fits
  · rw [failed, failed']
    cases ps with
    | nil => exact absurd rfl nonempty
    | cons p ps =>
        -- The failure is of the first period either way.
        exact List.take_of_length_le (Nat.le_add_left 1 ps.length)
  · rw [ready, ready']
    dsimp only
    let short : Plan := { plan with periods := ps }
    let long : Plan := { plan with periods := ps ++ qs }
    let history := plan.history r.options.start
    have first : r.proceed c' long switch 0 history false ps =
        r.proceed c short switch 0 history false ps := by
      refine proceed_alike rfl ?contexts ?alike switch history false
      case contexts => exact fun i p => rfl
      case alike =>
        intro k p found
        rw [Nat.zero_add]
        exact alike _ ⟨k, p, found, rfl⟩
    show (r.proceed c' long switch 0 history false (ps ++ qs)).results.take ps.length = _
    rw [proceed_append, first]
    exact take_results_andThen (unfolds_proceed r c short switch 0 history false ps) _

set_option maxRecDepth 20000 in
/-- There is no raw input for the third period, which fails. The first two close as they do without
it. -/
theorem execute_append_results_failure :
    let input : Formula.Reference := ⟨some .rawInput, "S", 0⟩
    let statement : Statement :=
      { code := ""
        items := [
          { code := "SALES", formula := some ⟨"rawinput:S", .reference input, [input]⟩
            declared := { code := "SALES", formula := some "rawinput:S" } }]
        order := [0]
        graph := ⟨["SALES"], []⟩
        checks := [] }
    let source : RawSource := fun _ _ => .ok [⟨"S", 7, 1.0⟩, ⟨"S", 8, 2.0⟩]
    let r : Runner := ⟨statement, .standard, {}, [], some source, []⟩
    let plan : Plan := ⟨"E1", 1, [], none, .empty⟩
    let long := r.execute { plan with periods := [7, 8] ++ [9] } .untouched
    let short := r.execute { plan with periods := [7, 8] } .untouched
    short.closings.map (fun closing => closing.values.toList) =
        [[("SALES", 1.0)], [("SALES", 2.0)]] ∧
      (∃ f, long.ending = .failed f ∧ f.index = 2) ∧
      long.results.take 2 = short.results := by
  intro input statement source r plan long short
  refine ⟨?_, ?_, ?_⟩
  · with_unfolding_all rfl
  · exact ⟨_, by with_unfolding_all rfl, rfl⟩
  · refine execute_append_results (List.cons_ne_nil 7 [8]) [9] (by decide) ?_ .untouched
    intro e he ref read prefixed
    obtain rfl : e = .reference input := List.mem_singleton.1 he
    obtain rfl : ref = input := List.mem_singleton.1 read
    decide

end Runner

end Rollforward
