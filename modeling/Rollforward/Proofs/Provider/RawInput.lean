import Rollforward.Proofs.Collection.OrderedMap
import Rollforward.Proofs.Provider.Claims

/-!
# `Rollforward.Proofs.Provider.RawInput`: what is read of raw inputs and of the calendar

A raw input is read by its key in one period, the one at hand or one that the calendar has at
another time. `RawInput.Answer` says what comes of it, in terms of the records as they were loaded.
`Provider.resolve_rawInput_congr` says that nothing else of the inputs and of the calendar matters,
and `Calendar.get?_sequential_eq_some_iff` what a calendar of consecutive periods has.
-/

set_option autoImplicit false

namespace Rollforward

open Formula (Reference)

/-! ### Calendars -/

namespace Calendar

/-- The entries are the periods at consecutive times, as far as the clock goes. -/
theorem mem_entriesFrom_iff {first u : Int} {p : Nat} {ps : List Nat} :
    (u, p) ∈ entriesFrom first ps ↔
      ∃ k : Nat, u = first + k ∧ ps[k]? = some p ∧ u ≤ Clock.highest := by
  induction ps generalizing first with
  | nil => simp [entriesFrom]
  | cons q ps ih =>
      rw [entriesFrom]
      by_cases onClock : first ≤ Clock.highest
      · rw [if_pos onClock, List.mem_cons, ih, Prod.mk.injEq]
        constructor
        · rintro (⟨rfl, rfl⟩ | ⟨k, rfl, found, le⟩)
          · exact ⟨0, by omega, rfl, onClock⟩
          · exact ⟨k + 1, by omega, found, le⟩
        · rintro ⟨k, rfl, found, le⟩
          cases k with
          | zero => exact Or.inl ⟨by omega, (Option.some.inj found).symm⟩
          | succ k => exact Or.inr ⟨k, by omega, found, le⟩
      · rw [if_neg onClock]
        constructor
        · intro h
          cases h
        · -- The times ascend, so behind one off the clock there is none on it.
          rintro ⟨k, rfl, -, le⟩
          omega

/-- The periods of a plan stand at different times, so each has its own entry in the calendar. -/
theorem nodup_entriesFrom (first : Int) (ps : List Nat) :
    ((entriesFrom first ps).map Prod.fst).Nodup := by
  induction ps generalizing first with
  | nil => exact List.nodup_nil
  | cons p ps ih =>
      rw [entriesFrom]
      split
      · refine List.nodup_cons.2 ⟨?_, ih (first + 1)⟩
        intro again
        obtain ⟨⟨u, q⟩, entry, same⟩ := List.mem_map.1 again
        obtain ⟨k, later, -⟩ := mem_entriesFrom_iff.1 entry
        have same : u = first := same
        omega
      · exact List.nodup_nil

/-- The calendar has the period number `k` at the time `k` steps from the first. -/
theorem get?_sequential_eq_some_iff {start u : Int} {p : Nat} {periods : List Nat} :
    (sequential start periods).get? u = some p ↔
      ∃ k : Nat, u = start + k ∧ periods[k]? = some p ∧ u ≤ Clock.highest := by
  rw [sequential, Collection.OrderedMap.get?_ofList_eq_some_iff (nodup_entriesFrom start periods),
    mem_entriesFrom_iff]

/-- Periods behind others have no part in what the calendar has at the times of these. -/
theorem get?_sequential_append {start u : Int} {ps : List Nat} (before : u < start + ps.length)
    (qs : List Nat) : (sequential start (ps ++ qs)).get? u = (sequential start ps).get? u := by
  refine Option.ext ?_
  intro p
  rw [get?_sequential_eq_some_iff, get?_sequential_eq_some_iff]
  refine exists_congr fun k => and_congr_right fun time => ?_
  have bound : k < ps.length := by omega
  rw [List.getElem?_append_left bound]

end Calendar

/-! ### Records -/

/-- Of the records that are of the key and the period, the last has the value `v`. -/
def RawInput.IsLast (records : List RawInput) (key : String) (period : Nat) (v : Float) : Prop :=
  ∃ before after, records = before ++ ⟨key, period, v⟩ :: after ∧
    ∀ x ∈ after, ¬(x.key = key ∧ x.period = period)

namespace RawInputs

variable {entity : String} {scenario : Nat} {records : List RawInput} {key : String} {period : Nat}

/-- Where nothing is found there is no record. -/
theorem get?_ofRecords_eq_none_iff :
    (ofRecords entity scenario records).get? key period = none ↔
      ∀ x ∈ records, ¬(x.key = key ∧ x.period = period) := by
  simp [get?, ofRecords]

/-- Of two records for one key and period the later counts. -/
theorem get?_ofRecords_eq_some_iff {v : Float} :
    (ofRecords entity scenario records).get? key period = some v ↔
      RawInput.IsLast records key period v := by
  unfold get? ofRecords RawInput.IsLast
  simp only [Option.map_eq_some_iff, List.find?_eq_some_iff_append]
  constructor
  · rintro ⟨⟨key', period', v'⟩, ⟨here, after, before, split, later⟩, rfl⟩
    obtain ⟨rfl, rfl⟩ : key' = key ∧ period' = period := by simpa using here
    refine ⟨before.reverse, after.reverse, by simpa using congrArg List.reverse split, ?_⟩
    intro x hx same
    have differ := later x (List.mem_reverse.1 hx)
    simp [same.1, same.2] at differ
  · rintro ⟨before, after, rfl, later⟩
    refine ⟨⟨key, period, v⟩, ⟨by simp, after.reverse, before.reverse, by simp, ?_⟩, rfl⟩
    intro x hx
    have differ := later x (List.mem_reverse.1 hx)
    simpa [imp_iff_not_or] using differ

end RawInputs

/-- What the records of an entity and scenario answer to a reference that reads a key in a period:
the last record of the two, or that there is none. -/
inductive RawInput.Answer (entity : String) (scenario : Nat) (records : List RawInput)
    (r : Reference) (key : String) (period : Nat) : Except EvalError Float → Prop where
  | last {v : Float} (last : IsLast records key period v) :
    Answer entity scenario records r key period (.ok v)
  | missing (missing : ∀ x ∈ records, ¬(x.key = key ∧ x.period = period)) :
    Answer entity scenario records r key period
      (.error (.gap Provider.rawInputName r (.noRecord key period entity scenario)))

/-! ### Raw inputs -/

namespace Provider

variable {inputs inputs' : RawInputs} {claims : Claims} {calendar calendar' : Calendar}
  {r : Reference} {context : Context}

/-- Raw inputs claim what is asked for under their prefix and, in the present, the codes of the
items without a formula. -/
theorem claims_rawInput_iff :
    (rawInput inputs claims calendar).claims r = true ↔
      r.source = some .rawInput ∨
        r.source = none ∧ r.offset = 0 ∧ ∃ key, claims.get? r.code = some key := by
  rw [← Collection.OrderedMap.contains_eq_true_iff]
  cases source : r.source with
  | none => simp [rawInput, source]
  | some space => cases space <;> simp [rawInput, source]

/-- Raw inputs answer from the period that the reference reads. -/
theorem answer_of_rawPeriod (claims : Claims) (entity : String) (scenario : Nat)
    (records : List RawInput) {p : Nat} (period : rawPeriod calendar r context = .ok p) :
    RawInput.Answer entity scenario records r (rawKey claims r) p
      ((rawInput (.ofRecords entity scenario records) claims calendar).resolve r context) := by
  simp only [rawInput, period]
  cases found : (RawInputs.ofRecords entity scenario records).get? (rawKey claims r) p with
  | none => exact .missing (RawInputs.get?_ofRecords_eq_none_iff.1 found)
  | some v => exact .last (RawInputs.get?_ofRecords_eq_some_iff.1 found)

/-- In a chain with raw inputs in front a bare code is read in the period at hand, by the key that
the claims give it. -/
theorem answer_bare {code key : String} (claim : claims.get? code = some key) (calendar : Calendar)
    (context : Context) (entity : String) (scenario : Nat) (records : List RawInput)
    (rest : Chain) :
    RawInput.Answer entity scenario records (.bare code) key context.period
      (Chain.resolve (rawInput (.ofRecords entity scenario records) claims calendar :: rest)
        (.bare code) context) := by
  have claimed : (rawInput (.ofRecords entity scenario records) claims calendar).claims
      (.bare code) = true :=
    claims_rawInput_iff.2 (Or.inr ⟨rfl, rfl, key, claim⟩)
  have read : rawKey claims (.bare code) = key := by
    show (claims.get? code).getD code = key
    rw [claim, Option.getD_some]
  have answer := @answer_of_rawPeriod calendar (.bare code) context claims entity scenario records
    context.period rfl
  rwa [read, ← Chain.resolve_cons_of_claims claimed] at answer

/-- Where there is no period to read, the reference has no value for the same reason. -/
theorem resolve_rawInput_of_rawPeriod_eq_error {e : EvalError}
    (failed : rawPeriod calendar r context = .error e) :
    (rawInput inputs claims calendar).resolve r context = .error e := by
  simp only [rawInput, failed]

/-- Inputs of one entity and scenario answer alike when they have the same value for the key in the
period that is read. -/
theorem resolve_rawInput_congr (entity : inputs'.entity = inputs.entity)
    (scenario : inputs'.scenario = inputs.scenario)
    (period : rawPeriod calendar' r context = rawPeriod calendar r context)
    (values : ∀ p, inputs'.get? (rawKey claims r) p = inputs.get? (rawKey claims r) p) :
    (rawInput inputs' claims calendar').resolve r context =
      (rawInput inputs claims calendar).resolve r context := by
  simp only [rawInput, period, entity, scenario, values]

/-- Raw inputs under claims that agree on the code of a reference answer it alike. A reference with
a prefix does not go through the claims. -/
theorem resolve_cons_rawInput_congr {claims' : Claims}
    (same : r.source = none → claims'.get? r.code = claims.get? r.code) (others : Chain) :
    Chain.resolve (rawInput inputs claims calendar :: others) r context =
      Chain.resolve (rawInput inputs claims' calendar :: others) r context := by
  refine Chain.resolve_cons_congr ?_ fun claimed => ?_
  · rw [Bool.eq_iff_iff, claims_rawInput_iff, claims_rawInput_iff]
    refine or_congr_right (and_congr_right fun bare => ?_)
    rw [same bare]
  · obtain prefixed | ⟨bare, -⟩ := claims_rawInput_iff.1 claimed
    · simp only [rawInput, rawKey, if_pos prefixed]
    · simp only [rawInput, rawKey, same bare]

end Provider

end Rollforward
