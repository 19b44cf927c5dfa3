import Rollforward.Proofs.Statement.Basic
import Rollforward.Provider.Domain
import Rollforward.Provider.RawInput
import Rollforward.Provider.Statement

/-!
# `Rollforward.Proofs.Provider.Claims`: which references a provider answers for

A chain is read one provider at a time: the first either claims a reference and answers for it, or
leaves it to the others. `claims_statement_iff` and `claims_snapshot_iff` say what the items of a
period claim, before it is closed and after. The providers that a caller supplies
(`IsSupplied`) claim nothing of theirs at another time (`claims_of_isSupplied`).
-/

set_option autoImplicit false

namespace Rollforward

open Formula (Namespace Reference)

/-- A reference without a namespace to the period at hand is a bare code. -/
theorem Formula.Reference.eq_bare {r : Reference} (bare : r.source = none) (now : r.offset = 0) :
    r = .bare r.code := by
  cases r
  cases bare
  cases now
  rfl

/-! ### Chains -/

namespace Chain

variable {p : Provider} {c : Chain} {r : Reference}

/-- The first provider answers for what it claims. -/
theorem resolve_cons_of_claims (h : p.claims r = true) (context : Context) :
    resolve (p :: c) r context = p.resolve r context := by
  have first : claimant? (p :: c) r = some p := List.find?_cons_of_pos h
  rw [resolve, first]

/-- What the first provider does not claim is left to the others. -/
theorem resolve_cons_of_not_claims (h : ¬p.claims r = true) (context : Context) :
    resolve (p :: c) r context = resolve c r context := by
  have rest : claimant? (p :: c) r = claimant? c r := List.find?_cons_of_neg h
  rw [resolve, resolve, rest]

/-- The chains agree on a reference when their first providers claim it alike and answer it alike.
-/
theorem resolve_cons_congr {p' : Provider} {context : Context} (claims : p.claims r = p'.claims r)
    (answer : p.claims r = true → p.resolve r context = p'.resolve r context) :
    resolve (p :: c) r context = resolve (p' :: c) r context := by
  by_cases claimed : p.claims r = true
  · have claimed' : p'.claims r = true := claims ▸ claimed
    rw [resolve_cons_of_claims claimed, resolve_cons_of_claims claimed']
    exact answer claimed
  · have unclaimed' : ¬p'.claims r = true := claims ▸ claimed
    rw [resolve_cons_of_not_claims claimed, resolve_cons_of_not_claims unclaimed']

/-- Behind one provider, chains agree on what they agree on by themselves. -/
theorem resolve_cons_congr_right {c' : Chain} {context : Context}
    (others : resolve c r context = resolve c' r context) :
    resolve (p :: c) r context = resolve (p :: c') r context := by
  by_cases claimed : p.claims r = true
  · rw [resolve_cons_of_claims claimed, resolve_cons_of_claims claimed]
  · rw [resolve_cons_of_not_claims claimed, resolve_cons_of_not_claims claimed, others]

/-- What no provider claims has no value. -/
theorem resolve_of_unclaimed (h : ∀ p ∈ c, p.claims r = false) (context : Context) :
    resolve c r context = .error (.unresolved r) := by
  have none : c.claimant? r = none := by
    refine List.find?_eq_none.2 ?_
    intro p hp
    rw [h p hp]
    exact Bool.false_ne_true
  rw [resolve, none]

end Chain

/-! ### Series -/

/-- What a series does not have is unavailable, whatever else may be wrong. -/
theorem Series.eq_unavailable_of_resolve {s : Series} {r : Reference} {context : Context}
    {fault : EvalError} (h : s.resolve r context = .error fault) :
    ∃ t, fault = .unavailable r t := by
  unfold resolve targetTime at h
  split at h
  · next e off =>
    split at off
    · cases off
    · cases off
      cases h
      exact ⟨_, rfl⟩
  · split at h
    · cases h
    · cases h
      exact ⟨_, rfl⟩

namespace Provider

variable {r : Reference}

/-! ### The items of a period -/

/-- While a period is calculated, its computed items are claimed in the present, and all its items
at other times. -/
theorem claims_statement_iff {s : Statement} {l : Ledger} {history : Series} :
    (statement s l history).claims r = true ↔
      r.source = none ∧ ∃ i, s.item? r.code = some i ∧ (r.offset ≠ 0 ∨ i.isComputed = true) := by
  show (r.isUnqualified && _) = true ↔ _
  rw [Bool.and_eq_true, Reference.isUnqualified, Option.isNone_iff_eq_none]
  refine and_congr_right fun _ => ?_
  cases s.item? r.code with
  | none => simp
  | some i => simp

/-- When it is closed, all its values are claimed in the present, and any code at other times. -/
theorem claims_snapshot_iff {values : Snapshot} {history : Series} :
    (snapshot values history).claims r = true ↔
      r.source = none ∧ (r.offset ≠ 0 ∨ values.contains r.code = true) := by
  show (r.isUnqualified && _) = true ↔ _
  simp [Reference.isUnqualified]

/-! ### What a caller supplies -/

/-- Values that a caller supplies are claimed in the present only. -/
theorem claims_fixed_iff {values : Snapshot} {name : String} :
    (fixed values name).claims r = true ↔
      r.source = none ∧ r.offset = 0 ∧ values.contains r.code = true := by
  show (r.isUnqualified && r.offset == 0 && values.contains r.code) = true ↔ _
  simp [Reference.isUnqualified, and_assoc]

/-- A domain claims what is asked for under its name, whether it has a value or not. -/
theorem claims_domain_iff {written : String} {series : Series} :
    (domain written series).claims r = true ↔ r.source = some (Namespace.ofName written) :=
  beq_iff_eq

/-- The providers that a caller supplies: fixed values, raw inputs, and other domains. -/
inductive IsSupplied : Provider → Prop where
  | fixed (values : Snapshot) (name : String) : IsSupplied (.fixed values name)
  | rawInput (inputs : RawInputs) (claims : Claims) (calendar : Calendar) :
    IsSupplied (.rawInput inputs claims calendar)
  | domain (written : String) (series : Series) : IsSupplied (.domain written series)

/-- A reference without a namespace is claimed for the period at hand only. -/
theorem claims_of_isSupplied {p : Provider} (supplied : p.IsSupplied) (bare : r.source = none)
    (shifted : r.offset ≠ 0) : p.claims r = false := by
  have later : (r.offset == 0) = false := beq_eq_false_iff_ne.2 shifted
  cases supplied with
  | fixed values name =>
      refine eq_false_of_ne_true ?_
      intro claimed
      exact shifted (claims_fixed_iff.1 claimed).2.1
  | rawInput inputs claims calendar => simp [Provider.rawInput, bare, later]
  | domain written series => simp [Provider.domain, bare]

end Provider

end Rollforward
