import Mathlib.Data.List.Pairwise
import Rollforward.Proofs.Provider.RawInput
import Rollforward.Proofs.Statement.Compile

/-!
# `Rollforward.Proofs.Provider.Disjoint`: when the order of a chain does not matter

In a chain the first provider that claims a reference answers for it. When no two of them claim the
same reference (`Chain.Disjoint`) there is only one to be the first, and the chain answers alike in
every order (`Chain.Disjoint.claimant?_perm`).

The items of a statement, its raw inputs and other domains are disjoint. A prefix belongs to one of
them alone. A bare code at another time belongs to the items, and in the period at hand an item is
claimed by the items when it has a formula, and by the raw inputs when it has none
(`Provider.not_claims_rawInput_of_claims_statement`). That an item never has and lacks a formula at
once is where `compile` comes in: no code stands twice.
-/

set_option autoImplicit false

namespace Rollforward

open Formula (Namespace Reference)

/-! ### Chains -/

namespace Chain

/-- No two providers of the chain claim the same reference. -/
def Disjoint (c : Chain) : Prop :=
  c.Pairwise fun p q => ∀ r, ¬(p.claims r = true ∧ q.claims r = true)

/-- The claimant of a reference is a provider of the chain that claims it. -/
theorem mem_and_claims_of_claimant? {c : Chain} {r : Reference} {p : Provider}
    (found : c.claimant? r = some p) : p ∈ c ∧ p.claims r = true := by
  unfold claimant? at found
  exact ⟨List.mem_of_find?_eq_some found, by simpa using List.find?_some found⟩

namespace Disjoint

variable {c c' : Chain} {r : Reference}

/-- Whoever claims a reference is the one that does. -/
theorem eq_of_claims (h : Disjoint c) {p q : Provider} (hp : p ∈ c) (hq : q ∈ c)
    (claimed : p.claims r = true) (claimed' : q.claims r = true) : p = q := by
  by_contra differ
  have symmetric : Std.Symm fun p q : Provider => ∀ r, ¬(p.claims r = true ∧ q.claims r = true) :=
    ⟨fun p q apart r both => apart r both.symm⟩
  exact List.Pairwise.forall h hp hq differ r ⟨claimed, claimed'⟩

/-- In another order the same provider answers for a reference, if any does. -/
theorem claimant?_perm (h : Disjoint c) (perm : c.Perm c') (r : Reference) :
    c'.claimant? r = c.claimant? r := by
  cases found : c.claimant? r with
  | none =>
      refine List.find?_eq_none.2 fun p hp => ?_
      exact List.find?_eq_none.1 found p (perm.mem_iff.2 hp)
  | some p =>
      obtain ⟨member, claimed⟩ := mem_and_claims_of_claimant? found
      obtain ⟨q, found'⟩ : ∃ q, c'.claimant? r = some q :=
        Option.isSome_iff_exists.1 (List.find?_isSome.2 ⟨p, perm.mem_iff.1 member, claimed⟩)
      obtain ⟨member', claimed'⟩ := mem_and_claims_of_claimant? found'
      rw [found', h.eq_of_claims (perm.mem_iff.2 member') member claimed' claimed]

/-- In a chain in which no two providers claim the same reference, the order of the providers does
not matter. -/
theorem resolve_perm (h : Disjoint c) (perm : c.Perm c') (r : Reference) (context : Context) :
    c'.resolve r context = c.resolve r context := by
  rw [resolve, resolve, h.claimant?_perm perm]

end Disjoint

end Chain

/-! ### The providers of a statement -/

namespace Provider

variable {r : Reference}

/-- Of the items of a period the raw inputs claim those that the period does not compute. -/
theorem not_claims_rawInput_of_claims_statement {s : Statement} (nodup : s.codes.Nodup)
    {l : Ledger} {history : Series} (inputs : RawInputs) (calendar : Calendar)
    (claimed : (statement s l history).claims r = true) :
    ¬(rawInput inputs s.claims calendar).claims r = true := by
  obtain ⟨bare, i, item, shifted | computed⟩ := claims_statement_iff.1 claimed
  · rw [claims_rawInput_iff]
    rintro (prefixed | ⟨-, now, -⟩)
    · cases bare.symm.trans prefixed
    · exact shifted now
  · rw [claims_rawInput_iff]
    rintro (prefixed | ⟨-, -, key, raw⟩)
    · cases bare.symm.trans prefixed
    · obtain ⟨hi, code⟩ := (Statement.item?_eq_some_iff nodup).1 item
      obtain ⟨j, hj, without, code', -⟩ := (Statement.get?_claims_eq_some_iff nodup).1 raw
      -- Both have the code of the reference, so they are one item.
      obtain rfl : i = j := Statement.eq_of_code_eq nodup hi hj (code.trans code'.symm)
      cases computed.symm.trans without

/-- Domains claim what has their own prefix. -/
theorem disjoint_map_domain {domains : List (String × Series)}
    (apart : (domains.map fun d => Namespace.ofName d.1).Nodup) :
    Chain.Disjoint (domains.map fun d => domain d.1 d.2) := by
  refine List.pairwise_map.2 ((List.pairwise_map.1 apart).imp ?_)
  rintro ⟨written, series⟩ ⟨written', series'⟩ differ r ⟨claimed, claimed'⟩
  rw [claims_domain_iff] at claimed claimed'
  exact differ (Option.some.inj (claimed.symm.trans claimed'))

end Provider

namespace Chain

/-- The items of a compiled template, its raw inputs, and domains under names of their own claim no
reference twice. So a chain of them has the same claimant and the same answer for a reference in
every order. -/
theorem resolve_perm_of_compile {t : Template} {s : Statement}
    (compiled : Statement.compile t = .ok s) (l : Ledger) (history : Series) (inputs : RawInputs)
    (calendar : Calendar) {domains : List (String × Series)}
    (apart : (domains.map fun d => Namespace.ofName d.1).Nodup)
    (named : ∀ d ∈ domains, Namespace.ofName d.1 ≠ .rawInput) {c : Chain}
    (made : c.Perm (.statement s l history :: .rawInput inputs s.claims calendar ::
      domains.map fun d => .domain d.1 d.2)) :
    c.Disjoint ∧ ∀ c' : Chain, c.Perm c' → ∀ r,
      c'.claimant? r = c.claimant? r ∧
        ∀ context, c'.resolve r context = c.resolve r context := by
  have nodup := (Statement.isCompiled_of_compile compiled).codes_nodup
  have disjoint : Disjoint (.statement s l history :: .rawInput inputs s.claims calendar ::
      domains.map fun d => .domain d.1 d.2) := by
    refine List.pairwise_cons.2 ⟨?items, List.pairwise_cons.2 ⟨?inputs, ?domains⟩⟩
    case items =>
      intro q hq r ⟨claimed, claimed'⟩
      obtain rfl | hq := List.mem_cons.1 hq
      · exact Provider.not_claims_rawInput_of_claims_statement nodup inputs calendar claimed
          claimed'
      · obtain ⟨d, -, rfl⟩ := List.mem_map.1 hq
        have bare := (Provider.claims_statement_iff.1 claimed).1
        cases bare.symm.trans (Provider.claims_domain_iff.1 claimed')
    case inputs =>
      intro q hq r ⟨claimed, claimed'⟩
      obtain ⟨d, hd, rfl⟩ := List.mem_map.1 hq
      have space := Provider.claims_domain_iff.1 claimed'
      obtain prefixed | ⟨bare, -⟩ := Provider.claims_rawInput_iff.1 claimed
      · exact named d hd (Option.some.inj (space.symm.trans prefixed))
      · cases bare.symm.trans space
    case domains => exact Provider.disjoint_map_domain apart
  -- Which of two claims first is no matter, so disjointness is the same in every order.
  have disjoint : c.Disjoint :=
    (made.pairwise_iff fun {p q} apart r both => apart r both.symm).2 disjoint
  exact ⟨disjoint, fun c' perm r =>
    ⟨disjoint.claimant?_perm perm r, fun context => disjoint.resolve_perm perm r context⟩⟩

set_option maxRecDepth 20000 in
/-- The raw inputs have `NET`, the items `RE` and both of them at the time before, and each domain
has its own, whichever way the chain is read. -/
theorem resolve_perm_of_compile_backwards :
    let template : Template :=
      { items := [{ code := "RE", formula := some "RE[t-1]+NET" }, { code := "NET" }] }
    let context : Context := ⟨"E1", 1, 7, 0⟩
    let history : Series := .ofList [(-1, .ofList [("RE", 1000.0), ("NET", 30.0)])]
    let inputs : RawInputs := .ofRecords "E1" 1 [⟨"NET", 7, 40.0⟩, ⟨"RE", 7, 1.0⟩]
    let calendar : Calendar := .sequential 0 [7]
    let pl : Provider := .domain " PL" (.ofList [(0, .ofList [("TAX", 5.0)])])
    let cf : Provider := .domain "cf" (.ofList [(0, .ofList [("TAX", 6.0)])])
    ∃ s, Statement.compile template = .ok s ∧
      let items : Provider := .statement s ⟨[some 1040.0, none]⟩ history
      let c : Chain := [cf, pl, .rawInput inputs s.claims calendar, items]
      c.Disjoint ∧ (∀ r, resolve c.reverse r context = c.resolve r context) ∧
        c.resolve (.bare "NET") context = .ok 40.0 ∧ c.resolve (.bare "RE") context = .ok 1040.0 ∧
        c.resolve ⟨none, "NET", -1⟩ context = .ok 30.0 ∧
        c.resolve ⟨some .rawInput, "RE", 0⟩ context = .ok 1.0 ∧
        c.resolve ⟨some (.domain "pl"), "TAX", 0⟩ context = .ok 5.0 := by
  intro template context history inputs calendar pl cf
  let s : Statement :=
    { code := ""
      items := [
        { code := "RE"
          formula := some ⟨"RE[t-1]+NET",
            .binary .add (.reference ⟨none, "RE", -1⟩) (.reference (.bare "NET")),
            [.bare "NET", ⟨none, "RE", -1⟩]⟩
          declared := { code := "RE", formula := some "RE[t-1]+NET" } },
        { code := "NET", formula := none, declared := { code := "NET" } }]
      order := [1, 0]
      graph := ⟨["RE", "NET"], [("RE", "NET")]⟩
      checks := [] }
  have compiled : Statement.compile template = .ok s := by
    unfold template s
    cbv
  refine ⟨s, compiled, ?_⟩
  intro items c
  let domains : List (String × Series) :=
    [(" PL", .ofList [(0, .ofList [("TAX", 5.0)])]), ("cf", .ofList [(0, .ofList [("TAX", 6.0)])])]
  have first : Namespace.ofName " PL" = .domain "pl" := by decide +kernel
  have second : Namespace.ofName "cf" = .domain "cf" := by decide +kernel
  have spaces : (domains.map fun d => Namespace.ofName d.1) = [.domain "pl", .domain "cf"] := by
    show [Namespace.ofName " PL", Namespace.ofName "cf"] = _
    rw [first, second]
  have named : ∀ d ∈ domains, Namespace.ofName d.1 ≠ .rawInput := by
    intro d hd
    have space : Namespace.ofName d.1 ∈ [Namespace.domain "pl", .domain "cf"] := by
      rw [← spaces]
      exact List.mem_map_of_mem hd
    intro raw
    rw [raw] at space
    simp at space
  have made : c.Perm (items :: .rawInput inputs s.claims calendar ::
      domains.map fun d => .domain d.1 d.2) := by
    exact List.reverse_perm [items, .rawInput inputs s.claims calendar, pl, cf]
  obtain ⟨disjoint, orders⟩ :=
    resolve_perm_of_compile compiled ⟨[some 1040.0, none]⟩ history inputs calendar
      (by rw [spaces]; decide) named made
  refine ⟨disjoint, ?_, ?_, ?_, ?_, ?_, ?_⟩
  · exact fun r => (orders _ (List.reverse_perm c).symm r).2 context
  all_goals
    unfold c items inputs calendar pl cf history context s
    with_unfolding_all rfl

end Chain

end Rollforward
