import Rollforward.Proofs.Evaluation.Correspondence
import Rollforward.Proofs.Provider.RawInput
import Rollforward.Proofs.Provider.Target

/-!
# `Rollforward.Proofs.Provider.Translation`: providers at a later time

What is known of a time is a function on the clock. Moved by `d` it has at `u + d` what it had at
`u` (`Clock.Displaced`), and a context that is moved along reads the same from it. At the ends of
the clock this takes some care: a time may fall off the clock in one place and be there, with
nothing to be found, in the other. The reader does not notice, since both are unavailable
(`Context.corresponds_lookUp`). What does change are the times that errors name
(`EvalError.SameButTime`).

Providers pass on what they read, one lemma for each kind of provider.
-/

set_option autoImplicit false

namespace Rollforward

open Formula (Namespace Reference)

/-! ### Errors -/

/-- The errors are the same but for the time that they name. Where one names the time on the clock
nearest to `t`, the other names the nearest to `t + d`. -/
inductive EvalError.SameButTime (d : Int) : EvalError → EvalError → Prop where
  | same (e : EvalError) : SameButTime d e e
  | noFutureValue (r : Reference) (t : Int) :
    SameButTime d (.noFutureValue r (Clock.clamp t)) (.noFutureValue r (Clock.clamp (t + d)))
  | noPriorValue (r : Reference) (t : Int) :
    SameButTime d (.noPriorValue r (Clock.clamp t)) (.noPriorValue r (Clock.clamp (t + d)))
  | noValueAt (provider : String) (r : Reference) (t : Int) :
    SameButTime d (.gap provider r (.noValueAt t)) (.gap provider r (.noValueAt (t + d)))

namespace EvalError

variable {d : Int}

instance : Std.Refl (SameButTime d) := ⟨.same⟩

/-- Nothing at a time: the sign of the offset decides which error it is, and both sides have the
same offset. -/
theorem sameButTime_unavailable (r : Reference) (t : Int) :
    SameButTime d (.unavailable r (Clock.clamp t)) (.unavailable r (Clock.clamp (t + d))) := by
  unfold unavailable
  split
  · exact .noFutureValue r t
  · exact .noPriorValue r t

end EvalError

/-! ### What is known of times -/

/-- On the clock, `f'` has `d` steps later what `f` has. -/
def Clock.Displaced {β : Type} (d : Int) (f f' : Int → Option β) : Prop :=
  ∀ u, read? f' (u + d) = read? f u

/-- The context, `d` steps later. -/
def Context.later (d : Int) (c : Context) : Context := { c with time := c.time + d }

namespace Clock.Displaced

variable {β γ : Type} {d : Int} {f f' : Int → Option β}

/-- What is looked up in something displaced is displaced with it. -/
theorem bind (h : Displaced d f f') (g : β → Option γ) :
    Displaced d (fun u => (f u).bind g) fun u => (f' u).bind g := by
  intro u
  rw [read?_bind, read?_bind, h u]

end Clock.Displaced

/-- A later context finds in what is displaced along with it what it found before. -/
theorem Context.corresponds_lookUp {β : Type} {d : Int} {f f' : Int → Option β}
    (h : Clock.Displaced d f f') (context : Context) (r : Reference) :
    Corresponds (EvalError.SameButTime d) Eq (context.lookUp f r)
      ((context.later d).lookUp f' r) := by
  have time : (context.later d).time + r.offset = context.time + r.offset + d :=
    Int.add_right_comm context.time d r.offset
  cases found : Clock.read? f (context.time + r.offset) with
  | some v =>
      have found' : Clock.read? f' ((context.later d).time + r.offset) = some v := by
        rw [time, h, found]
      rw [lookUp_of_read?_eq_some found, lookUp_of_read?_eq_some found']
      exact .ok rfl
  | none =>
      have absent' : Clock.read? f' ((context.later d).time + r.offset) = none := by
        rw [time, h, found]
      rw [lookUp_of_read?_eq_none found, lookUp_of_read?_eq_none absent', time]
      exact .error (EvalError.sameButTime_unavailable r _)

namespace Series

/-- The series with every snapshot `d` steps later. -/
def later (d : Int) (s : Series) : Series :=
  .ofList (s.toList.map fun e => (e.1 + d, e.2))

/-- Every snapshot stands at a time that the clock has. -/
def OnClock (s : Series) : Prop := ∀ e ∈ s.toList, Clock.Has e.1

variable {d : Int} {s s' : Series}

instance : Decidable s.OnClock := inferInstanceAs (Decidable (∀ e ∈ s.toList, Clock.Has e.1))

/-- A series that is moved has at the later time what it had. -/
theorem get?_later (d : Int) (s : Series) (u : Int) : (s.later d).get? (u + d) = s.get? u := by
  have nodup : ((s.toList.map fun e => (e.1 + d, e.2)).map Prod.fst).Nodup := by
    have keys := s.nodup_keys.map (add_left_injective d)
    rwa [List.map_map] at keys ⊢
  refine Option.ext fun v => ?_
  rw [later, Collection.OrderedMap.get?_ofList_eq_some_iff nodup,
    Collection.OrderedMap.get?_eq_some_iff, List.mem_map]
  constructor
  · rintro ⟨⟨t, w⟩, entry, same⟩
    obtain ⟨time, rfl⟩ := Prod.mk.inj same
    obtain rfl : t = u := by omega
    exact entry
  · exact fun entry => ⟨(u, v), entry, rfl⟩

/-- A series on the clock has nothing off the clock, so reading with the clock or without is the
same. -/
theorem OnClock.read?_eq (h : s.OnClock) (u : Int) : Clock.read? s.get? u = s.get? u := by
  by_cases has : Clock.Has u
  · exact Clock.read?_of_has has
  · rw [Clock.read?_of_not_has has, eq_comm, Option.eq_none_iff_forall_ne_some]
    intro v found
    exact has (h _ (Collection.OrderedMap.get?_eq_some_iff.1 found))

/-- Series on the clock both before and after the move have the same at all times. -/
theorem displaced_later (h : s.OnClock) (h' : (s.later d).OnClock) :
    Clock.Displaced d s.get? (s.later d).get? := by
  intro u
  rw [h'.read?_eq, h.read?_eq, get?_later]

/-- What is inserted in both at the same time, as each sees it, is the same in both. -/
theorem displaced_insert (h : Clock.Displaced d s.get? s'.get?) {t : Int} (has : Clock.Has t)
    (has' : Clock.Has (t + d)) (values : Snapshot) :
    Clock.Displaced d (s.insert t values).get? (s'.insert (t + d) values).get? := by
  intro u
  by_cases here : u = t
  · rw [here, Clock.read?_of_has has', Clock.read?_of_has has,
      Collection.OrderedMap.get?_insert_self, Collection.OrderedMap.get?_insert_self]
  · have elsewhere : u + d ≠ t + d := by omega
    rw [Clock.read?_congr (Collection.OrderedMap.get?_insert_of_ne s values here),
      Clock.read?_congr (Collection.OrderedMap.get?_insert_of_ne s' values elsewhere), h u]

/-- The values of one code are displaced along with the snapshots. -/
theorem displaced_value? (h : Clock.Displaced d s.get? s'.get?) (code : String) :
    Clock.Displaced d (fun t => s.value? t code) fun t => s'.value? t code := by
  simp only [value?_eq_bind]
  exact h.bind fun values => values.get? code

/-- A series answers in the later context what it answered before. -/
theorem corresponds_resolve (h : Clock.Displaced d s.get? s'.get?) (r : Reference)
    (context : Context) :
    Corresponds (EvalError.SameButTime d) Eq (s.resolve r context)
      (s'.resolve r (context.later d)) := by
  rw [resolve_eq, resolve_eq]
  exact context.corresponds_lookUp (displaced_value? h r.code) r

end Series

/-! ### Providers -/

/-- The providers claim the same references, and answer each of them alike in their contexts. -/
def Provider.CorrespondIn (E : EvalError → EvalError → Prop) (context context' : Context)
    (p p' : Provider) : Prop :=
  ∀ r, p.claims r = p'.claims r ∧
    (p.claims r = true → Corresponds E Eq (p.resolve r context) (p'.resolve r context'))

/-- Chains of such providers answer alike. -/
theorem Chain.corresponds_resolve {E : EvalError → EvalError → Prop} [Std.Refl E]
    {context context' : Context} {c c' : Chain}
    (h : List.Forall₂ (Provider.CorrespondIn E context context') c c') (r : Reference) :
    Corresponds E Eq (Chain.resolve c r context) (Chain.resolve c' r context') := by
  induction h with
  | nil => exact .refl _
  | @cons p p' c c' first _ ih =>
      obtain ⟨claims, answer⟩ := first r
      by_cases claimed : p.claims r = true
      · rw [resolve_cons_of_claims claimed, resolve_cons_of_claims (claims ▸ claimed)]
        exact answer claimed
      · rw [resolve_cons_of_not_claims claimed, resolve_cons_of_not_claims (claims ▸ claimed)]
        exact ih

namespace Provider

variable {d : Int} {context : Context} {history history' : Series}

/-- In its own period a statement answers from the ledger, and for other periods from what is
displaced. -/
theorem correspondIn_statement (s : Statement) (l : Ledger)
    (h : Clock.Displaced d history.get? history'.get?) :
    CorrespondIn (EvalError.SameButTime d) context (context.later d) (statement s l history)
      (statement s l history') := by
  refine fun r => ⟨rfl, fun _ => ?_⟩
  simp only [statement]
  split
  · exact .refl _
  · exact Series.corresponds_resolve h r context

/-- The same with the closed values of the period in place of the ledger. -/
theorem correspondIn_snapshot (values : Snapshot)
    (h : Clock.Displaced d history.get? history'.get?) :
    CorrespondIn (EvalError.SameButTime d) context (context.later d) (snapshot values history)
      (snapshot values history') := by
  refine fun r => ⟨rfl, fun _ => ?_⟩
  simp only [snapshot]
  split
  · exact .refl _
  · exact Series.corresponds_resolve h r context

/-- The keys of raw inputs do not mention a time. Only the calendar does, and it is displaced. -/
theorem correspondIn_rawInput (inputs : RawInputs) (claims : Claims) {calendar calendar' : Calendar}
    (h : Clock.Displaced d calendar.get? calendar'.get?) :
    CorrespondIn (EvalError.SameButTime d) context (context.later d)
      (rawInput inputs claims calendar) (rawInput inputs claims calendar') := by
  refine fun r => ⟨rfl, fun _ => ?_⟩
  have period : Corresponds (EvalError.SameButTime d) Eq (rawPeriod calendar r context)
      (rawPeriod calendar' r (context.later d)) := by
    rw [rawPeriod_eq, rawPeriod_eq]
    split
    · exact .refl _
    · exact context.corresponds_lookUp h r
  simp only [rawInput]
  -- The records do not move, so the same period has the same record.
  obtain ⟨e, f, failed, failed', errors⟩ | ⟨p, _, read, read', rfl⟩ := period.error_or_ok
  · rw [failed, failed']
    exact .error errors
  · rw [read, read']
    exact .refl _

/-- What a caller may supply to a run that is moved: fixed values are the same, the series of other
domains are moved along. -/
inductive Later (d : Int) : Provider → Provider → Prop where
  | fixed (values : Snapshot) (name : String) : Later d (.fixed values name) (.fixed values name)
  | domain (written : String) {series : Series} (onClock : series.OnClock)
    (onClock' : (series.later d).OnClock) :
    Later d (.domain written series) (.domain written (series.later d))

/-- The providers that a run is given from outside, each by what moves in it. -/
theorem Later.correspondIn {p p' : Provider} (h : Later d p p') (onClock : Clock.Has context.time)
    (onClock' : Clock.Has (context.later d).time) :
    CorrespondIn (EvalError.SameButTime d) context (context.later d) p p' := by
  refine fun r => ?_
  cases h with
  | fixed values name => exact ⟨rfl, fun _ => .refl _⟩
  | @domain written series has has' =>
      refine ⟨rfl, fun _ => ?_⟩
      have displaced := Series.displaced_value? (Series.displaced_later has has') r.code
      have time : (context.later d).time + r.offset = context.time + r.offset + d :=
        Int.add_right_comm context.time d r.offset
      have same := displaced (context.time + r.offset)
      rw [← time] at same
      cases found : Clock.read? (fun t => series.value? t r.code) (context.time + r.offset) with
      | some v =>
          rw [resolve_domain_of_read?_eq_some found,
            resolve_domain_of_read?_eq_some (same.trans found)]
          exact .ok rfl
      | none =>
          rw [resolve_domain_of_read?_eq_none onClock found,
            resolve_domain_of_read?_eq_none onClock' (same.trans found), time]
          split
          · exact .error (.noValueAt _ r context.time)
          · exact .error (EvalError.sameButTime_unavailable r _)

end Provider

end Rollforward
