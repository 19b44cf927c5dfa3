import Mathlib
import Rollforward.Proofs.Collection.Occurrence
import Rollforward.Registry.Standard

/-!
# `Rollforward.Proofs.Registry.History`: what a registry knows of its registrations

A registration replaces the one with its name and arity in place, or is added at the end. So of the
registrations under a name two things are kept: the arities in the order in which they were first
registered (`map_arity_overloads`), and for each arity the function registered last
(`find?_arity_overloads`). What is registered under other names leaves no trace (`overloads_congr`).
These carry the whole of `Registry.lookup`, which chooses by arity and answers with what it finds
there.

The functions that every formula may call are themselves registered first, so a registry that starts
from them has a longer history and nothing else (`registerAll_of_begins`). Some of them look for a
number of arguments (`Callable.Needs`), and their arities see to it that they get them
(`le_of_needs_builtin`).
-/

set_option autoImplicit false

namespace Rollforward

/-- The function looks for `k` arguments: of a shorter row it answers that one is missing. -/
def Callable.Needs (f : Callable) (k : Nat) : Prop :=
  ∀ args c, args.length < k →
    ∃ name expected, f.run args c = .error (.wrongArity name expected args.length)

namespace Registry

open Collection (eraseDups_concat nodup_eraseDups)

/-- The registry with more functions, under the names as they are written, the first first. -/
def registerAll (r : Registry) (history : List Entry) : Registry :=
  history.foldl (fun r e => r.register e.name e.arity e.body) r

/-- The registrations of the functions that every formula may call. -/
def builtins : List Entry :=
  [⟨"SUM", .atLeast 1, sum⟩, ⟨"AVG", .atLeast 1, mean⟩, ⟨"MIN", .atLeast 1, least⟩,
    ⟨"MAX", .atLeast 1, greatest⟩, ⟨"ABS", .exact 1, magnitude⟩, ⟨"IF", .exact 3, choice⟩]

/-- A registry to begin with, and the registrations that it stands for. -/
inductive Begins : Registry → List Entry → Prop where
  | empty : Begins empty []
  | standard : Begins standard builtins

/-- The registrations under a name, however it is written. -/
def under (name : String) (history : List Entry) : List Entry :=
  history.filter fun e => nameOf e.name = nameOf name

variable {e : Entry} {es history : List Entry} {name : String} {count : Nat}

/-! ### One registration -/

/-- The registrations under the name that is registered change as the whole does. -/
theorem filter_place_self (e : Entry) (es : List Entry) :
    (place e es).filter (fun d => d.name = e.name) =
      place e (es.filter fun d => d.name = e.name) := by
  induction es with
  | nil => simp [place]
  | cons d ds ih =>
      by_cases same : d.name = e.name
      · by_cases replaced : d.arity = e.arity
        · simp [place, same, replaced]
        · simp [place, same, replaced, ih]
      · simp [place, same, ih]

/-- Those under another name do not change. -/
theorem filter_place_of_ne {n : String} (other : e.name ≠ n) (es : List Entry) :
    (place e es).filter (fun d => d.name = n) = es.filter fun d => d.name = n := by
  induction es with
  | nil => simp [place, other]
  | cons d ds ih =>
      by_cases replaced : d.name = e.name ∧ d.arity = e.arity
      · simp [place, replaced, other]
      · simp only [place, if_neg replaced, List.filter_cons, ih]

/-- Among registrations under one name, an arity that is new comes last, and one that is known keeps
its place. -/
theorem map_arity_place (same : ∀ d ∈ es, d.name = e.name) :
    (place e es).map Entry.arity =
      if e.arity ∈ es.map Entry.arity then es.map Entry.arity
      else es.map Entry.arity ++ [e.arity] := by
  induction es with
  | nil => simp [place]
  | cons d ds ih =>
      obtain ⟨first, rest⟩ := List.forall_mem_cons.1 same
      by_cases replaced : d.arity = e.arity
      · simp [place, first, replaced]
      · have differ : e.arity ≠ d.arity := Ne.symm replaced
        simp only [place, first, replaced, and_false, if_false, List.map_cons, ih rest,
          List.mem_cons, differ, false_or]
        split <;> rfl

/-- Among registrations under one name, the new one is found at its arity. -/
theorem find?_arity_place (same : ∀ d ∈ es, d.name = e.name) (a : Arity) :
    (place e es).find? (fun d => d.arity = a) =
      if e.arity = a then some e else es.find? fun d => d.arity = a := by
  induction es with
  | nil => by_cases here : e.arity = a <;> simp [place, here]
  | cons d ds ih =>
      obtain ⟨first, rest⟩ := List.forall_mem_cons.1 same
      by_cases replaced : d.arity = e.arity
      · by_cases here : e.arity = a <;> simp [place, first, replaced, here]
      · by_cases found : d.arity = a
        · have differ : e.arity ≠ a := fun here => replaced (found.trans here.symm)
          simp [place, first, found, differ, differ.symm]
        · simp [place, first, replaced, found, ih rest]

/-- A registration under one name does nothing to another. -/
theorem overloads_register_of_ne (r : Registry) (other : nameOf e.name ≠ nameOf name) :
    (r.register e.name e.arity e.body).overloads name = r.overloads name :=
  filter_place_of_ne other r.entries

/-- Under its own name it takes its place among the others. -/
theorem overloads_register_self (r : Registry) (same : nameOf e.name = nameOf name) :
    (r.register e.name e.arity e.body).overloads name =
      place ⟨nameOf name, e.arity, e.body⟩ (r.overloads name) := by
  rw [overloads, register, same]
  exact filter_place_self ⟨nameOf name, e.arity, e.body⟩ r.entries

/-- What is found under a name was registered under it, in the one form that a registry keeps names
in. -/
theorem name_of_mem_overloads {r : Registry} (h : e ∈ r.overloads name) : e.name = nameOf name := by
  simpa using List.of_mem_filter h

/-! ### A row of registrations -/

/-- A history can be cut anywhere. -/
theorem registerAll_append (r : Registry) (first later : List Entry) :
    r.registerAll (first ++ later) = (r.registerAll first).registerAll later :=
  List.foldl_append

/-- A registry to begin with has a history of its own, and what comes later continues it. -/
theorem registerAll_of_begins {base : Registry} {first : List Entry} (begins : Begins base first)
    (later : List Entry) : base.registerAll later = empty.registerAll (first ++ later) := by
  rw [registerAll_append]
  cases begins with
  | empty => rfl
  | standard => rfl

/-- What is kept under a name: the arities in the order in which they were first registered. -/
theorem map_arity_overloads (history : List Entry) (name : String) :
    ((empty.registerAll history).overloads name).map Entry.arity =
      ((under name history).map Entry.arity).eraseDups := by
  induction history using List.reverseRecOn with
  | nil => rfl
  | append_singleton history e ih =>
      rw [registerAll_append, under, List.filter_append, ← under]
      show (((empty.registerAll history).register e.name e.arity e.body).overloads name).map _ = _
      by_cases same : nameOf e.name = nameOf name
      · have kept : ∀ d ∈ (empty.registerAll history).overloads name, d.name = nameOf name :=
          fun d => name_of_mem_overloads
        rw [overloads_register_self _ same, map_arity_place kept, ih]
        simp only [List.filter_cons, same, decide_true, if_true, List.filter_nil, List.map_append,
          List.map_cons, List.map_nil, eraseDups_concat, List.mem_eraseDups]
      · rw [overloads_register_of_ne _ same, ih]
        simp [same]

/-- What is kept under a name: for each arity, the function registered last. -/
theorem find?_arity_overloads (history : List Entry) (name : String) (a : Arity) :
    (((empty.registerAll history).overloads name).find? fun d => d.arity = a).map Entry.body =
      ((under name history).filter fun d => d.arity = a).getLast?.map Entry.body := by
  induction history using List.reverseRecOn with
  | nil => rfl
  | append_singleton history e ih =>
      rw [registerAll_append, under, List.filter_append, ← under]
      show (((((empty.registerAll history).register e.name e.arity e.body).overloads name).find?
        fun d => d.arity = a).map Entry.body) = _
      by_cases same : nameOf e.name = nameOf name
      · have kept : ∀ d ∈ (empty.registerAll history).overloads name, d.name = nameOf name :=
          fun d => name_of_mem_overloads
        rw [overloads_register_self _ same, find?_arity_place kept]
        by_cases here : e.arity = a
        · simp [same, here]
        · simp [same, here, ih]
      · rw [overloads_register_of_ne _ same, ih]
        simp [same]

/-! ### Looking up -/

/-- Whatever is chosen among the registrations under a name is answered. -/
theorem lookup_of_choose? {r : Registry} (chosen : choose? (r.overloads name) count = some e) :
    r.lookup name count = .ok e.body := by
  have known : (r.overloads name).isEmpty = false := by
    cases listed : r.overloads name with
    | nil =>
        rw [listed] at chosen
        cases chosen
    | cons d ds => rfl
  simp [lookup, known, chosen]

/-- Of registrations with different arities, one is found by its arity. -/
theorem find?_arity_of_mem (nodup : (es.map Entry.arity).Nodup) (he : e ∈ es) :
    es.find? (fun d => d.arity = e.arity) = some e := by
  cases found : es.find? fun d => d.arity = e.arity with
  | none => simpa using List.find?_eq_none.1 found e he
  | some d =>
      have arity : d.arity = e.arity := by simpa using List.find?_some found
      rw [List.inj_on_of_nodup_map nodup (List.mem_of_find?_eq_some found) he arity]

/-- A name is unknown when nothing was registered under it. -/
theorem overloads_eq_nil_iff :
    (empty.registerAll history).overloads name = [] ↔ under name history = [] := by
  rw [← List.map_eq_nil_iff (f := Entry.arity), map_arity_overloads]
  constructor
  · intro none
    refine List.eq_nil_iff_forall_not_mem.2 fun e he => ?_
    have kept := List.mem_eraseDups.2 (List.mem_map_of_mem (f := Entry.arity) he)
    rw [none] at kept
    exact List.not_mem_nil kept
  · intro none
    rw [none]
    rfl

/-- An arity that is kept was registered. -/
theorem exists_under_of_mem_overloads {d : Entry}
    (hd : d ∈ (empty.registerAll history).overloads name) :
    ∃ e ∈ under name history, e.arity = d.arity := by
  have kept := List.mem_map_of_mem (f := Entry.arity) hd
  rw [map_arity_overloads, List.mem_eraseDups] at kept
  exact List.mem_map.1 kept

/-- A name is unknown exactly where nothing is registered under it. -/
theorem lookup_eq_unknown_iff :
    (empty.registerAll history).lookup name count = .error (.unknownFunction (nameOf name)) ↔
      under name history = [] := by
  rw [← overloads_eq_nil_iff, ← List.isEmpty_iff, lookup]
  split
  · next none => simp [none]
  · next known =>
    refine iff_of_false ?_ known
    split <;> simp

/-- An arity that was registered has a registration of its own that came last. -/
theorem exists_getLast?_of_mem (he : e ∈ es) :
    ∃ last, (es.filter fun d => d.arity = e.arity).getLast? = some last := by
  have kept : e ∈ es.filter fun d => d.arity = e.arity := by simpa using he
  exact ⟨_, List.getLast?_eq_some_getLast (List.ne_nil_of_mem kept)⟩

/-- The function kept for an arity is the one registered last. -/
theorem exists_find?_of_getLast? {a : Arity} {last : Entry}
    (latest : ((under name history).filter fun d => d.arity = a).getLast? = some last) :
    ∃ d, ((empty.registerAll history).overloads name).find? (fun d => d.arity = a) = some d ∧
      d.body = last.body := by
  have kept := find?_arity_overloads history name a
  rw [latest] at kept
  obtain ⟨d, found, body⟩ := Option.map_eq_some_iff.1 kept
  exact ⟨d, found, body⟩

/-- Where the number of arguments was registered as such, the last registration of it answers. -/
theorem lookup_of_exact {last : Entry}
    (latest : ((under name history).filter fun d => d.arity = .exact count).getLast? = some last) :
    (empty.registerAll history).lookup name count = .ok last.body := by
  obtain ⟨d, found, body⟩ := exists_find?_of_getLast? latest
  rw [← body]
  refine lookup_of_choose? ?_
  rw [choose?, found]

/-- What is found among the arities kept is found among all that were registered. -/
theorem find?_accepts_overloads (history : List Entry) (name : String) (count : Nat) :
    (((empty.registerAll history).overloads name).find? fun d => d.arity.accepts count).map
        Entry.arity =
      ((under name history).find? fun d => d.arity.accepts count).map Entry.arity := by
  have kept := Collection.find?_eraseDups (fun a : Arity => a.accepts count)
    ((under name history).map Entry.arity)
  rwa [← map_arity_overloads, List.find?_map, List.find?_map] at kept

/-- Where it was not, but is enough for a function that takes more, the one of these whose arity was
registered first answers, by the last registration of that arity. -/
theorem lookup_of_atLeast {first last : Entry}
    (notExact : ∀ d ∈ under name history, d.arity ≠ .exact count)
    (accepting : (under name history).find? (fun d => d.arity.accepts count) = some first)
    (latest : ((under name history).filter fun d => d.arity = first.arity).getLast? = some last) :
    (empty.registerAll history).lookup name count = .ok last.body := by
  have arities := map_arity_overloads history name
  have nodup : (((empty.registerAll history).overloads name).map Entry.arity).Nodup := by
    rw [arities]
    exact nodup_eraseDups _
  have none : ((empty.registerAll history).overloads name).find?
      (fun d => d.arity = .exact count) = none := by
    refine List.find?_eq_none.2 fun d hd => ?_
    obtain ⟨e, he, same⟩ := exists_under_of_mem_overloads hd
    simpa [← same] using notExact e he
  -- The entry that is found has the arity of the first registration that accepts the number.
  have found := find?_accepts_overloads history name count
  rw [accepting] at found
  obtain ⟨d, found, arity⟩ := Option.map_eq_some_iff.1 found
  obtain ⟨d', found', body⟩ := exists_find?_of_getLast? latest
  rw [← arity, find?_arity_of_mem nodup (List.mem_of_find?_eq_some found)] at found'
  rw [← body, ← Option.some.inj found']
  refine lookup_of_choose? ?_
  rw [choose?, none, found]

/-- Nothing is chosen when no arity accepts the number of arguments. -/
theorem choose?_eq_none_iff :
    choose? es count = none ↔ ∀ d ∈ es, d.arity.accepts count = false := by
  rw [choose?]
  split
  · next e found =>
    have exact : e.arity = .exact count := by simpa using List.find?_some found
    refine iff_of_false nofun fun refused => ?_
    have := refused e (List.mem_of_find?_eq_some found)
    simp [exact, Arity.accepts] at this
  · simp

/-- Where the number of arguments is refused by all arities, these are listed. -/
theorem lookup_of_refused (known : under name history ≠ [])
    (refused : ∀ d ∈ under name history, d.arity.accepts count = false) :
    (empty.registerAll history).lookup name count =
      .error
        (.wrongArity (nameOf name) ((under name history).map Entry.arity).eraseDups count) := by
  have none : choose? ((empty.registerAll history).overloads name) count = none := by
    refine choose?_eq_none_iff.2 fun d hd => ?_
    obtain ⟨e, he, same⟩ := exists_under_of_mem_overloads hd
    rw [← same]
    exact refused e he
  have listed : ((empty.registerAll history).overloads name).isEmpty = false := by
    rw [List.isEmpty_eq_false_iff]
    exact fun nothing => known (overloads_eq_nil_iff.1 nothing)
  rw [← map_arity_overloads, lookup]
  simp [listed, none]

/-- What a name called with a number of arguments answers, by the registrations under the name. -/
theorem lookup_cases (history : List Entry) (name : String) (count : Nat) :
    under name history = [] ∨
      (∃ last, ((under name history).filter fun d => d.arity = .exact count).getLast? =
        some last) ∨
      ((∀ d ∈ under name history, d.arity ≠ .exact count) ∧ ∃ first last,
        (under name history).find? (fun d => d.arity.accepts count) = some first ∧
        ((under name history).filter fun d => d.arity = first.arity).getLast? = some last) ∨
      (under name history ≠ [] ∧ ∀ d ∈ under name history, d.arity.accepts count = false) := by
  by_cases known : under name history = []
  · exact .inl known
  by_cases exact : ∃ e ∈ under name history, e.arity = .exact count
  · obtain ⟨e, he, arity⟩ := exact
    rw [← arity]
    exact .inr (.inl (exists_getLast?_of_mem he))
  cases accepting : (under name history).find? fun d => d.arity.accepts count with
  | some first =>
      obtain ⟨last, latest⟩ := exists_getLast?_of_mem (List.mem_of_find?_eq_some accepting)
      exact .inr (.inr (.inl ⟨fun d hd arity => exact ⟨d, hd, arity⟩, first, last, rfl, latest⟩))
  | none => exact .inr (.inr (.inr ⟨known, by simpa using accepting⟩))

/-! ### One registration more -/

variable {before after : List Entry}

/-- One registration that a filter drops leaves what it keeps alone. The lemmas below are this for
the filters of a lookup. -/
theorem filter_insert {p : Entry → Bool} (drop : p e = false) :
    (before ++ e :: after).filter p = (before ++ after).filter p := by
  rw [List.filter_append, List.filter_cons_of_neg (by simp [drop]), List.filter_append]

/-- What is registered under one name does not change what is found under another. -/
theorem lookup_insert_of_ne (other : nameOf e.name ≠ nameOf name) (count : Nat) :
    (empty.registerAll (before ++ e :: after)).lookup name count =
      (empty.registerAll (before ++ after)).lookup name count := by
  have same : under name (before ++ e :: after) = under name (before ++ after) :=
    filter_insert (by simpa using other)
  obtain none | ⟨last, latest⟩ | ⟨notExact, first, last, accepting, latest⟩ | ⟨known, refused⟩ :=
    lookup_cases (before ++ after) name count
  · rw [lookup_eq_unknown_iff.2 none, lookup_eq_unknown_iff.2 (same ▸ none)]
  · rw [lookup_of_exact latest, lookup_of_exact (same ▸ latest)]
  · rw [lookup_of_atLeast notExact accepting latest]
    rw [← same] at notExact accepting latest
    exact lookup_of_atLeast notExact accepting latest
  · rw [lookup_of_refused known refused]
    rw [← same] at known refused ⊢
    exact lookup_of_refused known refused

/-- A registration of another arity leaves no trace at this one. -/
theorem filter_arity_under_insert {a : Arity} (differ : e.arity ≠ a) :
    (under name (before ++ e :: after)).filter (fun d => d.arity = a) =
      (under name (before ++ after)).filter fun d => d.arity = a := by
  rw [under, under, List.filter_filter, List.filter_filter]
  exact filter_insert (by simp [differ])

/-- With one registration more there is at most this one more under a name. -/
theorem mem_under_insert {d : Entry} (hd : d ∈ under name (before ++ e :: after)) :
    d = e ∨ d ∈ under name (before ++ after) := by
  obtain ⟨hd, same⟩ := List.mem_filter.1 hd
  rw [under, List.mem_filter]
  simp only [List.mem_append, List.mem_cons] at hd ⊢
  tauto

/-- A registration that does not accept the arguments is not the one that is found. -/
theorem find?_accepts_under_insert (refused : e.arity.accepts count = false) :
    (under name (before ++ e :: after)).find? (fun d => d.arity.accepts count) =
      (under name (before ++ after)).find? fun d => d.arity.accepts count := by
  rw [under, under, List.find?_filter, List.find?_filter, List.find?_append, List.find?_append,
    List.find?_cons_of_neg (by simp [refused])]

/-- Where every registration refuses the number of arguments, no function is found, whether or not
there are any. -/
theorem toOption_lookup_of_refused
    (refused : ∀ d ∈ under name history, d.arity.accepts count = false) :
    ((empty.registerAll history).lookup name count).toOption = none := by
  by_cases known : under name history = []
  · rw [lookup_eq_unknown_iff.2 known]
    rfl
  · rw [lookup_of_refused known refused]
    rfl

/-- A registration of an arity that refuses the number of arguments does not change which function
is found for it. -/
theorem lookup_insert_of_refused (name : String) (refused : e.arity.accepts count = false) :
    ((empty.registerAll (before ++ e :: after)).lookup name count).toOption =
      ((empty.registerAll (before ++ after)).lookup name count).toOption := by
  have notExact : e.arity ≠ .exact count := by
    rintro arity
    simp [arity, Arity.accepts] at refused
  have stillRefused (others : ∀ d ∈ under name (before ++ after), d.arity.accepts count = false) :
      ∀ d ∈ under name (before ++ e :: after), d.arity.accepts count = false := by
    intro d hd
    obtain rfl | old := mem_under_insert hd
    · exact refused
    · exact others d old
  -- The cases are those of the lookup without the registration. Each stays the case that it is.
  obtain none | ⟨last, latest⟩ | ⟨others, first, last, accepting, latest⟩ | ⟨-, refuses⟩ :=
    lookup_cases (before ++ after) name count
  · have refuses : ∀ d ∈ under name (before ++ after), d.arity.accepts count = false := by
      rw [none]
      exact fun d hd => absurd hd List.not_mem_nil
    rw [toOption_lookup_of_refused refuses, toOption_lookup_of_refused (stillRefused refuses)]
  · rw [lookup_of_exact latest]
    rw [← filter_arity_under_insert notExact] at latest
    rw [lookup_of_exact latest]
  · rw [lookup_of_atLeast others accepting latest]
    have differ : e.arity ≠ first.arity := by
      intro arity
      have accepts := List.find?_some accepting
      simp [← arity, refused] at accepts
    rw [← filter_arity_under_insert differ] at latest
    rw [← find?_accepts_under_insert refused] at accepting
    rw [lookup_of_atLeast ?_ accepting latest]
    intro d hd
    obtain rfl | old := mem_under_insert hd
    · exact notExact
    · exact others d old
  · rw [toOption_lookup_of_refused refuses, toOption_lookup_of_refused (stillRefused refuses)]

/-! ### The functions that every formula may call -/

/-- A function that is found was registered under the name, for the number of arguments. -/
theorem exists_of_lookup {f : Callable}
    (found : (empty.registerAll history).lookup name count = .ok f) :
    ∃ e ∈ under name history, e.arity.accepts count = true ∧ f = e.body := by
  obtain none | ⟨last, latest⟩ | ⟨others, first, last, accepting, latest⟩ | ⟨known, refused⟩ :=
    lookup_cases history name count
  · rw [lookup_eq_unknown_iff.2 none] at found
    cases found
  · rw [lookup_of_exact latest] at found
    obtain ⟨hlast, arity⟩ := List.mem_filter.1 (List.mem_of_getLast? latest)
    refine ⟨last, hlast, ?_, (Except.ok.inj found).symm⟩
    simp [of_decide_eq_true arity, Arity.accepts]
  · rw [lookup_of_atLeast others accepting latest] at found
    obtain ⟨hlast, arity⟩ := List.mem_filter.1 (List.mem_of_getLast? latest)
    refine ⟨last, hlast, ?_, (Except.ok.inj found).symm⟩
    rw [of_decide_eq_true arity]
    simpa using List.find?_some accepting
  · rw [lookup_of_refused known refused] at found
    cases found

/-- `ABS` looks for one argument. -/
theorem needs_magnitude : magnitude.Needs 1 := by
  intro args c short
  obtain rfl := List.length_eq_zero_iff.1 (Nat.lt_one_iff.1 short)
  exact ⟨"ABS", [.exact 1], rfl⟩

/-- `IF` looks for three. -/
theorem needs_choice : choice.Needs 3 := by
  intro args c short
  refine ⟨"IF", [.exact 3], ?_⟩
  match args, short with
  | [], _ => rfl
  | [_], _ => rfl
  | [_, _], _ => rfl

/-- Arguments that are numbers are all there is to a sum or a mean. -/
theorem numbers_map_number (xs : List Float) : numbers (xs.map Arg.number) = .ok xs := by
  induction xs with
  | nil => rfl
  | cons x xs ih =>
      rw [numbers] at ih ⊢
      rw [List.map_cons, List.mapM_cons, ih]
      rfl

/-- The functions that every formula may call have what they look for in any number of arguments
that they accept. -/
theorem le_of_needs_builtin (he : e ∈ builtins) (accepts : e.arity.accepts count = true) {k : Nat}
    (needs : e.body.Needs k) : k ≤ count := by
  let zeros := (List.replicate count 0).map Arg.number
  let c : Context := ⟨"", 0, 0, 0⟩
  -- With as many zeros as are accepted, each of the functions has a value.
  have value : ∃ x, e.body.run zeros c = .ok x := by
    have folded (f : List Float → Float) : ∃ x, (ofNumbers f).run zeros c = .ok x := by
      refine ⟨f (List.replicate count 0), ?_⟩
      show (numbers zeros).map f = _
      rw [numbers_map_number]
      rfl
    simp only [builtins, List.mem_cons, List.not_mem_nil, or_false] at he
    obtain rfl | rfl | rfl | rfl | rfl | rfl := he
    · exact folded _
    · exact folded _
    · exact folded _
    · exact folded _
    · obtain rfl : count = 1 := by simpa [Arity.accepts] using accepts
      exact ⟨_, rfl⟩
    · obtain rfl : count = 3 := by simpa [Arity.accepts] using accepts
      show ∃ x, (if (0 : Float) != 0.0 then Except.ok 0 else .ok 0) = .ok x
      exact ⟨0, ite_self _⟩
  by_contra more
  have short : zeros.length < k := by
    simp only [zeros, List.length_map, List.length_replicate]
    omega
  obtain ⟨x, value⟩ := value
  obtain ⟨name, expected, missing⟩ := needs zeros c short
  cases value.symm.trans missing

/-- The answer of a registry to a name and a number of arguments follows from what was registered
under the name, however it is written. If nothing was, the name is unknown. Where the number was
registered as such, the last registration of it answers. Where it was not, but is enough for a
function that takes more, the one of these whose arity came first answers, by the last registration
of that arity. Else the arities are listed in the order in which they first came.

A registration under another name changes nothing, and one of an arity that refuses the number does
not change which function is found. Of the functions that every formula may call none is found for
fewer arguments than it looks for. -/
theorem lookup_follows_history {base : Registry} {first : List Entry} (begins : Begins base first)
    (later : List Entry) (name : String) (count : Nat) :
    let r := base.registerAll later
    let registered := under name (first ++ later)
    (r.lookup name count = .error (.unknownFunction (nameOf name)) ↔
      ∀ e ∈ first ++ later, nameOf e.name ≠ nameOf name) ∧
    ((∃ e ∈ registered, e.arity = .exact count) → ∃ last,
      (registered.filter fun e => e.arity = .exact count).getLast? = some last ∧
      r.lookup name count = .ok last.body) ∧
    ((∀ e ∈ registered, e.arity ≠ .exact count) →
      (∃ e ∈ registered, ∃ m ≤ count, e.arity = .atLeast m) → ∃ opening m last,
      registered.find? (fun e => e.arity.accepts count) = some opening ∧
      opening.arity = .atLeast m ∧
      (registered.filter fun e => e.arity = .atLeast m).getLast? = some last ∧
      r.lookup name count = .ok last.body) ∧
    (registered ≠ [] → (∀ e ∈ registered, e.arity.accepts count = false) →
      r.lookup name count =
        .error (.wrongArity (nameOf name) (registered.map Entry.arity).eraseDups count)) ∧
    (∀ before e after, later = before ++ e :: after →
      let without := base.registerAll (before ++ after)
      (nameOf e.name ≠ nameOf name → r.lookup name count = without.lookup name count) ∧
      (e.arity.accepts count = false →
        (r.lookup name count).toOption = (without.lookup name count).toOption)) ∧
    (∀ f, r.lookup name count = .ok f →
      (∃ e ∈ later, nameOf e.name = nameOf name ∧ e.arity.accepts count = true ∧ f = e.body) ∨
      ∃ e ∈ first, nameOf e.name = nameOf name ∧ f = e.body ∧ ∀ k, f.Needs k → k ≤ count) ∧
    magnitude.Needs 1 ∧ choice.Needs 3 := by
  intro r registered
  -- A registry that starts from the built-in functions is one that starts from nothing, with a
  -- longer history. So each part is a lemma about histories.
  have continued : r = empty.registerAll (first ++ later) := registerAll_of_begins begins later
  rw [continued]
  refine ⟨?_, ?_, ?_, ?_, ?_, ?_, needs_magnitude, needs_choice⟩
  · rw [lookup_eq_unknown_iff, under, List.filter_eq_nil_iff]
    simp only [decide_eq_true_eq, ne_eq]
  · rintro ⟨e, he, arity⟩
    obtain ⟨last, latest⟩ := exists_getLast?_of_mem he
    rw [arity] at latest
    exact ⟨last, latest, lookup_of_exact latest⟩
  · rintro notExact ⟨e, he, m, enough, arity⟩
    have accepts : e.arity.accepts count = true := by simpa [arity, Arity.accepts] using enough
    cases accepting : registered.find? fun e => e.arity.accepts count with
    | none => exact absurd accepts (List.find?_eq_none.1 accepting e he)
    | some opening =>
        have hopening := List.mem_of_find?_eq_some accepting
        obtain ⟨last, latest⟩ := exists_getLast?_of_mem hopening
        have answer := lookup_of_atLeast notExact accepting latest
        cases opened : opening.arity with
        | exact n =>
            have takes := List.find?_some accepting
            obtain rfl : count = n := by simpa [opened, Arity.accepts] using takes
            exact absurd opened (notExact opening hopening)
        | atLeast n =>
            rw [opened] at latest
            exact ⟨opening, n, last, rfl, opened, latest, answer⟩
  · exact lookup_of_refused
  · rintro before e after rfl
    rw [registerAll_of_begins begins, ← List.append_assoc, ← List.append_assoc]
    exact ⟨fun other => lookup_insert_of_ne other count, lookup_insert_of_refused name⟩
  -- What is found was registered, either by the built-in history or later.
  · intro f found
    obtain ⟨e, he, accepts, body⟩ := exists_of_lookup found
    obtain ⟨he, same⟩ := List.mem_filter.1 he
    have same : nameOf e.name = nameOf name := of_decide_eq_true same
    obtain early | late := List.mem_append.1 he
    · refine .inr ⟨e, early, same, body, fun k needs => ?_⟩
      rw [body] at needs
      cases begins with
      | empty => exact absurd early List.not_mem_nil
      | standard => exact le_of_needs_builtin early accepts needs
    · exact .inl ⟨e, late, same, accepts, body⟩

/-- The case of a name does not count. `MAX` of two arguments is new and answers before the one of
any number; that keeps its place in front of the new one of no argument, although its function is
replaced. -/
theorem lookup_follows_history_overloaded :
    let later : List Entry := [⟨"max", .exact 2, least⟩, ⟨"Max", .atLeast 0, sum⟩,
      ⟨"MAX", .atLeast 1, mean⟩, ⟨"min", .exact 0, sum⟩]
    let r := standard.registerAll later
    r.lookup "mAx" 2 = .ok least ∧ r.lookup "mAx" 3 = .ok mean ∧ r.lookup "mAx" 0 = .ok sum ∧
      r.lookup "abs" 2 = .error (.wrongArity "ABS" [.exact 1] 2) ∧
      r.lookup "npv" 1 = .error (.unknownFunction "NPV") := by
  intro later r
  have names : nameOf "mAx" = "MAX" ∧ nameOf "max" = "MAX" ∧ nameOf "Max" = "MAX" ∧
      nameOf "MAX" = "MAX" ∧ nameOf "abs" = "ABS" ∧ nameOf "ABS" = "ABS" ∧
      nameOf "npv" = "NPV" := by
    repeat' constructor
    all_goals cbv
  have others : nameOf "SUM" = "SUM" ∧ nameOf "AVG" = "AVG" ∧ nameOf "MIN" = "MIN" ∧
      nameOf "IF" = "IF" ∧ nameOf "min" = "MIN" := by
    repeat' constructor
    all_goals cbv
  have max : under "mAx" (builtins ++ later) = [⟨"MAX", .atLeast 1, greatest⟩,
      ⟨"max", .exact 2, least⟩, ⟨"Max", .atLeast 0, sum⟩, ⟨"MAX", .atLeast 1, mean⟩] := by
    simp [under, builtins, later, names, others]
  have abs : under "abs" (builtins ++ later) = [⟨"ABS", .exact 1, magnitude⟩] := by
    simp [under, builtins, later, names, others]
  have npv : under "npv" (builtins ++ later) = [] := by
    simp [under, builtins, later, names, others]
  obtain ⟨-, two, -⟩ := lookup_follows_history .standard later "mAx" 2
  obtain ⟨-, -, three, -⟩ := lookup_follows_history .standard later "mAx" 3
  obtain ⟨-, -, none, -⟩ := lookup_follows_history .standard later "mAx" 0
  obtain ⟨-, -, -, refused, -⟩ := lookup_follows_history .standard later "abs" 2
  obtain ⟨unknown, -⟩ := lookup_follows_history .standard later "npv" 1
  obtain ⟨-, -, -, -, upper, -, upper'⟩ := names
  rw [max] at two three none
  rw [abs, upper] at refused
  rw [upper'] at unknown
  refine ⟨?_, ?_, ?_, refused (by simp) (by simp [Arity.accepts]), unknown.2 fun e he same => ?_⟩
  · obtain ⟨last, latest, answer⟩ := two ⟨⟨"max", .exact 2, least⟩, by simp, rfl⟩
    obtain rfl : ⟨"max", .exact 2, least⟩ = last := by simpa using latest
    exact answer
  · obtain ⟨opening, m, last, found, opened, latest, answer⟩ :=
      three (by simp) ⟨⟨"MAX", .atLeast 1, mean⟩, by simp, 1, by decide, rfl⟩
    obtain rfl : ⟨"MAX", .atLeast 1, greatest⟩ = opening := by simpa [Arity.accepts] using found
    cases opened
    obtain rfl : ⟨"MAX", .atLeast 1, mean⟩ = last := by simpa using latest
    exact answer
  · obtain ⟨opening, m, last, found, opened, latest, answer⟩ :=
      none (by simp) ⟨⟨"Max", .atLeast 0, sum⟩, by simp, 0, by decide, rfl⟩
    obtain rfl : ⟨"Max", .atLeast 0, sum⟩ = opening := by simpa [Arity.accepts] using found
    cases opened
    obtain rfl : ⟨"Max", .atLeast 0, sum⟩ = last := by simpa using latest
    exact answer
  · have kept : e ∈ under "npv" (builtins ++ later) :=
      List.mem_filter.2 ⟨he, by simpa [upper'] using same⟩
    rw [npv] at kept
    exact List.not_mem_nil kept

end Registry

end Rollforward
