import Rollforward.Options
import Rollforward.Proofs.Collection.OrderedMap
import Rollforward.Proofs.Json.Quantity
import Rollforward.Snapshot.Json
import Rollforward.Template.Json

/-!
# `Rollforward.Proofs.Json.RoundTrip`: documents that are written and read

Templates, snapshots and options are read from their own text as they were. Of the texts of doubles
this assumes that the finite ones in the document come back (`Json.Faithful`); of all else it is
proved: of strings of any characters, of absent parts, of kinds and severities by name, and of the
names under which fields are written, which no other field is read under.

A template that was read has finite tolerances, so it can be written again without loss.
-/

set_option autoImplicit false

namespace Rollforward

open Json (Encodes ReadsBack)

/-- The finite ones among these doubles are read from their texts. -/
def Json.Faithful (xs : List Float) : Prop := ∀ x ∈ xs, x.isFinite = true → ReadsBack x

instance (xs : List Float) : Decidable (Json.Faithful xs) :=
  inferInstanceAs (Decidable (∀ x ∈ xs, x.isFinite = true → ReadsBack x))

/-! ### Templates -/

/-- Each kind of a rule has a name, and the names are read back. -/
theorem RuleKind.encodes (k : RuleKind) : Encodes k.toJson ofJson? k :=
  Json.encodes_name (by cases k <;> decide)

/-- Each severity has a name, and the names are read back. -/
theorem Severity.encodes (s : Severity) : Encodes s.toJson ofJson? s :=
  Json.encodes_name (by cases s <;> decide)

/-- A line is written with all its fields, so no default is asked for when it is read. Of the five
fields none holds a number. -/
theorem LineItem.encodes (i : LineItem) : Encodes i.toJson ofJson? i := by
  have texts (o : Option String) := Json.encodes_optional (f := Json.text) (o := o) rfl
    fun s _ => Json.encodes_text s
  obtain ⟨_, code, codeOk⟩ := Json.encodes_text i.code
  obtain ⟨_, name, nameOk⟩ := texts i.displayName
  obtain ⟨_, category, categoryOk⟩ := texts i.category
  obtain ⟨_, formula, formulaOk⟩ := texts i.formula
  obtain ⟨_, reference, referenceOk⟩ := texts i.rawReference
  obtain ⟨w, isRead, parts⟩ := Json.exists_partsOf i.toJson fields rfl rfl (by decide)
    (.cons code (.cons name (.cons category (.cons formula (.cons reference .nil)))))
  refine ⟨w, isRead, ?_⟩
  rw [ofJson?, parts]
  simp [Json.required, Json.orDefault, codeOk, nameOk, categoryOk, formulaOk, referenceOk]

/-- A rule comes back if its tolerance does. -/
theorem Rule.encodes {r : Rule} (h : ∀ x ∈ r.tolerance, ReadsBack x) :
    Encodes r.toJson ofJson? r := by
  obtain ⟨_, id, idOk⟩ := Json.encodes_text r.id
  obtain ⟨_, formula, formulaOk⟩ := Json.encodes_text r.formula
  obtain ⟨_, kind, kindOk⟩ := r.kind.encodes
  obtain ⟨_, tolerance, toleranceOk⟩ := Json.encodes_optional rfl fun x hx => (h x hx).encodes
  obtain ⟨_, severity, severityOk⟩ := r.severity.encodes
  obtain ⟨_, message, messageOk⟩ := Json.encodes_text r.message
  obtain ⟨_, items, itemsOk⟩ := Json.encodes_array fun s (_ : s ∈ r.requiredItems) =>
    Json.encodes_text s
  obtain ⟨w, isRead, parts⟩ := Json.exists_partsOf r.toJson fields rfl rfl (by decide)
    (.cons id (.cons formula (.cons kind (.cons tolerance (.cons severity (.cons message
      (.cons items .nil)))))))
  refine ⟨w, isRead, ?_⟩
  rw [ofJson?, parts]
  simp [Json.required, Json.orDefault, idOk, formulaOk, kindOk, toleranceOk, severityOk, messageOk,
    itemsOk]

/-- The tolerances that rules of the template have of their own. -/
def Template.tolerances (t : Template) : List Float := t.rules.filterMap (·.tolerance)

/-- The tolerance of a rule is one of its template. -/
theorem Template.mem_tolerances {t : Template} {r : Rule} (hr : r ∈ t.rules) {x : Float}
    (hx : x ∈ r.tolerance) : x ∈ t.tolerances :=
  List.mem_filterMap.2 ⟨r, hr, hx⟩

/-- A template comes back if all the tolerances in it do. -/
theorem Template.encodes {t : Template} (h : ∀ x ∈ t.tolerances, ReadsBack x) :
    Encodes t.toJson ofJson? t := by
  obtain ⟨_, code, codeOk⟩ := Json.encodes_text t.code
  obtain ⟨_, items, itemsOk⟩ := Json.encodes_array fun i (_ : i ∈ t.items) => i.encodes
  obtain ⟨_, rules, rulesOk⟩ := Json.encodes_array fun r (hr : r ∈ t.rules) =>
    Rule.encodes fun x hx => h x (mem_tolerances hr hx)
  obtain ⟨w, isRead, parts⟩ := Json.exists_partsOf t.toJson fields rfl rfl (by decide)
    (.cons code (.cons items (.cons rules .nil)))
  refine ⟨w, isRead, ?_⟩
  rw [ofJson?, parts]
  simp [Json.required, Json.orDefault, codeOk, itemsOk, rulesOk]

/-! ### Templates that were read -/

/-- A rule that was read has a tolerance that was read, hence a finite one. -/
theorem Rule.isFinite_of_ofJson? {v : Json} {r : Rule} (h : ofJson? v = some r) :
    ∀ x ∈ r.tolerance, x.isFinite = true := by
  intro x hx
  unfold ofJson? at h
  split at h
  · simp only [Option.bind_eq_bind, Option.bind_eq_some_iff, Option.pure_def,
      Option.some.injEq] at h
    obtain ⟨_, -, _, -, _, -, tolerance, decoded, _, -, _, -, _, -, rfl⟩ := h
    obtain ⟨v, number⟩ := Json.exists_of_orDefault_nullable decoded hx
    exact Json.isFinite_of_toFloat? number
  · cases h

/-- Writing a template that was loaded needs no hypothesis on its numbers: they are finite. -/
theorem Template.isFinite_of_read? {s : String} {t : Template} (h : read? s = some t) :
    ∀ x ∈ t.tolerances, x.isFinite = true := by
  intro x hx
  obtain ⟨v, -, h⟩ := Option.bind_eq_some_iff.1 h
  unfold ofJson? at h
  split at h
  · simp only [Option.bind_eq_bind, Option.bind_eq_some_iff, Option.pure_def,
      Option.some.injEq] at h
    obtain ⟨_, -, _, -, rules, decoded, rfl⟩ := h
    obtain ⟨r, hr, tolerance⟩ := List.mem_filterMap.1 hx
    obtain ⟨v, rule⟩ := Json.exists_of_orDefault_toList? decoded hr
    exact r.isFinite_of_ofJson? rule x tolerance
  · cases h

/-! ### Snapshots -/

/-- The values of the snapshot, without their codes. -/
def Snapshot.values (s : Snapshot) : List Float := s.toList.map Prod.snd

/-- A snapshot is rebuilt from its entries. Their codes are distinct, so no entry takes the place of
another. -/
theorem Snapshot.ofList_toList (s : Snapshot) : Collection.OrderedMap.ofList s.toList = s := by
  refine Collection.OrderedMap.ext_get? fun code => Option.ext fun x => ?_
  rw [Collection.OrderedMap.get?_ofList_eq_some_iff s.nodup_keys,
    Collection.OrderedMap.get?_eq_some_iff]

/-- A snapshot is written as an object with a member for each code, in order. The induction is on
its entries. -/
theorem Snapshot.encodes {s : Snapshot} (h : ∀ x ∈ s.values, ReadsBack x) :
    Encodes s.toJson ofJson? s := by
  have members {es : List (String × Float)} (h : ∀ e ∈ es, ReadsBack e.2) :
      ∃ rs, List.Forall₂ Json.IsReadMember (es.map fun e => (e.1, .float e.2)) rs ∧
        rs.mapM entry? = some es := by
    induction es with
    | nil => exact ⟨[], .nil, rfl⟩
    | cons e es ih =>
        obtain ⟨code, x⟩ := e
        obtain ⟨w, isRead, decoded⟩ := (h (code, x) List.mem_cons_self).encodes
        obtain ⟨rs, areRead, entries⟩ := ih fun e he => h e (List.mem_cons_of_mem _ he)
        have entry : entry? (code.toList.map Json.readBack, w) = some (code, x) := by
          simp only [Json.textOf?_readBack, decoded, entry?]
          rfl
        refine ⟨(code.toList.map Json.readBack, w) :: rs, .cons ⟨rfl, isRead⟩ areRead, ?_⟩
        rw [List.mapM_cons, entry, entries]
        rfl
  have values : ∀ e ∈ s.toList, ReadsBack e.2 := fun e he => h e.2 (List.mem_map_of_mem he)
  obtain ⟨rs, areRead, entries⟩ := members values
  refine ⟨.object rs, Json.isRead_record areRead, ?_⟩
  rw [ofJson?, entries, Option.map_some, ofList_toList]

/-! ### Options -/

/-- Options come back field by field if the tolerance does and the first period is on the clock. -/
theorem Options.encodes {o : Options} (clock : Clock.lowest ≤ o.start ∧ o.start ≤ Clock.highest)
    (h : ReadsBack o.tolerance) : Encodes o.toJson ofJson? o := by
  obtain ⟨_, strict, strictOk⟩ := Json.encodes_bool o.strict
  obtain ⟨_, tolerance, toleranceOk⟩ := h.encodes
  obtain ⟨_, start, startOk⟩ := Json.encodes_int clock
  obtain ⟨w, isRead, parts⟩ := Json.exists_partsOf o.toJson fields rfl rfl (by decide)
    (.cons strict (.cons tolerance (.cons start .nil)))
  refine ⟨w, isRead, ?_⟩
  rw [ofJson?, parts]
  simp [Json.orDefault, strictOk, toleranceOk, startOk]

/-- What reading checks beyond the fields themselves. -/
theorem Options.check_eq_ok_iff {o o' : Options} :
    o.check = .ok o' ↔ o = o' ∧ o.tolerance.isFinite = true ∧ 0.0 ≤ o.tolerance := by
  unfold check
  split
  · next usable =>
    rw [Bool.and_eq_true, decide_eq_true_eq] at usable
    simp [usable]
  · next unusable =>
    rw [Bool.and_eq_true, decide_eq_true_eq] at unusable
    simp [unusable]

/-! ### All documents -/

/-- JSON text keeps whatever has finite numbers. Of options it keeps exactly those that a
calculation can use, because reading checks them. -/
theorem read_undoes_write :
    (∀ t : Template, (∀ x ∈ t.tolerances, x.isFinite = true) → Json.Faithful t.tolerances →
      Template.read? t.write = some t) ∧
    (∀ (s : String) (t : Template), Template.read? s = some t → Json.Faithful t.tolerances →
      Template.read? t.write = some t) ∧
    (∀ s : Snapshot, (∀ x ∈ s.values, x.isFinite = true) → Json.Faithful s.values →
      Snapshot.read? s.write = some s) ∧
    (∀ o : Options, Clock.lowest ≤ o.start → o.start ≤ Clock.highest →
      Json.Faithful [o.tolerance] →
        (Options.read o.write = .ok o ↔ o.tolerance.isFinite = true ∧ 0.0 ≤ o.tolerance)) := by
  refine ⟨?_, ?_, ?_, ?_⟩
  · intro t finite faithful
    exact (Template.encodes fun x hx => faithful x hx (finite x hx)).read_toText
  · intro s t loaded faithful
    -- No text is read as a number that is not finite.
    have finite := Template.isFinite_of_read? loaded
    exact (Template.encodes fun x hx => faithful x hx (finite x hx)).read_toText
  · intro s finite faithful
    exact (Snapshot.encodes fun x hx => faithful x hx (finite x hx)).read_toText
  · intro o low high faithful
    constructor
    · intro loaded
      -- Reading checks what it has read, so a result says that the tolerance is usable.
      unfold Options.read at loaded
      split at loaded
      · cases loaded
      · obtain ⟨rfl, usable⟩ := Options.check_eq_ok_iff.1 loaded
        exact usable
    · intro usable
      have finite := faithful o.tolerance List.mem_cons_self usable.1
      have read := (Options.encodes ⟨low, high⟩ finite).read_toText
      rw [Options.read, Options.write, read]
      exact Options.check_eq_ok_iff.2 ⟨rfl, usable⟩

/-- A template with every kind of character that is escaped, one that is read under the other names
of its fields, a snapshot, and options of which one has a negative tolerance. -/
theorem read_undoes_write_escaped :
    let t : Template := ⟨"\"\\\t\x01é", [{ code := "A", formula := some "" }],
      [{ id := "r", formula := "A", kind := .equation, tolerance := some 0.01 }]⟩
    let text := "\x7b \"line_items\": [], \"validation_rules\": [\x7b\"rule_id\": \"r\", " ++
      "\"rule\": \"A\", \"tolerance\": 1e-2\x7d] \x7d"
    let aliased : Template := ⟨"", [], [{ id := "r", formula := "A", tolerance := some 0.01 }]⟩
    let s : Snapshot := .ofList [("NET", 60.0), ("", -0.5)]
    let o : Options := { tolerance := -1.0 }
    Template.read? t.write = some t ∧ Template.read? text = some aliased ∧
      Template.read? aliased.write = some aliased ∧ Snapshot.read? s.write = some s ∧
      Options.read ({} : Options).write = .ok {} ∧ Options.read o.write ≠ .ok o := by
  intro t text aliased s o
  obtain ⟨templates, loaded, snapshots, options⟩ := read_undoes_write
  have read : Template.read? text = some aliased := by decide +kernel
  refine ⟨templates t (by decide +kernel) (by decide +kernel), read,
    loaded text aliased read (by decide +kernel),
    snapshots s (by decide +kernel) (by decide +kernel),
    (options {} (by decide) (by decide) (by decide +kernel)).2 (by decide +kernel), ?_⟩
  intro kept
  have usable := (options o (by decide) (by decide) (by decide +kernel)).1 kept
  exact absurd usable.2 (by decide +kernel)

end Rollforward
