import Rollforward.Json.Field
import Rollforward.Proofs.Json.Text

/-!
# `Rollforward.Proofs.Json.Field`: what is written has the shape that is read

`Encodes v decode a` says that the text of `v` is read as a value of which `decode` makes `a`. Parts
of a record are encoded one by one, and `exists_partsOf` finds them again under their fields. It
needs that members are written under the first names of the fields, and that no two fields share a
name.
-/

set_option autoImplicit false

namespace Rollforward.Json

variable {α : Type} {decode : Json → Option α}

/-- The text of `v` is read as a value of which `decode` makes `a`. -/
def Encodes (v : Json) (decode : Json → Option α) (a : α) : Prop :=
  ∃ w, IsRead v w ∧ decode w = some a

/-- What a value is encoded for: reading its text and decoding gives it back. -/
theorem Encodes.read_toText {v : Json} {a : α} (h : Encodes v decode a) :
    (read v.toText).bind decode = some a := by
  obtain ⟨w, isRead, decoded⟩ := h
  rw [isRead.read_toText, Option.bind_some, decoded]

/-! ### Parts -/

/-- Any text is encoded, whatever characters are in it. -/
theorem encodes_text (s : String) : Encodes (.text s) toText? s :=
  ⟨_, isRead_text s, textOf?_readBack s⟩

/-- A value that is written by its name, if the names are told apart when they are read. -/
theorem encodes_name {ofName? : String → Option α} {s : String} {a : α} (h : ofName? s = some a) :
    Encodes (.text s) (fun v => (toName? v).bind ofName?) a := by
  refine ⟨_, isRead_text s, ?_⟩
  show (textOf? _).bind ofName? = some a
  rw [textOf?_readBack, Option.bind_some, h]

/-- Both truth values. -/
theorem encodes_bool (b : Bool) : Encodes (.bool b) toBool? b := ⟨_, isRead_bool b, rfl⟩

/-- What is absent is written as null, which must not stand for anything else. -/
theorem encodes_optional {f : α → Json} (null : decode .null = none) {o : Option α}
    (h : ∀ a ∈ o, Encodes (f a) decode a) : Encodes (optional f o) (nullable decode) o := by
  cases o with
  | none => exact ⟨_, isRead_null, rfl⟩
  | some a =>
      obtain ⟨w, isRead, decoded⟩ := h a rfl
      refine ⟨w, isRead, ?_⟩
      unfold nullable
      split
      · rw [null] at decoded
        cases decoded
      · rw [decoded, Option.map_some]

/-- A list is encoded item by item. -/
theorem encodes_array {f : α → Json} {as : List α} (h : ∀ a ∈ as, Encodes (f a) decode a) :
    Encodes (.array (as.map f)) (toList? decode) as := by
  have items : ∃ ws, List.Forall₂ IsRead (as.map f) ws ∧ ws.mapM decode = some as := by
    induction as with
    | nil => exact ⟨[], .nil, rfl⟩
    | cons a as ih =>
        obtain ⟨w, isRead, decoded⟩ := h a List.mem_cons_self
        obtain ⟨ws, areRead, allDecoded⟩ := ih fun b hb => h b (List.mem_cons_of_mem a hb)
        refine ⟨w :: ws, .cons isRead areRead, ?_⟩
        rw [List.mapM_cons, decoded, allDecoded]
        rfl
  obtain ⟨ws, areRead, decoded⟩ := items
  exact ⟨.array ws, isRead_array areRead, decoded⟩

/-! ### Where parts come from -/

/-- What is there of a part that may be absent or null was decoded. -/
theorem exists_of_orDefault_nullable {part : Option Json} {o : Option α}
    (h : orDefault (nullable decode) none part = some o) {a : α} (ha : a ∈ o) :
    ∃ v, decode v = some a := by
  obtain rfl := Option.mem_def.1 ha
  cases part with
  | none => cases h
  | some v =>
      simp only [orDefault] at h
      unfold nullable at h
      split at h
      · cases h
      · obtain ⟨b, decoded, same⟩ := Option.map_eq_some_iff.1 h
        exact ⟨v, decoded.trans same⟩

/-- A list that was decoded has no item that was not. -/
theorem exists_of_mapM {vs : List Json} {as : List α} (h : vs.mapM decode = some as) :
    ∀ a ∈ as, ∃ v, decode v = some a := by
  induction vs generalizing as with
  | nil =>
      obtain rfl := Option.some.inj h
      exact List.forall_mem_nil _
  | cons v vs ih =>
      simp only [List.mapM_cons, Option.bind_eq_bind, Option.bind_eq_some_iff, Option.pure_def,
        Option.some.injEq] at h
      obtain ⟨b, first, bs, others, rfl⟩ := h
      intro a ha
      rcases List.mem_cons.1 ha with rfl | later
      · exact ⟨v, first⟩
      · exact ih others a later

/-- What stands in a part that is a list was decoded. -/
theorem exists_of_orDefault_toList? {part : Option Json} {as : List α}
    (h : orDefault (toList? decode) [] part = some as) {a : α} (ha : a ∈ as) :
    ∃ v, decode v = some a := by
  cases part with
  | none =>
      obtain rfl := Option.some.inj h
      cases ha
  | some v =>
      cases v with
      | array vs => exact exists_of_mapM h a ha
      | _ => cases h

/-! ### Records -/

/-- A name that none of the first fields has finds its field among the others. -/
theorem placeMember_append {name : String} (v : Json) {done : List (FieldNames × Option Json)}
    (h : ∀ field ∈ done, name ∉ field.1) (fields : List (FieldNames × Option Json)) :
    placeMember name v (done ++ fields) = (placeMember name v fields).map (done ++ ·) := by
  induction done with
  | nil => simp
  | cons field done ih =>
      obtain ⟨names, found⟩ := field
      have others := ih fun f hf => h f (List.mem_cons_of_mem _ hf)
      rw [List.cons_append, placeMember.eq_def]
      simp only [if_neg (h _ List.mem_cons_self), others, Option.map_map]
      rfl

/-- Members under the first names of their fields fill the fields in turn. -/
theorem placeMembers_written {ms : List (String × Json)} {rs : List (List Code × Json)}
    (h : List.Forall₂ IsReadMember ms rs) {fields : List FieldNames}
    (first : fields.map List.head? = ms.map fun m => some m.1) (distinct : fields.flatten.Nodup)
    {done : List (FieldNames × Option Json)}
    (apart : ∀ field ∈ done, ∀ name ∈ fields.flatten, name ∉ field.1) :
    (placeMembers rs (done ++ fields.map (·, none))).map (·.map (·.2)) =
      some (done.map (·.2) ++ rs.map fun r => some r.2) := by
  -- The fields in `done` have their members; each further member fills the next field.
  induction h generalizing fields done with
  | nil =>
      have none : fields = [] := List.map_eq_nil_iff.1 first
      simp [none, placeMembers]
  | @cons m r ms rs member members ih =>
      obtain ⟨key, v⟩ := r
      obtain ⟨rfl, -⟩ := member
      cases fields with
      | nil => cases first
      | cons names fields =>
          obtain ⟨head, others⟩ := List.cons.inj first
          have own : m.1 ∈ names := List.mem_of_head? head
          rw [List.flatten_cons, List.nodup_append] at distinct
          obtain ⟨-, rest, disjoint⟩ := distinct
          have placed : placeMember m.1 v (done ++ (names :: fields).map (·, none)) =
              some ((done ++ [(names, some v)]) ++ fields.map (·, none)) := by
            have before : ∀ field ∈ done, m.1 ∉ field.1 := fun field hf =>
              apart field hf m.1 (List.mem_append_left _ own)
            rw [placeMember_append v before, List.map_cons, placeMember, if_pos own]
            simp
          rw [placeMembers, textOf?_readBack]
          simp only [placed]
          rw [ih others rest]
          · simp
          · intro field hf name later
            rcases List.mem_append.1 hf with before | this
            · exact apart field before name (List.mem_append_right _ later)
            · obtain rfl := List.mem_singleton.1 this
              exact fun mine => disjoint name mine name later rfl

/-- The parts of a written record are found under their fields. -/
theorem exists_partsOf (v : Json) (fields : List FieldNames) {ms : List (String × Json)}
    (record : v = .record ms) (first : fields.map List.head? = ms.map fun m => some m.1)
    (distinct : fields.flatten.Nodup) {ws : List Json}
    (values : List.Forall₂ (fun m w => IsRead m.2 w) ms ws) :
    ∃ w, IsRead v w ∧ partsOf fields w = some (ws.map some) := by
  have members : ∃ rs, List.Forall₂ IsReadMember ms rs ∧ rs.map (·.2) = ws := by
    clear first record
    induction values with
    | nil => exact ⟨[], .nil, rfl⟩
    | @cons m w ms ws value values ih =>
        obtain ⟨rs, areRead, same⟩ := ih
        exact ⟨(m.1.toList.map readBack, w) :: rs, .cons ⟨rfl, value⟩ areRead,
          congrArg (w :: ·) same⟩
  obtain ⟨rs, areRead, same⟩ := members
  refine ⟨.object rs, record ▸ isRead_record areRead, ?_⟩
  have placed := placeMembers_written areRead first distinct (List.forall_mem_nil _)
  rw [List.nil_append] at placed
  rw [partsOf, placed, ← same, List.map_map]
  rfl

end Rollforward.Json
