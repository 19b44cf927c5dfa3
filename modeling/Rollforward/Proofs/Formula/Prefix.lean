import Rollforward.Formula.Reference
import Rollforward.Proofs.Formula.Lexis

/-!
# `Rollforward.Proofs.Formula.Prefix`: prefixes and the namespaces they name

A prefix has no blanks to trim, so it names the raw inputs under either of their names, in any case,
and otherwise the domain of its letters in lower case (`Namespace.ofName_eq_of_isQualifier`). Lower
case has the shape of a prefix again (`IsQualifier.map_toLower`). So the name of a namespace is a
prefix that names it (`Namespace.ofName_name_ofName`).
-/

set_option autoImplicit false

namespace Rollforward.Formula

/-! ### Characters of prefixes -/

/-- No character of a word is trimmed. -/
theorem isBlank_of_isWordChar {c : Char} (h : isWordChar c = true) : Text.isBlank c = false := by
  have range := range_of_isWordChar h
  rw [← Bool.not_eq_true]
  simp only [Text.isBlank, Bool.or_eq_true, Bool.and_eq_true, decide_eq_true_eq, beq_iff_eq]
  omega

/-! ### Lower case -/

/-- Digits have no case. -/
theorem not_isUpper_of_isDigit {c : Char} (digit : c.isDigit = true) : ¬c.isUpper = true := by
  simp only [Char.isUpper, Char.isDigit, UInt32.le_iff_toNat_le, ge_iff_le, Bool.and_eq_true,
    decide_eq_true_eq] at digit ⊢
  intro upper
  exact absurd (Nat.le_trans upper.1 digit.2) (by decide)

/-- The parts of a hyphenated prefix are in lower case. -/
theorem toLower_of_isLowerChar {c : Char} (h : isLowerChar c = true) : c.toLower = c := by
  refine Char.toLower_eq_of_not_isUpper fun upper => ?_
  simp only [isLowerChar, Bool.or_eq_true, beq_iff_eq] at h
  obtain (lower | digit) | rfl := h
  · exact Char.not_isLower_of_isUpper upper lower
  · exact not_isUpper_of_isDigit digit upper
  · exact absurd upper (by decide)

/-- Lower case keeps the first character of a word one. -/
theorem isWordStart_toLower {c : Char} (h : isWordStart c = true) :
    isWordStart c.toLower = true := by
  simp only [isWordStart, Bool.or_eq_true, beq_iff_eq] at h ⊢
  exact h.imp (Char.isAlpha_toLower_eq_isAlpha c).trans (by rintro rfl; rfl)

/-- Lower case keeps the characters of a word. -/
theorem isWordChar_toLower {c : Char} (h : isWordChar c = true) : isWordChar c.toLower = true := by
  simp only [isWordChar, Char.isAlphanum, Bool.or_eq_true, beq_iff_eq] at h ⊢
  obtain (letter | digit) | rfl := h
  · exact .inl (.inl ((Char.isAlpha_toLower_eq_isAlpha c).trans letter))
  · rw [Char.toLower_eq_of_not_isUpper (not_isUpper_of_isDigit digit)]
    exact .inl (.inr digit)
  · exact .inr rfl

/-- Lower case is lower case already. -/
theorem toLower_toLower (s : String) : s.toLower.toLower = s.toLower := by
  simp only [String.toLower, ← String.toList_inj, String.toList_map, List.map_map]
  exact List.map_congr_left fun c _ => Char.toLower_toLower_eq_toLower c

/-! ### Prefixes -/

/-- A word in lower case is a word. -/
theorem IsName.map_toLower {word : List Char} (h : IsName word) :
    IsName (word.map Char.toLower) where
  start := by
    obtain ⟨c, first, start⟩ := h.start
    exact ⟨c.toLower, by rw [List.head?_map, first]; rfl, isWordStart_toLower start⟩
  all := List.forall_mem_map.2 fun c hc => isWordChar_toLower (h.all c hc)

/-- The parts behind a hyphen are in lower case to begin with. -/
theorem IsHyphenated.map_toLower {parts : List Char} (h : IsHyphenated parts) :
    parts.map Char.toLower = parts := by
  induction h with
  | nil => rfl
  | @part word rest some lower more ih =>
      have same : word.map Char.toLower = word :=
        List.map_congr_left (fun c hc => toLower_of_isLowerChar (lower c hc)) |>.trans word.map_id
      rw [List.map_cons, List.map_append, same, ih]
      rfl

/-- Lower case has the shape of a prefix: the first word may change, the other parts stay. -/
theorem IsQualifier.map_toLower {q : List Char} (h : IsQualifier q) :
    IsQualifier (q.map Char.toLower) := by
  obtain ⟨name, hyphens, lower⟩ := h
  rename_i word parts
  rw [List.map_append, hyphens.map_toLower]
  refine .intro name.map_toLower hyphens fun some => List.forall_mem_map.2 fun c hc => ?_
  rw [toLower_of_isLowerChar (lower some c hc)]
  exact lower some c hc

/-- Hyphens and the parts between them have no blanks. -/
theorem IsHyphenated.visible {parts : List Char} (h : IsHyphenated parts) :
    ∀ c ∈ parts, Text.isBlank c = false := by
  induction h with
  | nil => nofun
  | part some lower more ih =>
      refine List.forall_mem_cons.2 ⟨by decide, List.forall_mem_append.2 ⟨fun c hc => ?_, ih⟩⟩
      exact isBlank_of_isWordChar (isWordChar_of_isLowerChar (lower c hc))

/-- A prefix has no blanks, so trimming does nothing to it. -/
theorem IsQualifier.visible {q : List Char} (h : IsQualifier q) :
    ∀ c ∈ q, Text.isBlank c = false := by
  obtain ⟨name, hyphens, -⟩ := h
  exact List.forall_mem_append.2
    ⟨fun c hc => isBlank_of_isWordChar (name.all c hc), hyphens.visible⟩

/-! ### Namespaces -/

namespace Namespace

variable {q : String}

/-- The namespace that a prefix names. -/
theorem ofName_eq_of_isQualifier (h : IsQualifier q.toList) :
    ofName q = if q.toLower = "rawinput" ∨ q.toLower = "driver" then .rawInput
      else .domain q.toLower := by
  rw [ofName, Text.trim_eq_self h.visible]

/-- The name of the namespace is a prefix. -/
theorem isQualifier_name_ofName (h : IsQualifier q.toList) :
    IsQualifier (ofName q).name.toList := by
  rw [ofName_eq_of_isQualifier h]
  split
  · next raw =>
    have isName : IsName "rawinput".toList := ⟨⟨'r', rfl, rfl⟩, List.all_eq_true.1 (by cbv)⟩
    rw [name, ← List.append_nil "rawinput".toList]
    exact .intro isName .nil fun some => absurd rfl some
  · rw [name, String.toLower, String.toList_map]
    exact h.map_toLower

/-- The name of the namespace names it. -/
theorem ofName_name_ofName (h : IsQualifier q.toList) : ofName (ofName q).name = ofName q := by
  rw [ofName_eq_of_isQualifier (isQualifier_name_ofName h), ofName_eq_of_isQualifier h]
  split
  · exact if_pos (.inl (by cbv))
  · next domain =>
    rw [name, toLower_toLower, if_neg domain]

end Namespace

end Rollforward.Formula
