import Mathlib.Data.List.Forall2
import Rollforward.Json.Writer
import Rollforward.Proofs.Decimal.Spelling
import Rollforward.Proofs.Json.Reader

/-!
# `Rollforward.Proofs.Json.Text`: what is written is read

`IsRead v w` says that the text of `v` is read as `w`, whatever the document goes on with. There is
one lemma for each kind of value, and arrays and objects are read when their parts are.

Only for strings `w` is not `v`: a control character that has no letter of its own is written as a
unit, and the reader leaves it one. The text of the string is the same (`textOf?_readBack`).
-/

set_option autoImplicit false

namespace Rollforward.Json

open Decimal (Spelling digitsValue)

/-! ### Strings -/

/-- How a written character is read. -/
def readBack (c : Char) : Code :=
  if c.toNat < 0x20 ∧ c ∉ ['\x08', '\x0c', '\n', '\r', '\t'] then .unit c.toNat else .char c

/-- The ways to write a character, and how each is read: as a letter behind a backslash, as a unit,
or as it is. -/
inductive Escape (c : Char) : List Char → Code → Prop where
  | letter (e : Char) (other : e ≠ 'u') (known : escaped? e = some c) : Escape c ['\\', e] (.char c)
  | unit (x y z w : Char) (control : c.toNat < 0x20) (digits : unit? x y z w = some c.toNat) :
      Escape c ['\\', 'u', x, y, z, w] (.unit c.toNat)
  | plain (quote : c ≠ '"') (backslash : c ≠ '\\') (control : ¬c.toNat < 0x20) :
      Escape c [c] (.char c)

/-- Whatever the writer puts down for a character is one of the three ways. -/
theorem escape_escape (c : Char) : Escape c (escape c) (readBack c) := by
  -- The controls are few enough to try them all.
  have hex : ∀ n < 0x20, ∃ x y z w, hexDigits n = [x, y, z, w] ∧ unit? x y z w = some n := by
    have digits : ∀ n < 0x20, hexDigits n =
        ['0', '0', Nat.digitChar (n / 16), Nat.digitChar (n % 16)] ∧
        unit? '0' '0' (Nat.digitChar (n / 16)) (Nat.digitChar (n % 16)) = some n := by decide
    exact fun n control => ⟨_, _, _, _, digits n control⟩
  have letter {e x : Char} (same : c = x) (other : e ≠ 'u') (known : escaped? e = some x)
      (back : readBack x = .char x) : Escape c ['\\', e] (readBack c) := by
    rw [same, back]
    exact .letter e other known
  unfold escape
  split
  · next same => exact letter same (by decide) rfl rfl
  split
  · next same => exact letter same (by decide) rfl rfl
  split
  · next b => exact letter b (by decide) rfl rfl
  split
  · next f => exact letter f (by decide) rfl rfl
  split
  · next n => exact letter n (by decide) rfl rfl
  split
  · next r => exact letter r (by decide) rfl rfl
  split
  · next t => exact letter t (by decide) rfl rfl
  next quote backslash b f n r t =>
  split
  · next control =>
    obtain ⟨x, y, z, w, digits, unit⟩ := hex c.toNat control
    have back : readBack c = .unit c.toNat := if_pos ⟨control, by simp [b, f, n, r, t]⟩
    rw [digits, back]
    exact .unit x y z w control unit
  · next printable =>
    have back : readBack c = .char c := if_neg fun h => printable h.1
    rw [back]
    exact .plain quote backslash printable

/-- A written character is read as one code and leaves the rest alone. -/
theorem readCodes_escape (c : Char) (more : List Char) :
    Rest.result (readCodes (escape c ++ more)) =
      (Rest.result (readCodes more)).map fun r => (readBack c :: r.1, r.2) := by
  have written := escape_escape c
  generalize escape c = text, readBack c = code at written
  cases written with
  | letter e other known => exact readCodes_escaped other known more
  | unit x y z w control digits => exact readCodes_unit digits more
  | plain quote backslash control => exact readCodes_plain quote backslash control more

/-- A written string is read as its characters. -/
theorem readCodes_written (s : String) (rest : List Char) :
    Rest.result (readCodes ((codesOf s).flatMap writeCode ++ '"' :: rest)) =
      some (s.toList.map readBack, rest) := by
  unfold codesOf
  induction s.toList with
  | nil => exact readCodes_quote rest
  | cons c cs ih =>
      rw [List.map_cons, List.flatMap_cons, List.append_assoc, writeCode, readCodes_escape, ih]
      rfl

/-- No control is half of a character, so the units decode to the characters that they were. -/
theorem decode_readBack (cs : List Char) : decode (cs.map readBack) = some cs := by
  induction cs with
  | nil => rfl
  | cons c cs ih =>
      rw [List.map_cons, readBack]
      split
      · next control =>
        have leading : isLeading c.toNat = false := decide_eq_false (by omega)
        have trailing : isTrailing c.toNat = false := decide_eq_false (by omega)
        rw [decode.eq_def]
        simp [leading, trailing, ih]
      · rw [decode, ih, Option.map_some]

/-- The text of a string survives, though its codes may not be what was written. -/
theorem textOf?_readBack (s : String) : textOf? (s.toList.map readBack) = some s := by
  rw [textOf?, decode_readBack, Option.map_some, String.ofList_toList]

/-! ### Numbers -/

/-- What can stand behind a written value: a separator, the end of what it is part of, or
nothing. -/
def Ends (rest : List Char) : Prop := ∀ c ∈ rest.head?, c ∈ [',', ']', '\x7d']

/-- A document ends with its value. -/
theorem Ends.nil : Ends [] := nofun

/-- A separator or a closing bracket or brace ends a value. -/
theorem ends_cons {c : Char} (h : c ∈ [',', ']', '\x7d']) (rest : List Char) :
    Ends (c :: rest) := by
  intro c' first
  obtain rfl := Option.some.inj first
  exact h

/-- A character behind a value goes on no number. -/
theorem Ends.ne {rest : List Char} (h : Ends rest) :
    Decimal.StopsDigits rest ∧ ∀ c ∈ rest.head?, c ≠ '.' ∧ c ≠ 'e' ∧ c ≠ 'E' := by
  have separators : ∀ c ∈ [',', ']', '\x7d'],
      c.isDigit = false ∧ c ≠ '.' ∧ c ≠ 'e' ∧ c ≠ 'E' := by simp
  exact ⟨fun c first => (separators c (h c first)).1, fun c first => (separators c (h c first)).2⟩

/-- The digits behind a point, with the point. -/
def fractionChars (fraction : List Char) : List Char :=
  if fraction.isEmpty then [] else '.' :: fraction

/-- A power with its letter and its sign. -/
def powerChars : Option Int → List Char
  | none => []
  | some p => 'e' :: (if p < 0 then '-' else '+') :: Nat.toDigits 10 p.natAbs

/-- The digits of a number, its fraction and its power, in the order in which they are read. -/
theorem chars_eq (s : Spelling) :
    s.chars = s.whole ++ (fractionChars s.fraction ++ powerChars s.power) := by
  rw [Spelling.chars, List.append_assoc]
  cases s.power <;> rfl

/-- An integer from its sign and its digits. -/
theorem ite_neg_natAbs (i : Int) :
    (if decide (i < 0) = true then -(i.natAbs : Int) else (i.natAbs : Int)) = i := by
  simp only [decide_eq_true_eq]
  split <;> omega

/-- The power is read back with its sign, or its absence is. -/
theorem readPower_powerChars (power : Option Int) {rest : List Char} (ends : Ends rest) :
    readPower (powerChars power ++ rest) = some (power, rest) := by
  obtain ⟨stops, letters⟩ := ends.ne
  cases power with
  | none =>
      cases rest with
      | nil => rfl
      | cons c cs =>
          obtain ⟨-, e, E⟩ := letters c rfl
          exact if_neg (not_or.2 ⟨e, E⟩)
  | some p =>
      have digits : ∀ c ∈ Nat.toDigits 10 p.natAbs, c.isDigit = true :=
        Decimal.isDigit_of_mem_toDigits
      -- The sign is always written, and both signs are read.
      have sign (more : List Char) :
          readSign true ((if p < 0 then '-' else '+') :: more) = (decide (p < 0), more) := by
        by_cases negative : p < 0
        · rw [if_pos negative, decide_eq_true negative]
          rfl
        · rw [if_neg negative, decide_eq_false negative]
          rfl
      have nonempty : (Nat.toDigits 10 p.natAbs).isEmpty = false := by
        simp [Nat.toDigits_ne_nil]
      show readPower ('e' :: (if p < 0 then '-' else '+') ::
        (Nat.toDigits 10 p.natAbs ++ rest)) = some (some p, rest)
      rw [readPower, if_pos (Or.inl rfl)]
      simp only [sign, Decimal.takeWhile_isDigit_append digits stops,
        Decimal.dropWhile_isDigit_append digits stops, nonempty, Decimal.digitsValue_toDigits,
        ite_neg_natAbs]
      rfl

/-- What stands behind the digits in front of a power is no digit and no point. -/
theorem powerChars_stops (power : Option Int) {rest : List Char} (ends : Ends rest) :
    Decimal.StopsDigits (powerChars power ++ rest) ∧
      ∀ c ∈ (powerChars power ++ rest).head?, c ≠ '.' := by
  cases power with
  | none => exact ⟨ends.ne.1, fun c first => (ends.ne.2 c first).1⟩
  | some p =>
      have letter {c : Char} (first : c ∈ (powerChars (some p) ++ rest).head?) : 'e' = c :=
        Option.some.inj first
      exact ⟨fun c first => letter first ▸ rfl, fun c first => letter first ▸ by decide⟩

/-- The whole part ends where the fraction begins, or where the power does. -/
theorem fractionChars_stops (fraction : List Char) {more : List Char}
    (digits : Decimal.StopsDigits more) : Decimal.StopsDigits (fractionChars fraction ++ more) := by
  cases fraction with
  | nil => exact digits
  | cons c cs =>
      intro c' first
      obtain rfl := Option.some.inj first
      rfl

/-- The fraction is read back with its point, or its absence is. -/
theorem readFraction_fractionChars {fraction more : List Char}
    (h : ∀ c ∈ fraction, c.isDigit = true) (digits : Decimal.StopsDigits more)
    (point : ∀ c ∈ more.head?, c ≠ '.') :
    readFraction (fractionChars fraction ++ more) = some (fraction, more) := by
  cases fraction with
  | nil =>
      cases more with
      | nil => rfl
      | cons c cs => exact if_neg (point c rfl)
  | cons c cs =>
      have written := Decimal.takeWhile_isDigit_append h digits
      have behind := Decimal.dropWhile_isDigit_append h digits
      show readFraction ('.' :: (c :: cs ++ more)) = _
      rw [readFraction, if_pos rfl]
      simp only [written, behind]
      rfl

/-- A numeral begins with a digit, and so with no sign. -/
theorem readSign_chars {s : Spelling} (h : s.IsNumeral) (plus : Bool) (rest : List Char) :
    readSign plus (s.chars ++ rest) = (false, s.chars ++ rest) := by
  have first := h.whole_digits
  rw [chars_eq]
  cases whole : s.whole with
  | nil => exact absurd whole h.whole_ne_nil
  | cons c cs =>
      have digit : c.isDigit = true := first c (whole ▸ List.mem_cons_self)
      have minus : c ≠ '-' := by
        rintro rfl
        simp at digit
      have noPlus : (c == '+') = false := by
        rw [beq_eq_false_iff_ne]
        rintro rfl
        simp at digit
      simp [readSign, minus, noPlus]

/-- A numeral is read as it is written. -/
theorem readNumber_writeNumber {n : Number} (h : n.spelling.IsNumeral) {rest : List Char}
    (ends : Ends rest) : readNumber (writeNumber n ++ rest) = some (n, rest) := by
  obtain ⟨negative, s⟩ := n
  have sign : readSign false (writeNumber ⟨negative, s⟩ ++ rest) = (negative, s.chars ++ rest) := by
    cases negative with
    | false => exact readSign_chars h false rest
    | true => rfl
  obtain ⟨digits, point⟩ := powerChars_stops s.power ends
  have stops := fractionChars_stops s.fraction digits
  have split : s.chars ++ rest =
      s.whole ++ (fractionChars s.fraction ++ (powerChars s.power ++ rest)) := by
    rw [chars_eq]
    simp only [List.append_assoc]
  have leading :
      ¬((s.whole.isEmpty || (s.whole.head? == some '0' && 1 < s.whole.length)) = true) := by
    have nonempty := h.whole_ne_nil
    have alone := h.zero_alone
    simp only [Bool.or_eq_true, List.isEmpty_iff, Bool.and_eq_true, beq_iff_eq, decide_eq_true_eq]
    rintro (empty | ⟨zero, long⟩)
    · exact nonempty empty
    · exact absurd (alone zero) (Nat.ne_of_gt long)
  rw [readNumber, sign]
  simp only [split, Decimal.takeWhile_isDigit_append h.whole_digits stops,
    Decimal.dropWhile_isDigit_append h.whole_digits stops, if_neg leading,
    readFraction_fractionChars h.fraction_digits digits point, Option.bind_eq_bind,
    Option.bind_some, readPower_powerChars s.power ends]
  rfl

/-! ### Values -/

/-- The text of `v` is read as `w` wherever a value may stand. -/
def IsRead (v w : Json) : Prop :=
  ∀ rest, Ends rest → Rest.result (readValue (write v ++ rest)) = some (w, rest)

/-- What stands behind a value is not passed over as a blank. -/
theorem Ends.skipSpace {rest : List Char} (h : Ends rest) : skipSpace rest = rest := by
  cases rest with
  | nil => rfl
  | cons c cs =>
      have separators : ∀ c ∈ [',', ']', '\x7d'], isSpace c = false := by simp [isSpace]
      exact skipSpace_cons (separators c (h c rfl)) cs

/-- A whole document is a value with nothing behind it. -/
theorem IsRead.read_toText {v w : Json} (h : IsRead v w) : read v.toText = some w := by
  have whole := h [] .nil
  rw [List.append_nil] at whole
  rw [read_eq, toText, String.toList_ofList, whole]
  rfl

/-- The value that is read back for what is absent. -/
theorem isRead_null : IsRead .null .null := by
  intro rest _
  show Rest.result (readValue ('n' :: ("ull".toList ++ rest))) = _
  rw [readValue_cons (by decide)]
  simp [behindWord?]

/-- Both words are read back. -/
theorem isRead_bool (b : Bool) : IsRead (.bool b) (.bool b) := by
  intro rest _
  cases b with
  | true =>
      show Rest.result (readValue ('t' :: ("rue".toList ++ rest))) = _
      rw [readValue_cons (by decide)]
      simp [behindWord?]
  | false =>
      show Rest.result (readValue ('f' :: ("alse".toList ++ rest))) = _
      rw [readValue_cons (by decide)]
      simp [behindWord?]

/-- A written number begins with a minus or a digit, by which the reader knows it. -/
theorem writeNumber_cons {n : Number} (h : n.spelling.IsNumeral) : ∃ c cs, writeNumber n = c :: cs ∧
    c ∉ [' ', '\n', '\t', '\r', '"', '[', '\x7b', 't', 'f', 'n'] := by
  have others : ∀ c ∈ [' ', '\n', '\t', '\r', '"', '[', '\x7b', 't', 'f', 'n'],
      c.isDigit = false := by simp
  obtain ⟨negative, s⟩ := n
  cases negative with
  | true => exact ⟨'-', s.chars, rfl, by decide⟩
  | false =>
      have first := h.whole_digits
      cases whole : s.whole with
      | nil => exact absurd whole h.whole_ne_nil
      | cons c cs =>
          refine ⟨c, cs ++ (fractionChars s.fraction ++ powerChars s.power), ?_, ?_⟩
          · rw [writeNumber, chars_eq, whole]
            rfl
          · intro other
            have digit : c.isDigit = true := first c (whole ▸ List.mem_cons_self)
            exact absurd digit (by simp [others c other])

/-- A number is read with the digits that were written, not with a value that they stand for. -/
theorem isRead_number {n : Number} (h : n.spelling.IsNumeral) : IsRead (.number n) (.number n) := by
  intro rest ends
  have number := readNumber_writeNumber h ends
  obtain ⟨c, cs, written, other⟩ := writeNumber_cons h
  simp only [List.mem_cons, List.not_mem_nil, or_false, not_or] at other
  obtain ⟨space, newline, tab, carriage, quote, bracket, brace, t, f, n⟩ := other
  rw [write, written, List.cons_append, readValue_cons (by simp [isSpace, *]), if_neg quote,
    if_neg bracket, if_neg brace, if_neg t, if_neg f, if_neg n, ← List.cons_append, ← written,
    number]
  rfl

/-- A text is read as the codes of its characters. -/
theorem isRead_text (s : String) : IsRead (.text s) (.string (s.toList.map readBack)) := by
  intro rest _
  show Rest.result (readValue (writeString (codesOf s) ++ rest)) = _
  rw [writeString, List.cons_append, List.cons_append, readValue_cons (by decide), if_pos rfl,
    List.append_assoc, List.singleton_append, readCodes_written]
  rfl

/-- Behind an item stands a comma or the closing bracket, and the item ends in front of either. -/
theorem readItems_written {vs ws : List Json} (h : List.Forall₂ IsRead vs ws) (some : vs ≠ [])
    (rest : List Char) :
    Rest.result (readItems (writeItems vs ++ ']' :: rest)) = Option.some (ws, rest) := by
  induction h with
  | nil => exact absurd rfl some
  | @cons v w vs ws item items ih =>
      cases items with
      | nil =>
          have ends := ends_cons (c := ']') (by decide) rest
          rw [readItems_eq, writeItems, item _ ends]
          simp only [Option.bind_some, ends.skipSpace]
          rfl
      | @cons v' w' vs ws item' items =>
          have text : writeItems (v :: v' :: vs) ++ ']' :: rest =
              write v ++ ',' :: (writeItems (v' :: vs) ++ ']' :: rest) := by
            simp [writeItems]
          have ends := ends_cons (c := ',') (by decide) (writeItems (v' :: vs) ++ ']' :: rest)
          rw [readItems_eq, text, item _ ends]
          simp only [Option.bind_some, ends.skipSpace, if_pos, ih (List.cons_ne_nil _ _)]
          rfl

/-- An array is read when its items are. Behind each item stands a comma or the bracket, and both
end it. -/
theorem isRead_array {vs ws : List Json} (h : List.Forall₂ IsRead vs ws) :
    IsRead (.array vs) (.array ws) := by
  intro rest _
  have text : write (.array vs) ++ rest = '[' :: (writeItems vs ++ ']' :: rest) := by
    simp [write]
  rw [text, readValue_cons (by decide), if_neg (by decide), if_pos rfl]
  cases h with
  | nil => rfl
  | @cons v w vs ws item items =>
      have read := readItems_written (.cons item items) (List.cons_ne_nil _ _) rest
      -- What was read as items does not begin with the closing bracket.
      split
      · next final closed =>
        rw [readItems_eq, readValue_bracket closed] at read
        cases read
      · rw [read]
        rfl

/-- The member `m` of a record is read as `r`. -/
def IsReadMember (m : String × Json) (r : List Code × Json) : Prop :=
  r.1 = m.1.toList.map readBack ∧ IsRead m.2 r.2

/-- The first member is read the same, whatever comes behind it. -/
theorem readMembers_member (k : String) {v w : Json} (value : IsRead v w) {c : Char}
    (separates : c ∈ [',', ']', '\x7d']) (rest : List Char) :
    Rest.result (readMembers (writeString (codesOf k) ++ ':' :: (write v ++ c :: rest))) =
      if c = ',' then
        (Rest.result (readMembers rest)).map fun r => ((k.toList.map readBack, w) :: r.1, r.2)
      else if c = '\x7d' then some ([(k.toList.map readBack, w)], rest)
      else none := by
  have text : writeString (codesOf k) ++ ':' :: (write v ++ c :: rest) =
      '"' :: ((codesOf k).flatMap writeCode ++ '"' :: (':' :: (write v ++ c :: rest))) := by
    simp [writeString]
  have ends := ends_cons separates rest
  rw [text, readMembers_cons, readCodes_written]
  simp only [Option.bind_some, skipSpace_cons (c := ':') rfl, value _ ends, ends.skipSpace]

/-- The members of a record are read one after the other, each with its name. -/
theorem readMembers_written {ms : List (String × Json)} {rs : List (List Code × Json)}
    (h : List.Forall₂ IsReadMember ms rs) (some : ms ≠ []) (rest : List Char) :
    Rest.result (readMembers (writeMembers (ms.map fun m => (codesOf m.1, m.2)) ++
      '\x7d' :: rest)) = Option.some (rs, rest) := by
  induction h with
  | nil => exact absurd rfl some
  | @cons m r ms rs member members ih =>
      obtain ⟨codes, w⟩ := r
      obtain ⟨rfl, value⟩ := member
      cases members with
      | nil =>
          have text : writeMembers [(codesOf m.1, m.2)] ++ '\x7d' :: rest =
              writeString (codesOf m.1) ++ ':' :: (write m.2 ++ '\x7d' :: rest) := by
            simp [writeMembers]
          rw [List.map_cons, List.map_nil, text, readMembers_member m.1 value (by decide)]
          rfl
      | @cons m' r' ms rs member' members =>
          have text : writeMembers ((m :: m' :: ms).map fun m => (codesOf m.1, m.2)) ++
                '\x7d' :: rest =
              writeString (codesOf m.1) ++ ':' :: (write m.2 ++ ',' ::
                (writeMembers ((m' :: ms).map fun m => (codesOf m.1, m.2)) ++ '\x7d' :: rest)) := by
            simp [writeMembers]
          rw [text, readMembers_member m.1 value (by decide), if_pos rfl, ih (List.cons_ne_nil _ _)]
          rfl

/-- A record is read as an object with the same members in the same order. -/
theorem isRead_record {ms : List (String × Json)} {rs : List (List Code × Json)}
    (h : List.Forall₂ IsReadMember ms rs) : IsRead (.record ms) (.object rs) := by
  intro rest _
  have text : write (.record ms) ++ rest =
      '\x7b' :: (writeMembers (ms.map fun m => (codesOf m.1, m.2)) ++ '\x7d' :: rest) := by
    simp [record, write]
  rw [text, readValue_cons (by decide), if_neg (by decide), if_neg (by decide), if_pos rfl]
  cases h with
  | nil => rfl
  | @cons m r ms rs member members =>
      have read := readMembers_written (.cons member members) (List.cons_ne_nil _ _) rest
      split
      · next final closed =>
        rw [readMembers_brace closed] at read
        cases read
      · rw [read]
        rfl

end Rollforward.Json
