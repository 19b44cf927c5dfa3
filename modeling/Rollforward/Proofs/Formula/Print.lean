import Rollforward.Proofs.Decimal.Nearest
import Rollforward.Proofs.Formula.Literal
import Rollforward.Proofs.Formula.Prefix
import Rollforward.Proofs.Formula.References

/-!
# `Rollforward.Proofs.Formula.Print`: printed references read back

The text of a reference is a formula again, and the reference is all that it is (`parse_text`). That
takes a code that is a name, a namespace that has a prefix and an offset that is not too large
(`Reference.Printable`), and the references of formulas are such (`printable_of_parse`).

The text is put together from its tokens one after the other (`Lexes.cons`), each of which has to
end where the next begins. After the `t` of `[t-5]` something stands that begins like the second
part of a hyphenated prefix, but no colon follows. `lexesBefore_literal` says it of any offset, with
gaps and whatever the literal is.
-/

set_option autoImplicit false

namespace Rollforward.Formula

open Text (EndsRun endsRun_cons)

/-! ### Texts by their tokens -/

/-- The text has these tokens, wherever it stands. -/
def Lexes (cs : List Char) (row : List Token) : Prop :=
  ∀ start, ∃ ts, lexemes start cs = .ok ts ∧ ts.map Lexeme.token = row

/-- The empty text has no tokens. -/
theorem Lexes.nil : Lexes [] [] := fun _ => ⟨[], by rw [lexemes], rfl⟩

/-- One more token at the front. -/
theorem Lexes.cons {t : Token} {word rest : List Char} {row : List Token} (spelt : Spells t word)
    (ends : t.EndsBefore rest) (behind : Lexes rest row) : Lexes (word ++ rest) (t :: row) := by
  intro start
  obtain ⟨ts, read, same⟩ := behind (start + byteLength word)
  refine ⟨⟨t, start, word⟩ :: ts, ?_, by rw [List.map_cons, same]⟩
  rw [lexemes_spelling spelt ends, read]
  rfl

/-- What comes in front, with gaps perhaps, and the tokens behind it. -/
theorem LexesBefore.lexes {rest cs : List Char} {row row' : List Token}
    (front : LexesBefore rest cs row) (behind : Lexes rest row') :
    Lexes (cs ++ rest) (row ++ row') := by
  intro start
  obtain ⟨us, read, same⟩ := behind (start + byteLength cs)
  obtain ⟨ts, read, tokens⟩ := front start us read
  exact ⟨ts ++ us, read, by rw [List.map_append, tokens, same]⟩

/-- No hyphens make a name a prefix where there is no colon. -/
theorem Token.endsBefore_of_no_colon {s : String} {rest : List Char}
    (ends : EndsRun isWordChar rest) (noColon : ':' ∉ rest) : (Token.name s).EndsBefore rest :=
  ⟨ends, fun colon => noColon (List.mem_of_mem_drop (List.mem_of_mem_head? colon))⟩

/-- A code that is a name is spelt as it is. -/
theorem spells_name {s : String} (isName : IsName s.toList) : Spells (.name s) s.toList := by
  have spelt := Spells.name isName
  rwa [String.ofList_toList] at spelt

/-- A prefix is spelt with its colon behind it. -/
theorem spells_qualifier {s : String} (isQualifier : IsQualifier s.toList) :
    Spells (.qualifier s) (s.toList ++ [':']) := by
  have spelt := Spells.qualifier isQualifier
  rwa [String.ofList_toList] at spelt

/-! ### Offsets -/

/-- The character of a sign. -/
def UnaryOp.char : UnaryOp → Char
  | .plus => '+'
  | .negate => '-'

/-- An offset by `n` periods as it is printed. -/
def shiftText (sign : UnaryOp) (n : Nat) : List Char :=
  '[' :: 't' :: sign.char :: (Nat.toDigits 10 n ++ [']'])

/-- What is printed for an offset: nothing for the present, else a sign and the magnitude. -/
theorem toList_offsetText (o : Int) : (Reference.offsetText o).toList =
    if o = 0 then [] else
      if 0 < o then shiftText .plus o.natAbs else shiftText .negate o.natAbs := by
  unfold Reference.offsetText
  split
  · rfl
  split
  · simp [shiftText, UnaryOp.char]
  · simp [shiftText, UnaryOp.char]

/-- Nothing goes on into a bracket. -/
theorem Token.endsBefore_openBracket (s : String) (rest : List Char) :
    (Token.name s).EndsBefore ('[' :: rest) := by
  have none : hyphenated ('[' :: rest) = 0 := hyphenated_eq_zero_of_head? nofun
  refine ⟨endsRun_cons.2 (by decide), ?_⟩
  rw [none]
  nofun

/-- A code ends in front of an offset. -/
theorem endsBefore_offsetText (code : String) (o : Int) :
    (Token.name code).EndsBefore (Reference.offsetText o).toList := by
  rw [toList_offsetText]
  split
  · exact Token.endsBefore_of_gap _ nofun
  split
  · exact Token.endsBefore_openBracket code _
  · exact Token.endsBefore_openBracket code _

/-- A time variable ends in front of a sign, whatever literal comes next. -/
theorem Token.endsBefore_sign (s : String) (sign : UnaryOp) {rest : List Char}
    (noColon : ':' ∉ rest) : (Token.name s).EndsBefore ([sign.char] ++ rest) := by
  rw [List.singleton_append]
  refine Token.endsBefore_of_no_colon (endsRun_cons.2 (by cases sign <;> decide)) ?_
  rw [List.mem_cons, not_or]
  exact ⟨by cases sign <;> decide, noColon⟩

/-- The time variable is a name, in either case. -/
theorem spells_timeVariable {t : String} (isTime : IsTimeVariable t) :
    Spells (.name t) t.toList := by
  refine spells_name ?_
  obtain rfl | rfl := isTime
  · exact isName_singleton (by decide)
  · exact isName_singleton (by decide)

/-- A sign is spelt as one character. -/
theorem spells_sign (sign : UnaryOp) : Spells sign.token [sign.char] :=
  .sign (by cases sign <;> decide)

/-- What stands in an offset in front of the literal is read as the bracket, the time variable and
the sign. -/
theorem lexesBefore_literal {t : String} (isTime : IsTimeVariable t) {sign : UnaryOp}
    {before rest : List Char} (front : Loose [['['], t.toList, [sign.char]] before)
    (noColon : ':' ∉ rest) :
    LexesBefore rest before [.openBracket, .name t, sign.token] := by
  obtain ⟨_, _, gap₀, timed, rfl⟩ := front.exists_of_cons
  obtain ⟨_, _, gap₁, signed, rfl⟩ := timed.exists_of_cons
  obtain ⟨gap, last, gap₂, ended, rfl⟩ := signed.exists_of_cons
  have behind : ':' ∉ last ++ rest := by simp [ended.isGap.colon_not_mem, noColon]
  have timeEnds : (Token.name t).EndsBefore (gap ++ ([sign.char] ++ last) ++ rest) := by
    rw [List.append_assoc, List.append_assoc]
    exact (Token.endsBefore_sign t sign behind).gap_append gap₂
  have signEnds : sign.token.EndsBefore (last ++ rest) := by cases sign <;> exact True.intro
  exact .token gap₀ (.sign (by decide)) True.intro (.token gap₁ (spells_timeVariable isTime)
    timeEnds (.token gap₂ (spells_sign sign) signEnds (.gap ended.isGap)))

/-- A natural number is spelt with its digits and read without a fraction. -/
theorem spells_digits (n : Nat) : Spells (.numeral ⟨n, 0⟩) (Nat.toDigits 10 n) := by
  have spelt := Spells.whole Nat.toDigits_ne_nil (Decimal.isDigit_of_mem_toDigits (n := n))
  rwa [Decimal.ofParts_toDigits] at spelt

/-- A printed offset has the five tokens of one that is written without gaps. -/
theorem lexes_shiftText (sign : UnaryOp) (n : Nat) : Lexes (shiftText sign n)
    [.openBracket, .name "t", sign.token, .numeral ⟨n, 0⟩, .closeBracket] := by
  have noColon : ':' ∉ Nat.toDigits 10 n ++ [']'] := by
    simp [(spells_digits n).colon_not_mem_of_numeral]
  have front : Loose [['['], ['t'], [sign.char]] ['[', 't', sign.char] :=
    .word .nil (.word .nil (.word .nil (.gap .nil)))
  have digitsEnd : (Token.numeral ⟨n, 0⟩).EndsBefore [']'] := endsRun_cons.2 (by decide)
  exact (lexesBefore_literal (.inl rfl) front noColon).lexes
    (.cons (spells_digits n) digitsEnd (.cons (.sign (by decide)) True.intro .nil))

/-- An offset that is not too large is read as it is printed. The numeral counts it without
rounding. -/
theorem exists_form_of_offsetText {o : Int} (small : o.natAbs ≤ largestOffset) :
    ∃ form : OffsetForm, form.value = o ∧ Lexes (Reference.offsetText o).toList form.tokens := by
  have whole : Decimal.Numeral.toNat? ⟨o.natAbs, 0⟩ = some o.natAbs :=
    Decimal.Numeral.toNat?_whole (Nat.lt_of_le_of_lt small (by decide))
  let form (sign : UnaryOp) : OffsetForm := .shifted "t" (.inl rfl) sign _ _ whole small
  rw [toList_offsetText]
  split
  · next zero => exact ⟨.omitted, zero.symm, .nil⟩
  split
  · next ahead =>
    exact ⟨form .plus, Int.natAbs_of_nonneg (Int.le_of_lt ahead), lexes_shiftText .plus _⟩
  · next behind =>
    have value : -(o.natAbs : Int) = o := by omega
    exact ⟨form .negate, value, lexes_shiftText .negate _⟩

/-! ### References -/

namespace Reference

/-- What a reference needs in order to be read back: its code is a name, the name of its namespace
is a prefix for it, and its offset is not too large. -/
structure Printable (r : Reference) : Prop where
  code : IsName r.code.toList
  source : ∀ space, r.source = some space →
    IsQualifier space.name.toList ∧ .ofName space.name = space
  offset : r.offset.natAbs ≤ largestOffset

/-- The text of a reference is what an operand is read from, and that operand is the reference. -/
theorem Printable.exists_derivation {r : Reference} (h : r.Printable) :
    ∃ d : Derivation .operand, d.value = .reference r ∧ Lexes r.text.toList d.tokens := by
  obtain ⟨form, value, offset⟩ := exists_form_of_offsetText h.offset
  obtain ⟨source, code, o⟩ := r
  obtain rfl : form.value = o := value
  have named : Lexes (code.toList ++ (offsetText form.value).toList) (.name code :: form.tokens) :=
    .cons (spells_name h.code) (endsBefore_offsetText code _) offset
  cases source with
  | none =>
      refine ⟨.unqualified code form, rfl, ?_⟩
      simpa [text] using named
  | some space =>
      obtain ⟨isQualifier, same⟩ := h.source space rfl
      refine ⟨.qualified space.name code form, by rw [Derivation.value, same], ?_⟩
      have prefixed := Lexes.cons (spells_qualifier isQualifier) True.intro named
      simpa [text] using prefixed

/-- The text of a reference is read as the reference. -/
theorem Printable.parse_text {r : Reference} (h : r.Printable) :
    parse r.text = .ok (.reference r) := by
  obtain ⟨d, value, read⟩ := h.exists_derivation
  obtain ⟨ts, read, tokens⟩ := read 0
  rw [← value]
  exact parse_of_derivation read d.alone (d.tokens_alone.trans tokens.symm)

/-- The text of a reference has no other references. -/
theorem Printable.referencesOf_text {r : Reference} (h : r.Printable) :
    referencesOf r.text = .ok [r] := by
  rw [referencesOf_of_parse h.parse_text]
  rfl

end Reference

/-- The references of formulas can be read back. -/
theorem printable_of_parse {formula : String} {e : Expr} (parsed : parse formula = .ok e)
    {r : Reference} (hr : r ∈ e.references) : r.Printable := by
  obtain ⟨ts, read, stands⟩ := standsIn_of_parse parsed
  have spelt {t : Token} (ht : t ∈ ts.map Lexeme.token) : ∃ word, Spells t word := by
    obtain ⟨l, hl, rfl⟩ := List.mem_map.1 ht
    exact ⟨l.spelling, ((laidOut_of_lexemes read).exists_split hl).1⟩
  have stands := stands r hr
  refine ⟨?code, ?source, natAbs_offset_le parsed hr⟩
  case code =>
    obtain ⟨word, spelt⟩ := spelt stands.code_mem
    exact spelt.eq_of_name.1
  case source =>
    intro space named
    cases stands with
    | unqualified => cases named
    | @qualified q code offset inRow =>
        obtain rfl : Namespace.ofName q = space := Option.some.inj named
        obtain ⟨word, spelt⟩ := spelt (inRow.subset List.mem_cons_self)
        have isQualifier : IsQualifier q.toList := spelt.eq_of_qualifier.1
        exact ⟨Namespace.isQualifier_name_ofName isQualifier,
          Namespace.ofName_name_ofName isQualifier⟩

/-- The references of a formula are read back from their texts. The text of a reference is a formula
that is the reference and has no others, so no other reference of any formula is printed like it.

What is printed is what was written: the reference stands in the formula, with its prefix, its code
and its offset. The prefix names the raw inputs under two names, and the domain in lower case
otherwise. -/
theorem parse_text_of_mem_references {formula : String} {e : Expr}
    (parsed : parse formula = .ok e) {r : Reference} (hr : r ∈ e.references) :
    parse r.text = .ok (.reference r) ∧ referencesOf r.text = .ok [r] ∧
    (∃ ts, tokenize formula = .ok ts ∧ r.StandsIn (ts.map Lexeme.token) ∧
      ∀ q, .qualifier q ∈ ts.map Lexeme.token →
        Namespace.ofName q = if q.toLower = "rawinput" ∨ q.toLower = "driver" then .rawInput
          else .domain q.toLower) ∧
    ∀ formula' e', parse formula' = .ok e' → ∀ r' ∈ e'.references, r'.text = r.text → r' = r := by
  have printable := printable_of_parse parsed hr
  refine ⟨printable.parse_text, printable.referencesOf_text, ?written, ?apart⟩
  case written =>
    obtain ⟨ts, read, stands⟩ := standsIn_of_parse parsed
    refine ⟨ts, read, stands r hr, fun q hq => Namespace.ofName_eq_of_isQualifier ?_⟩
    obtain ⟨l, hl, token⟩ := List.mem_map.1 hq
    have spelt := ((laidOut_of_lexemes read).exists_split hl).1
    rw [token] at spelt
    exact spelt.eq_of_qualifier.1
  case apart =>
    intro formula' e' parsed' r' hr' same
    have again := (printable_of_parse parsed' hr').parse_text
    rw [same, printable.parse_text] at again
    exact (Expr.reference.inj (Except.ok.inj again)).symm

set_option maxRecDepth 20000 in
/-- Of the two hyphens one subtracts and one is in a prefix. The old name and the upper case of the
prefix and the time variable are not printed. -/
theorem parse_text_of_mem_references_hyphenated :
    let formula := "Driver:X[T-2147483647]-a-b:N"
    let lagged : Reference := ⟨some .rawInput, "X", -2147483647⟩
    let other : Reference := ⟨some (.domain "a-b"), "N", 0⟩
    ∃ e, parse formula = .ok e ∧ lagged ∈ e.references ∧ other ∈ e.references ∧
      lagged.text = "rawinput:X[t-2147483647]" ∧ parse lagged.text = .ok (.reference lagged) ∧
      other.text = "a-b:N" ∧ referencesOf other.text = .ok [other] := by
  intro formula lagged other
  have read : tokenize formula = .ok [⟨.qualifier "Driver", 0, "Driver:".toList⟩,
      ⟨.name "X", 7, ['X']⟩, ⟨.openBracket, 8, ['[']⟩, ⟨.name "T", 9, ['T']⟩, ⟨.minus, 10, ['-']⟩,
      ⟨.numeral ⟨2147483647, 0⟩, 11, "2147483647".toList⟩, ⟨.closeBracket, 21, [']']⟩,
      ⟨.minus, 22, ['-']⟩, ⟨.qualifier "a-b", 23, "a-b:".toList⟩, ⟨.name "N", 27, ['N']⟩] := by cbv
  have whole : Decimal.Numeral.toNat? ⟨2147483647, 0⟩ = some largestOffset := by decide +kernel
  let offset : OffsetForm := .shifted "T" (.inr rfl) .negate _ _ whole (Nat.le_refl _)
  have parsed : parse formula = .ok (.binary .sub (.reference lagged) (.reference other)) := by
    have raw : Namespace.ofName "Driver" = .rawInput := by decide +kernel
    have domain : Namespace.ofName "a-b" = .domain "a-b" := by decide +kernel
    rw [show lagged = ⟨some (.ofName "Driver"), "X", offset.value⟩ by rw [raw]; rfl,
      show other = ⟨some (.ofName "a-b"), "N", 0⟩ by rw [domain]]
    exact parse_of_derivation read (.uncompared (.sum
      (.product (.unraised (.qualified "Driver" "X" offset)) .productEnd)
      (.sumMore .sub rfl (.product (.unraised (.qualified "a-b" "N" .omitted)) .productEnd)
        .sumEnd))) rfl
  have first : lagged ∈ [lagged, other] := List.mem_cons_self
  have second : other ∈ [lagged, other] := List.mem_cons_of_mem _ List.mem_cons_self
  exact ⟨_, parsed, first, second, by cbv, (parse_text_of_mem_references parsed first).1, by cbv,
    (parse_text_of_mem_references parsed second).2.1⟩

end Rollforward.Formula
