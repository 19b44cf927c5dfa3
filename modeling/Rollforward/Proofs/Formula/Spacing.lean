import Rollforward.Proofs.Formula.Alike
import Rollforward.Proofs.Formula.Bytes

/-!
# `Rollforward.Proofs.Formula.Spacing`: tokens keep the text, and gaps do not matter

Places are counted in bytes, and one may read the bytes as well (`tokenizeBytes_eq`). `IsSlice` says
that two places of a text lie between characters and which characters lie between the two. The
tokens of a text stand at such places (`isSlice_of_mem_tokenize`), and so does the character at
which there is no token (`exists_split_of_lexemes_error`).

`tokenize_loses_nothing` adds what the gaps are worth. Nothing but gaps is outside of the tokens,
and whoever puts other gaps between them gets a text that is read as the first one.
-/

set_option autoImplicit false

namespace Rollforward.Formula

/-! ### Bytes -/

/-- The number of bytes that places count is that of the encoding. -/
theorem size_utf8Encode (cs : List Char) : cs.utf8Encode.size = byteLength cs := by
  induction cs with
  | nil => rfl
  | cons c cs ih =>
      rw [List.utf8Encode_cons, ByteArray.size_append, ih, byteLength, List.utf8Encode_singleton,
        List.size_toByteArray, String.length_utf8EncodeChar]

/-- The bytes of the text from `start` up to `stop` are whole characters, those of `piece`. -/
structure IsSlice (text : String) (start stop : Nat) (piece : List Char) : Prop where
  starts : String.Pos.Raw.IsValid text ⟨start⟩
  stops : String.Pos.Raw.IsValid text ⟨stop⟩
  bytes : text.toByteArray.extract start stop = piece.utf8Encode

section
variable {text : String} {before piece after : List Char}

/-- Behind any of its first characters a text has a place between characters. -/
theorem isValid_of_split (split : text.toList = before ++ after) :
    String.Pos.Raw.IsValid text ⟨byteLength before⟩ := by
  refine String.Pos.Raw.isValid_iff_exists_append.2
    ⟨String.ofList before, String.ofList after, ?_, ?_⟩
  · rw [← String.ofList_append, ← split, String.ofList_toList]
  · rw [String.Pos.Raw.ext_iff, String.byteIdx_rawEndPos, ← String.size_toByteArray,
      String.toByteArray_ofList, size_utf8Encode]

/-- A piece of a text is a slice between the bytes in front of it and those up to its end. -/
theorem isSlice_of_split (split : text.toList = before ++ (piece ++ after)) :
    IsSlice text (byteLength before) (byteLength before + byteLength piece) piece where
  starts := isValid_of_split split
  stops := by
    rw [← byteLength_append]
    exact isValid_of_split (split.trans (List.append_assoc _ _ _).symm)
  bytes := by
    have whole :
        text.toByteArray = before.utf8Encode ++ (piece.utf8Encode ++ after.utf8Encode) := by
      rw [← String.ofList_toList (s := text), split, String.toByteArray_ofList,
        List.utf8Encode_append, List.utf8Encode_append]
    have first : (piece.utf8Encode ++ after.utf8Encode).extract 0 piece.utf8Encode.size =
        piece.utf8Encode := ByteArray.extract_append_eq_left rfl
    rw [whole, ← size_utf8Encode, ← size_utf8Encode]
    rw [← ByteArray.extract_append_size_add (a := before.utf8Encode), Nat.add_zero] at first
    exact first

end

/-! ### The places of tokens -/

/-- A token of a text is spelt where it stands, and what it has of the text is a slice of that. -/
theorem isSlice_of_mem_tokenize {formula : String} {ts : List Lexeme}
    (h : tokenize formula = .ok ts) {l : Lexeme} (hl : l ∈ ts) :
    Spells l.token l.spelling ∧ IsSlice formula l.start l.stop l.spelling ∧
      (∀ s, l.token = .text s → IsSlice formula (l.start + 1) (l.stop - 1) s.toList) ∧
      (∀ s, l.token = .name s → IsSlice formula l.start l.stop s.toList) ∧
      ∀ s, l.token = .qualifier s → IsSlice formula l.start (l.stop - 1) s.toList := by
  obtain ⟨spelt, before, after, split, place⟩ := (laidOut_of_lexemes h).exists_split hl
  rw [Nat.zero_add] at place
  have slice : IsSlice formula l.start l.stop l.spelling := by
    rw [Lexeme.stop, place]
    exact isSlice_of_split split
  refine ⟨spelt, slice, ?text, ?name, ?qualifier⟩
  case text =>
    intro s token
    rw [token] at spelt
    obtain ⟨quote, isQuote, word⟩ := spelt.eq_of_text
    -- A quote is one byte, whichever it is, so the text lies one byte in from both ends.
    have width : byteLength [quote] = 1 := by
      obtain rfl | rfl := isQuote
      · rfl
      · rfl
    have split : formula.toList = (before ++ [quote]) ++ (s.toList ++ (quote :: after)) := by
      rw [split, word]
      simp
    have body := isSlice_of_split split
    have ends : l.stop - 1 = l.start + 1 + byteLength s.toList := by
      rw [Lexeme.stop, word, ← List.singleton_append, byteLength_append, byteLength_append, width]
      omega
    rwa [byteLength_append, width, ← place, ← ends] at body
  case name =>
    intro s token
    rw [token] at spelt
    rwa [spelt.eq_of_name.2] at slice
  case qualifier =>
    intro s token
    rw [token] at spelt
    -- The prefix begins where its token does, and the colon is the last byte.
    have word := spelt.eq_of_qualifier.2
    have split : formula.toList = before ++ (s.toList ++ (':' :: after)) := by
      rw [split, word]
      simp
    have named := isSlice_of_split split
    have ends : l.stop - 1 = l.start + byteLength s.toList := by
      rw [Lexeme.stop, word, byteLength_append]
      rfl
    rwa [← place, ← ends] at named

/-! ### The place without a token -/

/-- A text has no tokens where one of its characters, at the place of the fault, begins none. -/
theorem exists_split_of_lexemes_error {start : Nat} {cs : List Char} {e : SyntaxError}
    (h : lexemes start cs = .error e) :
    ∃ before c after, cs = before ++ c :: after ∧ e.position = start + byteLength before ∧
      Text.isSpacer c = false ∧ scan c after = .error e.fault := by
  fun_induction lexemes start cs with
  | case1 start => cases h
  | case2 start c cs spacer ih =>
      obtain ⟨before, c', after, rfl, place, rest⟩ := ih h
      refine ⟨c :: before, c', after, rfl, ?_, rest⟩
      rw [place, byteLength, Nat.add_assoc]
  | case3 start c cs spacer fault scanned =>
      obtain rfl : (⟨fault, start⟩ : SyntaxError) = e := Except.error.inj h
      exact ⟨[], c, cs, rfl, rfl, eq_false_of_ne_true spacer, scanned⟩
  | case4 start c cs spacer token more scanned spelling e' failed =>
      rename_i ih
      obtain rfl : e' = e := Except.error.inj h
      obtain ⟨before, c', after, rest, place, fails⟩ := ih failed
      refine ⟨spelling ++ before, c', after, ?_, ?_, fails⟩
      · rw [List.append_assoc, ← rest, List.cons_append, List.take_append_drop]
      · rw [place, byteLength_append, Nat.add_assoc]
  | case5 start c cs spacer token more scanned spelling rest behind => cases h

/-- Where a text has no tokens, the fault shows at a character of it. -/
theorem isSlice_of_tokenize_error {formula : String} {e : SyntaxError}
    (h : tokenize formula = .error e) :
    ∃ c, IsSlice formula e.position (e.position + c.utf8Size) [c] ∧
      ((e.fault = .badNumeral "." ∧ c = '.') ∨
        (e.fault = .unterminatedText ∧ (c = '"' ∨ c = '\'')) ∨
          e.fault = .unexpectedCharacter c) := by
  obtain ⟨before, c, after, split, place, -, fails⟩ := exists_split_of_lexemes_error h
  rw [Nat.zero_add] at place
  have split : formula.toList = before ++ ([c] ++ after) := split
  refine ⟨c, ?_, fault_of_scan_error fails⟩
  rw [place]
  exact isSlice_of_split split

/-! ### Other gaps -/

/-- The text has the words in order, with gaps between any two of them. There may be gaps before the
first and behind the last. -/
def Respaces (words : List (List Char)) (text : String) : Prop :=
  ∃ before inner after, IsGap before ∧ Spaced words inner ∧ IsGap after ∧
    text.toList = before ++ (inner ++ after)

/-- The tokens of a text are read again wherever they stand with gaps between them. -/
theorem exists_tokenize_of_respaces {formula respaced : String} {ts : List Lexeme}
    (h : tokenize formula = .ok ts) (respaces : Respaces (ts.map Lexeme.spelling) respaced) :
    ∃ ts', tokenize respaced = .ok ts' ∧ ts'.map Lexeme.token = ts.map Lexeme.token ∧
      ts'.map Lexeme.spelling = ts.map Lexeme.spelling := by
  obtain ⟨before, inner, after, gapBefore, spaced, gapAfter, split⟩ := respaces
  have spelt : ∀ l ∈ ts, Spells l.token l.spelling :=
    fun l hl => (isSlice_of_mem_tokenize h hl).1
  obtain ⟨ts', read, same⟩ :=
    exists_lexemes_of_spaced spelt spaced gapAfter (0 + byteLength before)
  refine ⟨ts', ?_, same⟩
  rw [tokenize, split, lexemes_gap gapBefore, read]

/-- A text has tokens, or it has none because of a character that begins none or of a quote that is
not closed; the place of that is between characters. Whoever reads the bytes of the text, without
knowing its characters, gets the same at the same places.

The tokens stand in the text one behind the other, each of them spelt there and with at least one
byte. All their places are between characters, and so are the ends of the texts and names that they
have taken out of it. What is outside of them separates tokens. With other gaps between the tokens
they are the same, and the text is parsed and scanned as before: to the same result, or to the same
fault at another place. -/
theorem tokenize_loses_nothing (formula : String) :
    tokenizeBytes formula.toByteArray.data.toList =
      ((tokenize formula).map (List.map Lexeme.inBytes)).mapError SyntaxError.inBytes ∧
    match tokenize formula with
    | .error e =>
      ∃ c, IsSlice formula e.position (e.position + c.utf8Size) [c] ∧
        ((e.fault = .badNumeral "." ∧ c = '.') ∨
          (e.fault = .unterminatedText ∧ (c = '"' ∨ c = '\'')) ∨
            e.fault = .unexpectedCharacter c)
    | .ok ts =>
      (∀ l ∈ ts, Spells l.token l.spelling ∧ IsSlice formula l.start l.stop l.spelling ∧
        (∀ s, l.token = .text s → IsSlice formula (l.start + 1) (l.stop - 1) s.toList) ∧
        (∀ s, l.token = .name s → IsSlice formula l.start l.stop s.toList) ∧
        ∀ s, l.token = .qualifier s → IsSlice formula l.start (l.stop - 1) s.toList) ∧
      (∀ l ∈ ts, l.start < l.stop) ∧
      ts.Pairwise (fun l next => l.stop ≤ next.start) ∧
      (∀ before c after, formula.toList = before ++ c :: after →
        (∀ l ∈ ts, ¬(l.start ≤ byteLength before ∧ byteLength before < l.stop)) →
          Text.isSpacer c = true) ∧
      ∀ respaced, Respaces (ts.map Lexeme.spelling) respaced →
        (∃ ts', tokenize respaced = .ok ts' ∧ ts'.map Lexeme.token = ts.map Lexeme.token ∧
          ts'.map Lexeme.spelling = ts.map Lexeme.spelling) ∧
        SameButPlace (parse formula) (parse respaced) ∧
        SameButPlace (referencesOf formula) (referencesOf respaced) := by
  refine ⟨tokenizeBytes_eq formula, ?_⟩
  cases h : tokenize formula with
  | error e => exact isSlice_of_tokenize_error h
  | ok ts =>
      -- Where the tokens stand is one fact about the whole row, and the parts below are read off
      -- it.
      have stand := standIn_of_tokenize h
      refine ⟨fun l hl => isSlice_of_mem_tokenize h hl, fun l hl => (stand.within l hl).2.1,
        stand.apart, ?outside, ?respaced⟩
      case outside =>
        intro before c after split outside
        refine (laidOut_of_lexemes h).isSpacer_of_outside split ?_
        rwa [Nat.zero_add]
      case respaced =>
        intro respaced respaces
        obtain ⟨ts', read, tokens, spellings⟩ := exists_tokenize_of_respaces h respaces
        exact ⟨⟨ts', read, tokens, spellings⟩, sameButPlace_of_same_tokens h read tokens⟩

set_option maxRecDepth 20000 in
/-- The prefix ends at its colon, `=` belongs to `<` before it, and the point to the digit before
it. With gaps at all these places the formula is read as before. -/
theorem tokenize_loses_nothing_abutting :
    let formula := "a-b:N<=1.*'é='"
    let ts : List Lexeme := [⟨.qualifier "a-b", 0, "a-b:".toList⟩, ⟨.name "N", 4, "N".toList⟩,
      ⟨.lessEq, 5, "<=".toList⟩, ⟨.numeral ⟨1, 0⟩, 7, "1.".toList⟩, ⟨.star, 9, "*".toList⟩,
      ⟨.text "é=", 10, "'é='".toList⟩]
    let respaced := " a-b: N\t<=\n1. *\x0c 'é=' "
    tokenize formula = .ok ts ∧
    tokenizeBytes formula.toByteArray.data.toList = .ok (ts.map Lexeme.inBytes) ∧
    Respaces (ts.map Lexeme.spelling) respaced ∧
    (∃ ts', tokenize respaced = .ok ts' ∧ ts'.map Lexeme.token = ts.map Lexeme.token) ∧
    SameButPlace (parse formula) (parse respaced) ∧
    SameButPlace (referencesOf formula) (referencesOf respaced) := by
  intro formula ts respaced
  have read : tokenize formula = .ok ts := by cbv
  have respaces : Respaces (ts.map Lexeme.spelling) respaced := by
    have space : IsGap [' '] := by decide
    have tab : IsGap ['\t'] := by decide
    have line : IsGap ['\n'] := by decide
    have feed : IsGap ['\x0c', ' '] := by decide
    have some {c : Char} {cs : List Char} : c :: cs ≠ [] := List.cons_ne_nil c cs
    have spaced : Spaced (ts.map Lexeme.spelling) _ :=
      .cons some space (.cons some tab (.cons some line (.cons some space
        (.cons some feed (.last _)))))
    exact ⟨[' '], _, [' '], space, spaced, space, by cbv⟩
  have general := tokenize_loses_nothing formula
  rw [read] at general
  obtain ⟨bytes, -, -, -, -, again⟩ := general
  obtain ⟨⟨ts', read', tokens, -⟩, parsed, scanned⟩ := again respaced respaces
  exact ⟨read, bytes, respaces, ⟨ts', read', tokens⟩, parsed, scanned⟩

end Rollforward.Formula
