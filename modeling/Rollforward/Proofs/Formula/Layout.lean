import Rollforward.Proofs.Collection.Occurrence
import Rollforward.Proofs.Formula.Lexis
import Rollforward.Proofs.Formula.Place

/-!
# `Rollforward.Proofs.Formula.Layout`: tokens and the gaps between them

A text with tokens is the spellings of its tokens, in order, with gaps between them and around them
(`LaidOut`). So all that is outside of the tokens separates them (`LaidOut.isSpacer_of_outside`) and
the place of a token is the length of what stands before it (`LaidOut.exists_split`).

How wide the gaps are does not matter, where there is one between any two tokens:
`exists_lexemes_of_spaced` reads the tokens back from any such text. Where a token ends without a
gap there need not be one (`Loose`), and `LexesBefore` puts such texts together.
-/

set_option autoImplicit false

namespace Rollforward.Formula

open Collection (append_eq_append_cons)
open Text (EndsRun endsRun_nil endsRun_cons)

/-- Nothing but characters that separate tokens. -/
def IsGap (cs : List Char) : Prop := ∀ c ∈ cs, Text.isSpacer c = true

instance (cs : List Char) : Decidable (IsGap cs) := List.decidableBAll _ cs

/-- Tokens may follow one another without a gap. -/
theorem IsGap.nil : IsGap [] := nofun

/-- A gap grows at its front. -/
theorem IsGap.cons {c : Char} {cs : List Char} (spacer : Text.isSpacer c = true) (h : IsGap cs) :
    IsGap (c :: cs) :=
  List.forall_mem_cons.2 ⟨spacer, h⟩

/-- There is no colon in a gap, so a name with a gap behind it is never taken for a prefix. -/
theorem IsGap.colon_not_mem {gap : List Char} (isGap : IsGap gap) : ':' ∉ gap :=
  fun colon => absurd (isGap _ colon) (by decide)

/-! ### Where a token ends -/

/-- No token begins with a character of a gap. -/
theorem scan_of_isSpacer {c : Char} (spacer : Text.isSpacer c = true) (cs : List Char) :
    scan c cs = .error (.unexpectedCharacter c) := by
  simp only [Text.isSpacer, Bool.or_eq_true, beq_iff_eq] at spacer
  obtain (((rfl | rfl) | rfl) | rfl) | rfl := spacer
  all_goals rfl

/-- Any token ends in front of a gap. -/
theorem Token.endsBefore_of_gap (t : Token) {rest : List Char}
    (spacer : ∀ c ∈ rest.head?, Text.isSpacer c = true) : t.EndsBefore rest := by
  cases rest with
  | nil => cases t <;> simp [EndsBefore, endsRun_nil, hyphenated]
  | cons c cs =>
      have spacer : Text.isSpacer c = true := spacer c rfl
      have none : hyphenated (c :: cs) = 0 := by
        refine hyphenated_eq_zero_of_head? ?_
        rintro ⟨rfl⟩
        cases spacer
      simp only [Text.isSpacer, Bool.or_eq_true, beq_iff_eq] at spacer
      obtain (((rfl | rfl) | rfl) | rfl) | rfl := spacer
      all_goals
        cases t <;>
          simp only [EndsBefore, endsRun_cons, none, List.drop_zero, List.head?_cons] <;> decide

/-- A gap leaves a token its end. -/
theorem Token.EndsBefore.gap_append {t : Token} {gap rest : List Char} (isGap : IsGap gap)
    (ends : t.EndsBefore rest) : t.EndsBefore (gap ++ rest) := by
  cases gap with
  | nil => exact ends
  | cons c gap =>
      refine t.endsBefore_of_gap ?_
      rintro _ ⟨⟩
      exact isGap c List.mem_cons_self

/-- A token has at least one character, and the first is none of a gap. -/
theorem Spells.exists_cons {t : Token} {word : List Char} (h : Spells t word) :
    ∃ c ds, word = c :: ds ∧ Text.isSpacer c = false := by
  have ends : t.EndsBefore [] := t.endsBefore_of_gap nofun
  obtain ⟨c, ds, rfl, scanned⟩ := scan_of_spells h ends
  refine ⟨c, ds, rfl, ?_⟩
  rw [← Bool.not_eq_true]
  intro spacer
  cases (scan_of_isSpacer spacer _).symm.trans scanned

/-! ### One token, one gap -/

/-- A gap is passed over and only moves what follows. -/
theorem lexemes_gap {gap : List Char} (isGap : IsGap gap) (start : Nat) (cs : List Char) :
    lexemes start (gap ++ cs) = lexemes (start + byteLength gap) cs := by
  induction gap generalizing start with
  | nil => rfl
  | cons c gap ih =>
      obtain ⟨spacer, rest⟩ := List.forall_mem_cons.1 isGap
      rw [List.cons_append, lexemes, if_pos spacer, ih rest, byteLength, Nat.add_assoc]

/-- A token is read from its spelling where it ends. -/
theorem lexemes_spelling {t : Token} {word rest : List Char} (spelt : Spells t word)
    (ends : t.EndsBefore rest) (start : Nat) :
    lexemes start (word ++ rest) =
      (lexemes (start + byteLength word) rest).map (⟨t, start, word⟩ :: ·) := by
  obtain ⟨c, ds, rfl, spacer⟩ := spelt.exists_cons
  obtain ⟨c', ds', same, scanned⟩ := scan_of_spells spelt ends
  obtain ⟨rfl, rfl⟩ := List.cons.inj same
  have notSpacer : ¬Text.isSpacer c = true := by simp [spacer]
  rw [List.cons_append, lexemes, if_neg notSpacer, scanned]
  dsimp only
  rw [List.take_left, List.drop_left]
  cases lexemes (start + byteLength (c :: ds)) rest <;> rfl

/-! ### The layout of a text -/

/-- The tokens as they are laid out in a text whose first character has byte offset `start`. -/
inductive LaidOut : Nat → List Lexeme → List Char → Prop where
  | gap {start : Nat} {gap : List Char} (isGap : IsGap gap) : LaidOut start [] gap
  | token {start : Nat} {gap rest : List Char} {l : Lexeme} {ts : List Lexeme} (isGap : IsGap gap)
    (place : l.start = start + byteLength gap) (spelt : Spells l.token l.spelling)
    (more : LaidOut l.stop ts rest) : LaidOut start (l :: ts) (gap ++ (l.spelling ++ rest))

/-- One more separating character widens the first gap. -/
theorem LaidOut.cons_spacer {start : Nat} {c : Char} {cs : List Char} {ts : List Lexeme}
    (spacer : Text.isSpacer c = true) (h : LaidOut (start + c.utf8Size) ts cs) :
    LaidOut start ts (c :: cs) := by
  cases h with
  | gap isGap => exact .gap (isGap.cons spacer)
  | token isGap place spelt more =>
      exact .token (isGap.cons spacer) (by rw [place, byteLength, Nat.add_assoc]) spelt more

/-- What the lexer reads is laid out in the text, by induction along the lexer. -/
theorem laidOut_of_lexemes {start : Nat} {cs : List Char} {ts : List Lexeme}
    (h : lexemes start cs = .ok ts) : LaidOut start ts cs := by
  fun_induction lexemes start cs generalizing ts with
  | case1 start =>
      obtain rfl : [] = ts := Except.ok.inj h
      exact .gap .nil
  | case2 start c cs spacer ih => exact .cons_spacer spacer (ih h)
  | case3 start c cs spacer fault scanned => cases h
  | case4 start c cs spacer token more scanned spelling e failed => cases h
  | case5 start c cs spacer token more scanned spelling rest behind =>
      rename_i ih
      obtain rfl : ⟨token, start, spelling⟩ :: rest = ts := Except.ok.inj h
      have spelt : Spells token spelling := (spells_of_scan scanned).2
      have laid : LaidOut start (⟨token, start, spelling⟩ :: rest)
          ([] ++ (spelling ++ cs.drop more)) := .token .nil rfl spelt (ih behind)
      rwa [List.nil_append, List.cons_append, List.take_append_drop] at laid

namespace LaidOut

variable {start : Nat} {cs : List Char} {ts : List Lexeme}

/-- What is not in a token separates tokens. -/
theorem isSpacer_of_outside (h : LaidOut start ts cs) {before after : List Char} {c : Char}
    (split : cs = before ++ c :: after)
    (outside : ∀ l ∈ ts, ¬(l.start ≤ start + byteLength before ∧
      start + byteLength before < l.stop)) : Text.isSpacer c = true := by
  induction h generalizing before with
  | gap isGap =>
      rw [split] at isGap
      exact isGap c (List.mem_append_right _ List.mem_cons_self)
  | @token start gap rest l ts isGap place spelt more ih =>
      obtain ⟨inGap, rfl, -⟩ | ⟨behindGap, rfl, inRest⟩ := append_eq_append_cons split
      · exact isGap c (List.mem_append_right _ List.mem_cons_self)
      rw [byteLength_append, ← Nat.add_assoc, ← place] at outside
      obtain ⟨inToken, spelling, -⟩ | ⟨behind, rfl, later⟩ := append_eq_append_cons inRest
      · -- Then the token has the character in it.
        have within : byteLength l.spelling =
            byteLength behindGap + byteLength (c :: inToken) := by
          rw [spelling, byteLength_append]
        have pos := byteLength_cons_pos c inToken
        refine absurd ⟨Nat.le_add_right _ _, ?_⟩ (outside l List.mem_cons_self)
        rw [Lexeme.stop]
        omega
      · refine ih later fun l' hl' => ?_
        have place : l.start + byteLength (l.spelling ++ behind) = l.stop + byteLength behind := by
          rw [byteLength_append, ← Nat.add_assoc]
          rfl
        rw [← place]
        exact outside l' (List.mem_cons_of_mem _ hl')

/-- A token stands in the text as it is spelt, behind as many bytes as its place says. -/
theorem exists_split (h : LaidOut start ts cs) {l : Lexeme} (hl : l ∈ ts) :
    Spells l.token l.spelling ∧ ∃ before after, cs = before ++ (l.spelling ++ after) ∧
      l.start = start + byteLength before := by
  induction h with
  | gap => cases hl
  | @token start gap rest first ts isGap place spelt more ih =>
      cases hl with
      | head => exact ⟨spelt, gap, rest, rfl, place⟩
      | tail _ hl =>
          obtain ⟨spelt, before, after, rfl, behind⟩ := ih hl
          refine ⟨spelt, gap ++ (first.spelling ++ before), after, by simp, ?_⟩
          rw [behind, Lexeme.stop, place, byteLength_append, byteLength_append]
          omega

end LaidOut

/-! ### Other gaps -/

/-- The words in a row, with a gap between any two of them. -/
inductive Spaced : List (List Char) → List Char → Prop where
  | nil : Spaced [] []
  | last (word : List Char) : Spaced [word] word
  | cons {word gap next text : List Char} {words : List (List Char)} (some : gap ≠ [])
    (isGap : IsGap gap) (more : Spaced (next :: words) text) :
    Spaced (word :: next :: words) (word ++ (gap ++ text))

/-- The tokens are read back from any text in which there is a gap between any two of them. -/
theorem exists_lexemes_of_spaced {ts : List Lexeme} {text after : List Char}
    (spelt : ∀ l ∈ ts, Spells l.token l.spelling) (spaced : Spaced (ts.map Lexeme.spelling) text)
    (isGap : IsGap after) (start : Nat) :
    ∃ ts', lexemes start (text ++ after) = .ok ts' ∧
      ts'.map Lexeme.token = ts.map Lexeme.token ∧
        ts'.map Lexeme.spelling = ts.map Lexeme.spelling := by
  have ended (start : Nat) : lexemes start after = .ok [] := by
    have skipped := lexemes_gap isGap start []
    rwa [List.append_nil, lexemes] at skipped
  induction ts generalizing text start with
  | nil =>
      cases spaced
      exact ⟨[], ended start, rfl, rfl⟩
  | cons l ts ih =>
      obtain ⟨first, rest⟩ := List.forall_mem_cons.1 spelt
      cases ts with
      | nil =>
          cases spaced
          have ends : l.token.EndsBefore after :=
            l.token.endsBefore_of_gap fun c hc => isGap c (List.mem_of_mem_head? hc)
          refine ⟨[⟨l.token, start, l.spelling⟩], ?_, rfl, rfl⟩
          rw [lexemes_spelling first ends, ended]
          rfl
      | cons next ts =>
          cases spaced with
          | @cons _ gap _ text _ some between more =>
              obtain ⟨ts', read, tokens, spellings⟩ :=
                ih rest more (start + byteLength l.spelling + byteLength gap)
              have ends : l.token.EndsBefore (gap ++ (text ++ after)) := by
                -- The gap is not empty, so its first character ends the token.
                obtain ⟨c, gap, rfl⟩ := List.exists_cons_of_ne_nil some
                refine l.token.endsBefore_of_gap ?_
                rintro _ ⟨⟩
                exact between c List.mem_cons_self
              refine ⟨⟨l.token, start, l.spelling⟩ :: ts', ?_, ?_, ?_⟩
              · rw [List.append_assoc, List.append_assoc, lexemes_spelling first ends,
                  lexemes_gap between, read]
                rfl
              · rw [List.map_cons, tokens]
                rfl
              · rw [List.map_cons, spellings]
                rfl

/-- The words in a row, with or without gaps around them. -/
inductive Loose : List (List Char) → List Char → Prop where
  | gap {gap : List Char} (isGap : IsGap gap) : Loose [] gap
  | word {gap word text : List Char} {words : List (List Char)} (isGap : IsGap gap)
    (more : Loose words text) : Loose (word :: words) (gap ++ (word ++ text))

namespace Loose

variable {word text : List Char} {words : List (List Char)}

/-- Without words there is only a gap. -/
theorem isGap (h : Loose [] text) : IsGap text := by
  cases h with
  | gap isGap => exact isGap

/-- The first word of a text, with the gap before it. -/
theorem exists_of_cons (h : Loose (word :: words) text) :
    ∃ gap rest, IsGap gap ∧ Loose words rest ∧ text = gap ++ (word ++ rest) := by
  cases h with
  | word isGap more => exact ⟨_, _, isGap, more, rfl⟩

/-- A text has a colon only where one of its words has. -/
theorem colon_not_mem (h : Loose words text) (noColon : ∀ word ∈ words, ':' ∉ word) :
    ':' ∉ text := by
  induction h with
  | gap isGap => exact isGap.colon_not_mem
  | word isGap more ih =>
      obtain ⟨first, rest⟩ := List.forall_mem_cons.1 noColon
      simp [isGap.colon_not_mem, first, ih rest]

end Loose

/-! ### In front of other texts -/

/-- In front of `rest` the text has these tokens. They have their places in what is read, but what
is read of `rest` may be anything. -/
def LexesBefore (rest cs : List Char) (row : List Token) : Prop :=
  ∀ start us, lexemes (start + byteLength cs) rest = .ok us →
    ∃ ts, lexemes start (cs ++ rest) = .ok (ts ++ us) ∧ ts.map Lexeme.token = row

namespace LexesBefore

variable {rest space cs : List Char} {row : List Token}

/-- Before the first token there may be a gap. -/
theorem gap (isGap : IsGap space) : LexesBefore rest space [] := by
  intro start us read
  exact ⟨[], by rw [lexemes_gap isGap, read]; rfl, rfl⟩

/-- One more token at the front, which has to end before what stands behind it, the rest of the text
included. -/
theorem token {word : List Char} {t : Token} (isGap : IsGap space) (spelt : Spells t word)
    (ends : t.EndsBefore (cs ++ rest)) (more : LexesBefore rest cs row) :
    LexesBefore rest (space ++ (word ++ cs)) (t :: row) := by
  intro start us read
  rw [byteLength_append, byteLength_append, ← Nat.add_assoc, ← Nat.add_assoc] at read
  obtain ⟨ts, read, tokens⟩ := more _ us read
  refine ⟨⟨t, start + byteLength space, word⟩ :: ts, ?_, by rw [List.map_cons, tokens]⟩
  rw [List.append_assoc, List.append_assoc, lexemes_gap isGap, lexemes_spelling spelt ends, read]
  rfl

end LexesBefore

end Rollforward.Formula
