import Rollforward.Proofs.Formula.Unambiguous

/-!
# `Rollforward.Proofs.Formula.Offset`: offsets and single tokens against the grammar

The parser and the scan look at one token at a time, and both read offsets by `readOffset`. So what
is proved here serves both: `exists_offsetForm` and `readOffset_of_tokens` say that `readOffset`
reads exactly the `OffsetForm`s, and the lemmas on `behind?` and `operator?` turn a look at the
front of a row into an equation on the row.

The rows of the grammar are tokens, those of the readers are lexemes. A statement about a reader
speaks of `ts.map Lexeme.token`.
-/

set_option autoImplicit false

namespace Rollforward.Formula

/-! ### Single tokens -/

/-- The lexeme at the front of a row, where its token is known. -/
theorem exists_lexeme {ts : List Lexeme} {t : Token} {row : List Token}
    (h : ts.map Lexeme.token = t :: row) :
    ∃ start spelling rest, ts = ⟨t, start, spelling⟩ :: rest ∧ rest.map Lexeme.token = row := by
  obtain ⟨⟨token, start, spelling⟩, rest, rfl, rfl, hrest⟩ := List.map_eq_cons_iff.mp h
  exact ⟨start, spelling, rest, rfl, hrest⟩

/-- Where the token is found, it stands first and the rest is behind it. -/
theorem behind?_eq_some_iff {t : Token} {ts rest : List Lexeme} :
    behind? t ts = some rest ↔ ∃ l, ts = l :: rest ∧ l.token = t := by
  cases ts with
  | nil => simp [behind?]
  | cons l ls =>
      simp only [behind?, Option.ite_none_right_eq_some, Option.some.injEq, List.cons.injEq]
      constructor
      · rintro ⟨same, rfl⟩
        exact ⟨l, ⟨rfl, rfl⟩, same⟩
      · rintro ⟨l', ⟨rfl, rfl⟩, same⟩
        exact ⟨same, rfl⟩

/-- Where it is not found, another one stands first, or none. -/
theorem behind?_eq_none_iff {t : Token} {ts : List Lexeme} :
    behind? t ts = none ↔ (ts.map Lexeme.token).head? ≠ some t := by
  cases ts with
  | nil => simp [behind?]
  | cons l ls => simp [behind?]

/-- An operator is found by what the first token means. -/
theorem operator?_eq_some_iff {meaning : Token → Option BinaryOp} {ts rest : List Lexeme}
    {op : BinaryOp} :
    operator? meaning ts = some (op, rest) ↔ ∃ l, ts = l :: rest ∧ meaning l.token = some op := by
  cases ts with
  | nil => simp [operator?]
  | cons l ls =>
      simp only [operator?, Option.map_eq_some_iff, Prod.mk.injEq, List.cons.injEq]
      constructor
      · rintro ⟨op', found, rfl, rfl⟩
        exact ⟨l, ⟨rfl, rfl⟩, found⟩
      · rintro ⟨l', ⟨rfl, rfl⟩, found⟩
        exact ⟨op, found, rfl, rfl⟩

/-! ### Offsets -/

/-- A token gives a magnitude where it is a numeral for a natural number that is not too large. -/
theorem magnitude?_eq_some_iff {t : Token} {m : Nat} :
    magnitude? t = some m ↔ ∃ n, t = .numeral n ∧ n.toNat? = some m ∧ m ≤ largestOffset := by
  cases t with
  | numeral n =>
      simp only [magnitude?, Token.numeral.injEq, exists_eq_left']
      cases n.toNat? with
      | none => simp
      | some k =>
          simp only [Option.ite_none_right_eq_some, Option.some.injEq]
          constructor
          · rintro ⟨small, rfl⟩
            exact ⟨rfl, small⟩
          · rintro ⟨rfl, small⟩
            exact ⟨small, rfl⟩
  | _ => simp [magnitude?]

/-- A magnitude and its bracket take two tokens, and they decide the offset. -/
theorem readMagnitude_eq_ok_iff {stop : Nat} {sign : Int} {ts rest : List Lexeme} {o : Int} :
    readShift.readMagnitude stop sign ts = .ok (o, rest) ↔
      ∃ number bracket m, ts = number :: bracket :: rest ∧ bracket.token = .closeBracket ∧
        magnitude? number.token = some m ∧ o = sign * m := by
  constructor
  · intro h
    unfold readShift.readMagnitude at h
    split at h
    · cases h
    · next number after =>
        split at h
        · cases h
        · next m hm =>
            split at h
            · next start spelling behind =>
                obtain ⟨rfl, rfl⟩ : sign * m = o ∧ behind = rest := by simpa using h
                exact ⟨number, _, m, rfl, rfl, hm, rfl⟩
            · cases h
  · rintro ⟨number, ⟨token, start, spelling⟩, m, rfl, rfl, hm, rfl⟩
    simp [readShift.readMagnitude, hm]

/-- A numeral and a closing bracket are read as a magnitude, whatever the sign. -/
theorem readMagnitude_of_tokens {stop : Nat} {ts : List Lexeme} {n : Decimal.Numeral}
    {after : List Token} {m : Nat}
    (h : ts.map Lexeme.token = .numeral n :: .closeBracket :: after) (whole : n.toNat? = some m)
    (small : m ≤ largestOffset) :
    ∃ rest, (∀ sign : Int, readShift.readMagnitude stop sign ts = .ok (sign * m, rest)) ∧
      rest.map Lexeme.token = after := by
  obtain ⟨_, _, _, rfl, hclose⟩ := exists_lexeme h
  obtain ⟨_, _, rest, rfl, hafter⟩ := exists_lexeme hclose
  have hm : magnitude? (.numeral n) = some m :=
    magnitude?_eq_some_iff.mpr ⟨n, rfl, whole, small⟩
  exact ⟨rest, fun sign => readMagnitude_eq_ok_iff.mpr ⟨_, _, m, rfl, rfl, hm, rfl⟩, hafter⟩

/-- An offset that is read has a form. -/
theorem exists_offsetForm {stop : Nat} {ts rest : List Lexeme} {o : Int}
    (h : readOffset stop ts = .ok (o, rest)) :
    ∃ form : OffsetForm, form.value = o ∧
      ts.map Lexeme.token = form.tokens ++ rest.map Lexeme.token := by
  -- The bracket, the time variable and the sign are fixed first; the magnitude comes last.
  unfold readOffset at h
  split at h
  · next bracket spelling after =>
      split at h
      · next t start spelling' behind =>
          split at h
          · next isTime =>
              unfold readShift at h
              split at h
              · obtain ⟨rfl, rfl⟩ : 0 = o ∧ _ = rest := by simpa using h
                exact ⟨.now t isTime, rfl, rfl⟩
              · obtain ⟨number, bracket, m, rfl, hbracket, hm, rfl⟩ :=
                  readMagnitude_eq_ok_iff.mp h
                obtain ⟨n, hn, whole, small⟩ := magnitude?_eq_some_iff.mp hm
                exact ⟨.shifted t isTime .plus n m whole small, by simp [OffsetForm.value],
                  by simp [OffsetForm.tokens, UnaryOp.token, hn, hbracket]⟩
              · obtain ⟨number, bracket, m, rfl, hbracket, hm, rfl⟩ :=
                  readMagnitude_eq_ok_iff.mp h
                obtain ⟨n, hn, whole, small⟩ := magnitude?_eq_some_iff.mp hm
                exact ⟨.shifted t isTime .negate n m whole small, by simp [OffsetForm.value],
                  by simp [OffsetForm.tokens, UnaryOp.token, hn, hbracket]⟩
              · cases h
          · cases h
      · cases h
  · obtain ⟨rfl, rfl⟩ : 0 = o ∧ ts = rest := by simpa using h
    exact ⟨.omitted, rfl, rfl⟩

/-- A form in front of a row is read as an offset, unless it is omitted and a bracket follows. -/
theorem readOffset_of_tokens (stop : Nat) {ts : List Lexeme} {after : List Token}
    (form : OffsetForm) (h : ts.map Lexeme.token = form.tokens ++ after)
    (stops : Stops .operand after) :
    ∃ rest, readOffset stop ts = .ok (form.value, rest) ∧ rest.map Lexeme.token = after := by
  cases form with
  | omitted =>
      refine ⟨ts, ?_, h⟩
      unfold readOffset
      split
      · next start spelling behind =>
          obtain rfl : .openBracket :: behind.map Lexeme.token = after := h
          exact absurd (show (5 : Nat) ≤ 4 from stops) (by decide)
      · rfl
  | now t isTime =>
      obtain ⟨_, _, _, rfl, hbehind⟩ := exists_lexeme h
      obtain ⟨_, _, _, rfl, hclose⟩ := exists_lexeme hbehind
      obtain ⟨_, _, rest, rfl, hafter⟩ := exists_lexeme hclose
      exact ⟨rest, if_pos isTime, hafter⟩
  | shifted t isTime sign n m whole small =>
      obtain ⟨_, _, _, rfl, hbehind⟩ := exists_lexeme h
      obtain ⟨_, _, _, rfl, hsign⟩ := exists_lexeme hbehind
      obtain ⟨_, _, numbers, rfl, hnumbers⟩ := exists_lexeme hsign
      obtain ⟨rest, hread, hafter⟩ := readMagnitude_of_tokens hnumbers whole small
      refine ⟨rest, (if_pos isTime).trans ?_, hafter⟩
      cases sign with
      | plus => exact (hread 1).trans (by rw [Int.one_mul]; rfl)
      | negate => exact (hread (-1)).trans (by rw [← Int.neg_eq_neg_one_mul]; rfl)

/-- A shift by something that gives no magnitude is a fault there. -/
theorem readOffset_eq_badOffset {stop : Nat} {ts us : List Lexeme} {t : String} {sign : UnaryOp}
    {l : Lexeme} (isTime : IsTimeVariable t)
    (front : ts.map Lexeme.token = [.openBracket, .name t, sign.token])
    (bad : magnitude? l.token = none) :
    readOffset stop (ts ++ l :: us) = .error ⟨.badOffset, l.start⟩ := by
  obtain ⟨_, _, _, rfl, timed⟩ := exists_lexeme front
  obtain ⟨_, _, _, rfl, signed⟩ := exists_lexeme timed
  obtain ⟨_, _, _, rfl, ended⟩ := exists_lexeme signed
  obtain rfl := List.map_eq_nil_iff.1 ended
  refine (if_pos isTime).trans ?_
  cases sign <;> simp [UnaryOp.token, readShift, readShift.readMagnitude, bad]

/-- A name with an offset behind it, or with nothing that it could go on with, is never taken for a
call. -/
theorem OffsetForm.behind?_openParen_eq_none (form : OffsetForm) {ts : List Lexeme}
    {after : List Token} (h : ts.map Lexeme.token = form.tokens ++ after)
    (stops : Stops .operand after) : behind? .openParen ts = none := by
  rw [behind?_eq_none_iff, h]
  intro first
  obtain ⟨row, hrow⟩ := List.head?_eq_some_iff.mp first
  exact form.tokens_append_ne_openParen stops row hrow

end Rollforward.Formula
