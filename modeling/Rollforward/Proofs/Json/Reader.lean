import Rollforward.Json.Reader

/-!
# `Rollforward.Proofs.Json.Reader`: the reader without its bounds
-/

set_option autoImplicit false

namespace Rollforward.Json

/-- What was read, without the proof that it is shorter. -/
def Rest.result {α : Type} {cs : List Char} (r : Rest α cs) : Option (α × List Char) :=
  r.map Subtype.val

/-! ### Strings -/

/-- The closing quote ends a string. -/
theorem readCodes_quote (rest : List Char) :
    Rest.result (readCodes ('"' :: rest)) = some ([], rest) := by
  rw [readCodes.eq_def]
  rfl

/-- A character that is neither quote nor backslash nor control stands for itself. -/
theorem readCodes_plain {c : Char} (quote : c ≠ '"') (backslash : c ≠ '\\')
    (control : ¬c.toNat < 0x20) (rest : List Char) :
    Rest.result (readCodes (c :: rest)) =
      (Rest.result (readCodes rest)).map fun r => (.char c :: r.1, r.2) := by
  rw [readCodes.eq_def]
  dsimp only
  rw [if_neg quote, if_neg backslash, if_neg control]
  cases readCodes rest <;> rfl

/-- A backslash and a letter stand for one character. -/
theorem readCodes_escaped {e c : Char} (unit : e ≠ 'u') (known : escaped? e = some c)
    (after : List Char) :
    Rest.result (readCodes ('\\' :: e :: after)) =
      (Rest.result (readCodes after)).map fun r => (.char c :: r.1, r.2) := by
  rw [readCodes, if_neg (by decide), if_pos rfl, known]
  · cases readCodes after <;> rfl
  · exact fun _ _ _ _ _ first => absurd first unit

/-- A backslash, a `u` and four digits stand for a code unit, which may be half of a character. -/
theorem readCodes_unit {a b c d : Char} {n : Nat} (digits : unit? a b c d = some n)
    (after : List Char) :
    Rest.result (readCodes ('\\' :: 'u' :: a :: b :: c :: d :: after)) =
      (Rest.result (readCodes after)).map fun r => (.unit n :: r.1, r.2) := by
  rw [readCodes, if_neg (by decide), if_pos rfl, digits]
  cases readCodes after <;> rfl

/-! ### Values -/

/-- No space is skipped in front of a value. -/
theorem skipSpace_cons {c : Char} (h : isSpace c = false) (cs : List Char) :
    skipSpace (c :: cs) = c :: cs := by
  rw [skipSpace, List.dropWhile_cons, h]
  rfl

/-- The first character decides what a value is. With this equation and the ones below the
well-founded recursion of the reader is opened once and for all. -/
theorem readValue_cons {c : Char} (h : isSpace c = false) (rest : List Char) :
    Rest.result (readValue (c :: rest)) =
      if c = '"' then (Rest.result (readCodes rest)).map fun r => (.string r.1, r.2)
      else if c = '[' then
        match skipSpace rest with
        | ']' :: final => some (.array [], final)
        | _ => (Rest.result (readItems rest)).map fun r => (.array r.1, r.2)
      else if c = '\x7b' then
        match skipSpace rest with
        | '\x7d' :: final => some (.object [], final)
        | _ => (Rest.result (readMembers rest)).map fun r => (.object r.1, r.2)
      else if c = 't' then (behindWord? "rue".toList rest).map fun final => (.bool true, final)
      else if c = 'f' then (behindWord? "alse".toList rest).map fun final => (.bool false, final)
      else if c = 'n' then (behindWord? "ull".toList rest).map fun final => (.null, final)
      else (readNumber (c :: rest)).map fun r => (.number r.1, r.2) := by
  rw [readValue]
  split
  · next started =>
    rw [skipSpace_cons h] at started
    cases started
  · next c' rest' started =>
    -- The character is not a space, so the reader sees it first.
    rw [skipSpace_cons h] at started
    obtain ⟨rfl, rfl⟩ := List.cons.inj started
    dsimp only
    by_cases quote : c = '"'
    · rw [if_pos quote, if_pos quote]
      cases readCodes rest <;> rfl
    rw [if_neg quote, if_neg quote]
    by_cases bracket : c = '['
    · rw [if_pos bracket, if_pos bracket]
      split
      · next final closed =>
        simp [Rest.result, closed]
      · next filled =>
        cases readItems rest <;> simp [Rest.result]
    rw [if_neg bracket, if_neg bracket]
    by_cases brace : c = '\x7b'
    · rw [if_pos brace, if_pos brace]
      split
      · next final closed => simp [Rest.result, closed]
      · next filled =>
        cases readMembers rest <;> simp [Rest.result]
    rw [if_neg brace, if_neg brace]
    by_cases t : c = 't'
    · rw [if_pos t, if_pos t]
      split <;> next found => exact (congrArg (Option.map _) found).symm
    rw [if_neg t, if_neg t]
    by_cases f : c = 'f'
    · rw [if_pos f, if_pos f]
      split <;> next found => exact (congrArg (Option.map _) found).symm
    rw [if_neg f, if_neg f]
    by_cases n : c = 'n'
    · rw [if_pos n, if_pos n]
      split <;> next found => exact (congrArg (Option.map _) found).symm
    rw [if_neg n, if_neg n]
    split <;> simp [Rest.result, *]

/-- No value begins with a closing bracket. -/
theorem readValue_bracket {cs final : List Char} (h : skipSpace cs = ']' :: final) :
    Rest.result (readValue cs) = none := by
  have number : readNumber (']' :: final) = none := rfl
  rw [readValue]
  split
  · rfl
  · next c rest started =>
    rw [h] at started
    obtain ⟨rfl, rfl⟩ := List.cons.inj started
    dsimp only
    iterate 6 rw [if_neg (by decide)]
    split <;> simp_all [Rest.result]

/-- The items of an array, up to and with the bracket. -/
theorem readItems_eq (cs : List Char) :
    Rest.result (readItems cs) = (Rest.result (readValue cs)).bind fun (v, after) =>
      match skipSpace after with
      | c :: rest =>
        if c = ',' then (Rest.result (readItems rest)).map fun r => (v :: r.1, r.2)
        else if c = ']' then some ([v], rest)
        else none
      | [] => none := by
  rw [readItems]
  cases readValue cs with
  | none => rfl
  | some r =>
      obtain ⟨⟨v, after⟩, shorter⟩ := r
      simp only [Rest.result, Option.bind_eq_bind, Option.bind_some, Option.map_some]
      split
      · next c rest next =>
        simp only [next]
        split
        · cases readItems rest <;> rfl
        · split <;> rfl
      · next next =>
        simp only [next]
        rfl

/-- The members of an object, each with its key, up to and with the brace. -/
theorem readMembers_cons (inner : List Char) :
    Rest.result (readMembers ('"' :: inner)) =
      (Rest.result (readCodes inner)).bind fun (key, afterKey) =>
        match skipSpace afterKey with
        | ':' :: valueText => (Rest.result (readValue valueText)).bind fun (v, after) =>
          match skipSpace after with
          | c :: rest =>
            if c = ',' then (Rest.result (readMembers rest)).map fun r => ((key, v) :: r.1, r.2)
            else if c = '\x7d' then some ([(key, v)], rest)
            else none
          | [] => none
        | _ => none := by
  rw [readMembers]
  split
  · next inner' opened =>
    rw [skipSpace_cons (by decide)] at opened
    obtain ⟨-, rfl⟩ := List.cons.inj opened
    cases readCodes inner with
    | none => rfl
    | some r =>
        obtain ⟨⟨key, afterKey⟩, short⟩ := r
        simp only [Rest.result, Option.bind_eq_bind, Option.bind_some, Option.map_some]
        split
        · next valueText colon =>
          simp only [colon]
          cases readValue valueText with
          | none => rfl
          | some r =>
              obtain ⟨⟨v, after⟩, shorter⟩ := r
              simp only [Option.bind_some, Option.map_some]
              split
              · next c rest next =>
                simp only [next]
                split
                · cases readMembers rest <;> rfl
                · split <;> rfl
              · next next =>
                simp only [next]
                rfl
        · simp
  · next other =>
    rw [skipSpace_cons (by decide)] at other
    exact absurd rfl (other inner)

/-- No member begins with a closing brace. -/
theorem readMembers_brace {cs final : List Char} (h : skipSpace cs = '\x7d' :: final) :
    Rest.result (readMembers cs) = none := by
  rw [readMembers]
  split
  · next inner opened =>
    rw [h] at opened
    exact absurd (List.cons.inj opened).1 (by decide)
  · rfl

/-- A document is one value with nothing but space behind it. -/
theorem read_eq (s : String) :
    read s = (Rest.result (readValue s.toList)).bind fun (v, rest) =>
      if (skipSpace rest).isEmpty then some v else none := by
  rw [read]
  cases readValue s.toList <;> rfl

end Rollforward.Json
