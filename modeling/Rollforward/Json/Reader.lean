import Rollforward.Decimal.Numeral
import Rollforward.Json.Value

/-!
# `Rollforward.Json.Reader`: JSON text into values

The reader takes strict JSON and nothing else: no leading zeros, no trailing commas, no control
characters inside strings, and nothing but blanks behind the value. Values may be nested to any
depth.
-/

set_option autoImplicit false

namespace Rollforward.Json

/-- The characters that may stand between the parts of a value. -/
def isSpace (c : Char) : Bool := c == ' ' || c == '\n' || c == '\t' || c == '\r'

/-- Drops the blanks in front. -/
def skipSpace (cs : List Char) : List Char := cs.dropWhile isSpace

/-- The value of a hexadecimal digit of either case. -/
def hexValue? (c : Char) : Option Nat :=
  if c.isDigit then some (c.toNat - '0'.toNat)
  else if 'a' ≤ c ∧ c ≤ 'f' then some (c.toNat - 'a'.toNat + 10)
  else if 'A' ≤ c ∧ c ≤ 'F' then some (c.toNat - 'A'.toNat + 10)
  else none

/-- The number that four hexadecimal digits write. -/
def unit? (a b c d : Char) : Option Nat := do
  let a ← hexValue? a
  let b ← hexValue? b
  let c ← hexValue? c
  let d ← hexValue? d
  return ((a * 16 + b) * 16 + c) * 16 + d

/-- The character that a letter behind a backslash stands for. -/
def escaped? (c : Char) : Option Char :=
  match c with
  | '"' => some '"'
  | '\\' => some '\\'
  | '/' => some '/'
  | 'b' => some '\x08'
  | 'f' => some '\x0c'
  | 'n' => some '\n'
  | 'r' => some '\r'
  | 't' => some '\t'
  | _ => none

/-- What was read from the front of `cs`, and what stands behind it. -/
abbrev Rest (α : Type) (cs : List Char) :=
  Option { r : α × List Char // r.2.length < cs.length }

/-- The elements of a string up to its closing quote. -/
def readCodes : (cs : List Char) → Rest (List Code) cs
  | [] => none
  | c :: rest =>
    if c = '"' then some ⟨([], rest), Nat.lt_succ_self _⟩
    else if c = '\\' then
      -- Units stay units here: whether they pair up matters only to who asks for the text.
      match rest with
      | 'u' :: a :: b :: c :: d :: after => do
        let n ← unit? a b c d
        let ⟨(codes, final), shorter⟩ ← readCodes after
        return ⟨(.unit n :: codes, final), by simp only [List.length_cons] at shorter ⊢; omega⟩
      | e :: after => do
        let c ← escaped? e
        let ⟨(codes, final), shorter⟩ ← readCodes after
        return ⟨(.char c :: codes, final), by simp only [List.length_cons] at shorter ⊢; omega⟩
      | [] => none
    else if c.toNat < 0x20 then none
    else do
      let ⟨(codes, final), shorter⟩ ← readCodes rest
      return ⟨(.char c :: codes, final), Nat.lt_succ_of_lt shorter⟩

/-- The digits behind a point, if one stands in front; there must be some. -/
def readFraction (cs : List Char) : Option (List Char × List Char) :=
  match cs with
  | [] => some ([], [])
  | c :: after =>
    if c = '.' then
      let fraction := after.takeWhile Char.isDigit
      if fraction.isEmpty then none else some (fraction, after.dropWhile Char.isDigit)
    else some ([], cs)

/-- Whether a minus stands in front, and what stands behind the sign. A plus counts as a sign where
`plus` says so. -/
def readSign (plus : Bool) : List Char → Bool × List Char
  | [] => (false, [])
  | c :: after =>
    if c = '-' then (true, after)
    else if plus && c == '+' then (false, after)
    else (false, c :: after)

/-- The power of ten behind an `e`, if one stands in front; it must have digits. -/
def readPower (cs : List Char) : Option (Option Int × List Char) :=
  match cs with
  | [] => some (none, [])
  | c :: after =>
    if c = 'e' ∨ c = 'E' then
      let signed := readSign true after
      let written := signed.2.takeWhile Char.isDigit
      if written.isEmpty then none
      else
        let n : Int := Decimal.digitsValue 0 written
        some (some (if signed.1 then -n else n), signed.2.dropWhile Char.isDigit)
    else some (none, cs)

/-- A number. Its whole part is zero or begins with another digit. -/
def readNumber (cs : List Char) : Option (Number × List Char) := do
  let signed := readSign false cs
  let whole := signed.2.takeWhile Char.isDigit
  -- A leading zero stands alone.
  if whole.isEmpty || (whole.head? == some '0' && 1 < whole.length) then none
  else
    let (fraction, after) ← readFraction (signed.2.dropWhile Char.isDigit)
    let (power, final) ← readPower after
    return (⟨signed.1, ⟨whole, fraction, power⟩⟩, final)

/-- What stands behind `word`, if `cs` begins with it. -/
def behindWord? (word cs : List Char) : Option (List Char) :=
  if cs.take word.length = word then some (cs.drop word.length) else none

/-- Fewer characters stand behind a word than in front of it. -/
theorem length_lt_of_behindWord? {word cs rest : List Char} (long : 0 < word.length)
    (h : behindWord? word cs = some rest) : rest.length < cs.length := by
  unfold behindWord? at h
  split at h
  · next eq =>
    have := congrArg List.length eq
    simp only [Option.some.injEq] at h
    simp only [List.length_take] at this
    subst h
    simp only [List.length_drop]
    omega
  · simp at h

/-- Skipping blanks adds nothing. -/
theorem length_skipSpace_le (cs : List Char) : (skipSpace cs).length ≤ cs.length :=
  (List.dropWhile_sublist isSpace).length_le

/-- Digits dropped leave no more. -/
theorem length_dropDigits_le (cs : List Char) :
    (cs.dropWhile Char.isDigit).length ≤ cs.length :=
  (List.dropWhile_sublist Char.isDigit).length_le

/-- A sign read leaves no more. -/
theorem length_readSign_le (plus : Bool) (cs : List Char) :
    (readSign plus cs).2.length ≤ cs.length := by
  unfold readSign
  split
  · simp
  · split
    · simp
    · split <;> simp

/-- A fraction read leaves no more. -/
theorem length_le_of_readFraction {cs rest fraction : List Char}
    (h : readFraction cs = some (fraction, rest)) : rest.length ≤ cs.length := by
  cases cs with
  | nil => simp_all [readFraction]
  | cons c after =>
    simp only [readFraction] at h
    split at h
    · split at h
      · simp at h
      · simp only [Option.some.injEq, Prod.mk.injEq] at h
        have := length_dropDigits_le after
        simp only [← h.2, List.length_cons]
        omega
    · simp only [Option.some.injEq, Prod.mk.injEq] at h
      simp [← h.2]

/-- A power read leaves no more. -/
theorem length_le_of_readPower {cs rest : List Char} {power : Option Int}
    (h : readPower cs = some (power, rest)) : rest.length ≤ cs.length := by
  cases cs with
  | nil => simp_all [readPower]
  | cons c after =>
    simp only [readPower] at h
    split at h
    · split at h
      · simp at h
      · simp only [Option.some.injEq, Prod.mk.injEq] at h
        have h1 := length_readSign_le true after
        have h2 := length_dropDigits_le (readSign true after).2
        simp only [← h.2, List.length_cons]
        omega
    · simp only [Option.some.injEq, Prod.mk.injEq] at h
      simp [← h.2]

/-- A number read leaves fewer characters. -/
theorem length_lt_of_readNumber {cs rest : List Char} {n : Number}
    (h : readNumber cs = some (n, rest)) : rest.length < cs.length := by
  have hle := length_readSign_le false cs
  simp only [readNumber] at h
  generalize (readSign false cs).2 = digits at h hle
  split at h
  · simp at h
  · next hw =>
    simp only [Option.bind_eq_bind, Option.bind_eq_some_iff, Prod.exists] at h
    obtain ⟨fraction, after, hf, power, final, hp, h⟩ := h
    simp only [Option.pure_def, Option.some.injEq, Prod.mk.injEq] at h
    have h1 := length_le_of_readFraction hf
    have h2 := length_le_of_readPower hp
    have h3 : (digits.dropWhile Char.isDigit).length < digits.length := by
      cases digits with
      | nil => simp at hw
      | cons c ds =>
        by_cases hc : c.isDigit
        · have := length_dropDigits_le ds
          simp only [List.dropWhile_cons, hc, if_true, List.length_cons]
          omega
        · simp [hc] at hw
    rw [← h.2]
    omega

mutual

/-- A value with the blanks in front of it. -/
def readValue (cs : List Char) : Rest Json cs :=
  match started : skipSpace cs with
  | [] => none
  | c :: rest =>
    have shorter : rest.length < cs.length := by
      have := length_skipSpace_le cs
      simp only [started, List.length_cons] at this
      omega
    if c = '"' then do
      let ⟨(codes, final), fewer⟩ ← readCodes rest
      return ⟨(.string codes, final), by simp only at fewer ⊢; omega⟩
    -- An empty array closes at once; otherwise a comma or the end follows every item.
    else if c = '[' then
      match closed : skipSpace rest with
      | ']' :: final =>
        some ⟨(.array [], final), by
          have := length_skipSpace_le rest
          simp only [closed, List.length_cons] at this ⊢
          omega⟩
      | _ => do
        let ⟨(items, final), fewer⟩ ← readItems rest
        return ⟨(.array items, final), by simp only at fewer ⊢; omega⟩
    else if c = '\x7b' then
      match closed : skipSpace rest with
      | '\x7d' :: final =>
        some ⟨(.object [], final), by
          have := length_skipSpace_le rest
          simp only [closed, List.length_cons] at this ⊢
          omega⟩
      | _ => do
        let ⟨(members, final), fewer⟩ ← readMembers rest
        return ⟨(.object members, final), by simp only at fewer ⊢; omega⟩
    else if c = 't' then
      match found : behindWord? "rue".toList rest with
      | none => none
      | some final =>
        some ⟨(.bool true, final), by
          have := length_lt_of_behindWord? (by decide) found
          simp only
          omega⟩
    else if c = 'f' then
      match found : behindWord? "alse".toList rest with
      | none => none
      | some final =>
        some ⟨(.bool false, final), by
          have := length_lt_of_behindWord? (by decide) found
          simp only
          omega⟩
    else if c = 'n' then
      match found : behindWord? "ull".toList rest with
      | none => none
      | some final =>
        some ⟨(.null, final), by
          have := length_lt_of_behindWord? (by decide) found
          simp only
          omega⟩
    else
      match found : readNumber (c :: rest) with
      | none => none
      | some (n, final) =>
        some ⟨(.number n, final), by
          have := length_lt_of_readNumber found
          simp only [List.length_cons] at this ⊢
          omega⟩
termination_by 2 * cs.length
decreasing_by
  · omega
  · omega

/-- One item or more, through the closing bracket. -/
def readItems (cs : List Char) : Rest (List Json) cs := do
  let ⟨(v, after), shorter⟩ ← readValue cs
  match next : skipSpace after with
  | c :: rest =>
    have fewer : rest.length < after.length := by
      have := length_skipSpace_le after
      simp only [next, List.length_cons] at this
      omega
    if c = ',' then
      let ⟨(vs, final), less⟩ ← readItems rest
      return ⟨(v :: vs, final), by simp only at shorter less ⊢; omega⟩
    else if c = ']' then return ⟨([v], rest), by simp only at shorter ⊢; omega⟩
    else none
  | [] => none
termination_by 2 * cs.length + 1
decreasing_by
  · omega
  · simp only at shorter; omega

/-- One member or more, through the closing brace. -/
def readMembers (cs : List Char) : Rest (List (List Code × Json)) cs :=
  match opened : skipSpace cs with
  | '"' :: inner => do
    have begun : inner.length < cs.length := by
      have := length_skipSpace_le cs
      simp only [opened, List.length_cons] at this
      omega
    let ⟨(key, afterKey), short⟩ ← readCodes inner
    match colon : skipSpace afterKey with
    | ':' :: valueText =>
      have past : valueText.length < afterKey.length := by
        have := length_skipSpace_le afterKey
        simp only [colon, List.length_cons] at this
        omega
      let ⟨(v, after), shorter⟩ ← readValue valueText
      match next : skipSpace after with
      | c :: rest =>
        have fewer : rest.length < after.length := by
          have := length_skipSpace_le after
          simp only [next, List.length_cons] at this
          omega
        if c = ',' then
          let ⟨(ms, final), less⟩ ← readMembers rest
          return ⟨((key, v) :: ms, final), by simp only at short shorter less ⊢; omega⟩
        else if c = '\x7d' then
          return ⟨([(key, v)], rest), by simp only at short shorter ⊢; omega⟩
        else none
      | [] => none
    | _ => none
  | _ => none
termination_by 2 * cs.length + 1
decreasing_by
  · simp only at short; omega
  · simp only at short shorter; omega

end

/-- The one value that a text writes, if it is JSON. -/
def read (s : String) : Option Json :=
  match readValue s.toList with
  | none => none
  | some ⟨(v, rest), _⟩ => if (skipSpace rest).isEmpty then some v else none

end Rollforward.Json
