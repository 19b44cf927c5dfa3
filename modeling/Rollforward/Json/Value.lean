import Rollforward.Decimal.Shortest

/-!
# `Rollforward.Json.Value`: JSON values

A value keeps what is written: numbers stay spelt until someone asks for their size, strings stay a
row of characters and escaped units, and an object keeps its members in order, repeated keys
included. So a part of a document that nobody asks for need only be well formed.
-/

set_option autoImplicit false

namespace Rollforward

namespace Json

/-- A written number. -/
structure Number where
  negative : Bool
  spelling : Decimal.Spelling
  deriving Repr, DecidableEq

/-- An element of a written string: a character, or a UTF-16 unit given by its number. -/
inductive Code where
  | char (c : Char)
  | unit (n : Nat)
  deriving Repr, DecidableEq

end Json

/-- A JSON value as written. -/
inductive Json where
  | null
  | bool (b : Bool)
  | number (n : Json.Number)
  | string (codes : List Json.Code)
  | array (items : List Json)
  | object (members : List (List Json.Code × Json))
  deriving Repr

namespace Json

instance : Inhabited Json := ⟨.null⟩

/-- A string of plain characters. -/
def codesOf (s : String) : List Code := s.toList.map .char

/-- A text as a value. -/
def text (s : String) : Json := .string (codesOf s)

/-- A natural number as a value. -/
def nat (n : Nat) : Json := .number ⟨false, ⟨Nat.toDigits 10 n, [], none⟩⟩

/-- An integer as a value. -/
def int (n : Int) : Json := .number ⟨decide (n < 0), ⟨Nat.toDigits 10 n.natAbs, [], none⟩⟩

/-- An object with plain keys. -/
def record (members : List (String × Json)) : Json :=
  .object (members.map fun (k, v) => (codesOf k, v))

/-- What an optional part is written as. -/
def optional {α : Type} (f : α → Json) : Option α → Json
  | none => .null
  | some a => f a

/-- The units that begin a surrogate pair. -/
def isLeading (n : Nat) : Bool := decide (0xD800 ≤ n ∧ n < 0xDC00)

/-- The units that end a surrogate pair. -/
def isTrailing (n : Nat) : Bool := decide (0xDC00 ≤ n ∧ n < 0xE000)

/-- The characters of a written string. Units of a surrogate pair make one character together; half
a pair makes none, and such a string has no characters. -/
def decode : List Code → Option (List Char)
  | [] => some []
  | .char c :: rest => (decode rest).map (c :: ·)
  | .unit n :: rest =>
    if isLeading n then
      match rest with
      | .unit m :: after =>
        if isTrailing m then
          (decode after).map (Char.ofNat (0x10000 + (n - 0xD800) * 0x400 + (m - 0xDC00)) :: ·)
        else none
      | _ => none
    else if isTrailing n then none
    else (decode rest).map (Char.ofNat n :: ·)

/-- The text of a written string, if it has one. -/
def textOf? (codes : List Code) : Option String :=
  (decode codes).map String.ofList

end Json

end Rollforward
