import Rollforward.Json.Value

/-!
# `Rollforward.Json.Writer`: values into JSON text

Nothing is written but what the value needs: no blanks, and of the characters of a string only
quotes, backslashes and controls are escaped.
-/

set_option autoImplicit false

namespace Rollforward.Json

/-- Four hexadecimal digits, in lower case. -/
def hexDigits (n : Nat) : List Char :=
  let digits := Nat.toDigits 16 n
  List.replicate (4 - digits.length) '0' ++ digits

/-- A character inside quotes. -/
def escape (c : Char) : List Char :=
  if c = '"' then ['\\', '"']
  else if c = '\\' then ['\\', '\\']
  else if c = '\x08' then ['\\', 'b']
  else if c = '\x0c' then ['\\', 'f']
  else if c = '\n' then ['\\', 'n']
  else if c = '\r' then ['\\', 'r']
  else if c = '\t' then ['\\', 't']
  else if c.toNat < 0x20 then '\\' :: 'u' :: hexDigits c.toNat
  else [c]

/-- An element of a string. -/
def writeCode : Code → List Char
  | .char c => escape c
  | .unit n => '\\' :: 'u' :: hexDigits n

/-- A string in its quotes. -/
def writeString (codes : List Code) : List Char :=
  '"' :: codes.flatMap writeCode ++ ['"']

/-- A number. -/
def writeNumber (n : Number) : List Char :=
  (if n.negative then ['-'] else []) ++ n.spelling.chars

mutual

/-- A value. -/
def write : Json → List Char
  | .null => "null".toList
  | .bool true => "true".toList
  | .bool false => "false".toList
  | .number n => writeNumber n
  | .string codes => writeString codes
  | .array items => '[' :: writeItems items ++ [']']
  | .object members => '\x7b' :: writeMembers members ++ ['\x7d']

/-- Items with commas between them. -/
def writeItems : List Json → List Char
  | [] => []
  | [v] => write v
  | v :: vs => write v ++ ',' :: writeItems vs

/-- Members with commas between them. -/
def writeMembers : List (List Code × Json) → List Char
  | [] => []
  | [(k, v)] => writeString k ++ ':' :: write v
  | (k, v) :: ms => writeString k ++ ':' :: write v ++ ',' :: writeMembers ms

end

/-- A value as text. -/
def toText (v : Json) : String := String.ofList (write v)

end Rollforward.Json
