import Rollforward.Text.Visible

/-!
# `Rollforward.Text.Basic`: blanks, and names in quotes

Codes, formulas and raw-input keys are compared without the blanks around them. A character is
blank when Unicode gives it the property `White_Space`; `trim` drops blanks at both ends and keeps
those between.

Formula text has a narrower notion: only `isSpacer` characters separate tokens, so a no-break space
may surround a formula but never stand inside one.

In messages a name is quoted so that every character can be told: quotes, backslashes and what does
not show by itself are escaped.
-/

set_option autoImplicit false

namespace Rollforward.Text

/-! ### Blanks -/

/-- The characters with the Unicode property `White_Space`. -/
def isBlank (c : Char) : Bool :=
  let n := c.toNat
  (0x9 ≤ n && n ≤ 0xD) || n == 0x20 || n == 0x85 || n == 0xA0 || n == 0x1680
    || (0x2000 ≤ n && n ≤ 0x200A) || n == 0x2028 || n == 0x2029 || n == 0x202F
    || n == 0x205F || n == 0x3000

/-- The characters that separate tokens: space, tab, line feed, form feed and carriage return. -/
def isSpacer (c : Char) : Bool :=
  c == ' ' || c == '\t' || c == '\n' || c == '\x0c' || c == '\r'

/-- Drops the blanks at the front and at the back. -/
def trimBlanks (cs : List Char) : List Char :=
  ((cs.dropWhile isBlank).reverse.dropWhile isBlank).reverse

/-- `s` without the blanks around it. -/
def trim (s : String) : String :=
  String.ofList (trimBlanks s.toList)

/-! ### Quotes -/

/-- A character inside quotes. -/
def quoteChar (c : Char) : List Char :=
  if c = '\x00' then ['\\', '0']
  else if c = '\t' then ['\\', 't']
  else if c = '\r' then ['\\', 'r']
  else if c = '\n' then ['\\', 'n']
  else if c = '\\' ∨ c = '"' then ['\\', c]
  else if isVisible c then [c]
  else ['\\', 'u', '\x7b'] ++ Nat.toDigits 16 c.toNat ++ ['\x7d']

/-- A name in quotes. -/
def quoted (s : String) : String :=
  String.ofList ('"' :: s.toList.flatMap quoteChar ++ ['"'])

/-- Names in quotes, between brackets. -/
def quotedList (names : List String) : String :=
  "[" ++ ", ".intercalate (names.map quoted) ++ "]"

end Rollforward.Text
