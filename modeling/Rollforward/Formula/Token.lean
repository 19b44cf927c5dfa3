import Rollforward.Decimal.Numeral

/-!
# `Rollforward.Formula.Token`: the words of a formula
-/

set_option autoImplicit false

namespace Rollforward.Formula

/-- A word or sign of a formula. -/
inductive Token where
  | numeral (n : Decimal.Numeral)
  /-- Text between quotes, which never names a quantity. -/
  | text (s : String)
  | name (s : String)
  /-- A namespace prefix, without its colon. -/
  | qualifier (s : String)
  | plus
  | minus
  | star
  | slash
  | caret
  | openParen
  | closeParen
  | openBracket
  | closeBracket
  | comma
  | less
  | lessEq
  | greater
  | greaterEq
  | equal
  | unequal
  deriving Repr, DecidableEq

/-- How many bytes a row of characters takes. -/
def byteLength : List Char → Nat
  | [] => 0
  | c :: cs => c.utf8Size + byteLength cs

/-- A token as it stands in a formula. -/
structure Lexeme where
  token : Token
  /-- The byte offset of its first character. -/
  start : Nat
  /-- The characters that spell it. -/
  spelling : List Char
  deriving Repr, DecidableEq

/-- The byte offset just behind the token. -/
def Lexeme.stop (l : Lexeme) : Nat := l.start + byteLength l.spelling

end Rollforward.Formula
