/-!
# `Rollforward.Formula.Fault`: why a text is not a formula

A fault says what is wrong with a formula text; a `SyntaxError` adds where, as a byte offset.
-/

set_option autoImplicit false

namespace Rollforward.Formula

/-- What is wrong with a formula text. -/
inductive Fault where
  /-- A numeral without a digit. -/
  | badNumeral (written : String)
  | unterminatedText
  | unexpectedCharacter (c : Char)
  | emptyFormula
  | trailingInput
  | unexpectedEnd
  | unexpectedToken
  | unclosedParenthesis
  | unclosedArguments
  /-- A prefix that no code follows. -/
  | missingCode (written : String)
  | badTimeVariable
  | unclosedOffset
  /-- The magnitude of an offset is no whole number, or too large. -/
  | badOffset
  deriving Repr, DecidableEq

/-- The fault in words. -/
def Fault.message : Fault → String
  | .badNumeral written => "invalid number '" ++ written ++ "'"
  | .unterminatedText => "unterminated string literal"
  | .unexpectedCharacter c => "unexpected character '" ++ c.toString ++ "'"
  | .emptyFormula => "empty formula"
  | .trailingInput => "unexpected trailing input"
  | .unexpectedEnd => "unexpected end of formula"
  | .unexpectedToken => "unexpected token"
  | .unclosedParenthesis => "expected ')'"
  | .unclosedArguments => "expected ',' or ')' in argument list"
  | .missingCode written => "expected identifier after '" ++ written ++ ":'"
  | .badTimeVariable => "time reference must start with 't'"
  | .unclosedOffset => "expected ']' to close time reference"
  | .badOffset => "expected integer offset in time reference"

/-- A fault and the byte offset where it shows. -/
structure SyntaxError where
  fault : Fault
  position : Nat
  deriving Repr, DecidableEq

/-- The fault and its place, in words. -/
def SyntaxError.message (e : SyntaxError) : String :=
  e.fault.message ++ " at position " ++ toString e.position

end Rollforward.Formula
