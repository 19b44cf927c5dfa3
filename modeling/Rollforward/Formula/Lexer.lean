import Rollforward.Formula.Fault
import Rollforward.Formula.Token
import Rollforward.Text.Basic

/-!
# `Rollforward.Formula.Lexer`: formula text into tokens

Spacers separate tokens and are dropped; every other character belongs to a token. `scan` reads the
one token at the front of a text, `lexemes` all of them with their places.

A word of letters, digits and underscores is a name, and a namespace prefix when a colon follows at
once. A prefix of lower-case words may be hyphenated, as in `peer-domain:NET`; upper case keeps
`REVENUE-rawinput:ADJ` a subtraction.
-/

set_option autoImplicit false

namespace Rollforward.Formula

/-- A letter or an underscore: what a word may begin with. -/
def isWordStart (c : Char) : Bool := c.isAlpha || c == '_'

/-- A letter, a digit or an underscore. -/
def isWordChar (c : Char) : Bool := c.isAlphanum || c == '_'

/-- What the parts of a hyphenated prefix are made of. -/
def isLowerChar (c : Char) : Bool := c.isLower || c.isDigit || c == '_'

/-- A token, and how many characters after the first it takes. -/
abbrev Scanned := Except Fault (Token × Nat)

/-- A numeral: digits with at most one point among them. -/
def scanNumeral (cs : List Char) : Scanned :=
  let whole := cs.takeWhile Char.isDigit
  match cs.dropWhile Char.isDigit with
  | '.' :: after =>
    -- A point may begin or end a numeral, but not be all of it.
    let fraction := after.takeWhile Char.isDigit
    if whole.isEmpty && fraction.isEmpty then .error (.badNumeral ".")
    else .ok (.numeral (.ofParts whole fraction), whole.length + fraction.length)
  | _ => .ok (.numeral (.ofParts whole []), whole.length - 1)

/-- Text up to the next `quote`. Nothing in it has a special meaning. -/
def scanText (quote : Char) (cs : List Char) : Scanned :=
  let body := cs.takeWhile (· != quote)
  if body.length < cs.length then .ok (.text (String.ofList body), body.length + 1)
  else .error .unterminatedText

/-- How many characters of `-part-part…` stand in front, each part a lower-case word. -/
def hyphenated : List Char → Nat
  | '-' :: after =>
    let part := after.takeWhile isLowerChar
    if part.isEmpty then 0 else part.length + 1 + hyphenated (after.dropWhile isLowerChar)
  | _ => 0
termination_by cs => cs.length
decreasing_by
  have h := (List.dropWhile_sublist (l := after) isLowerChar).length_le
  simp only [List.length_cons]
  omega

/-- A name, or a prefix with its colon. -/
def scanWord (cs : List Char) : Token × Nat :=
  let word := cs.takeWhile isWordChar
  -- Only a colon makes the hyphenated parts a prefix; without it the name ends at the first hyphen.
  let reach :=
    word.length + if word.all isLowerChar then hyphenated (cs.dropWhile isWordChar) else 0
  match cs.drop reach with
  | ':' :: _ => (.qualifier (String.ofList (cs.take reach)), reach)
  | _ => (.name (String.ofList word), word.length - 1)

/-- A sign. `=` and `==` are the same. -/
def scanSign (c : Char) (cs : List Char) : Scanned :=
  let doubled := cs.head? == some '='
  match c with
  | '+' => .ok (.plus, 0)
  | '-' => .ok (.minus, 0)
  | '*' => .ok (.star, 0)
  | '/' => .ok (.slash, 0)
  | '^' => .ok (.caret, 0)
  | '(' => .ok (.openParen, 0)
  | ')' => .ok (.closeParen, 0)
  | '[' => .ok (.openBracket, 0)
  | ']' => .ok (.closeBracket, 0)
  | ',' => .ok (.comma, 0)
  | '<' => .ok (if doubled then (.lessEq, 1) else (.less, 0))
  | '>' => .ok (if doubled then (.greaterEq, 1) else (.greater, 0))
  | '=' => .ok (.equal, if doubled then 1 else 0)
  | '!' => if doubled then .ok (.unequal, 1) else .error (.unexpectedCharacter '!')
  | _ => .error (.unexpectedCharacter c)

/-- The token that begins with `c`. -/
def scan (c : Char) (cs : List Char) : Scanned :=
  if c.isDigit || c == '.' then scanNumeral (c :: cs)
  else if c == '"' || c == '\'' then scanText c cs
  else if isWordStart c then .ok (scanWord (c :: cs))
  else scanSign c cs

/-- The tokens of a text whose first character has byte offset `start`. -/
def lexemes (start : Nat) : List Char → Except SyntaxError (List Lexeme)
  | [] => .ok []
  | c :: cs =>
    if Text.isSpacer c then lexemes (start + c.utf8Size) cs
    else
      match scan c cs with
      | .error fault => .error ⟨fault, start⟩
      | .ok (token, more) =>
        -- The token takes `c` and the next `more` characters.
        let spelling := c :: cs.take more
        match lexemes (start + byteLength spelling) (cs.drop more) with
        | .error e => .error e
        | .ok rest => .ok (⟨token, start, spelling⟩ :: rest)
termination_by cs => cs.length
decreasing_by
  all_goals simp only [List.length_cons, List.length_drop]; omega

/-- The tokens of a formula. -/
def tokenize (formula : String) : Except SyntaxError (List Lexeme) :=
  lexemes 0 formula.toList

end Rollforward.Formula
