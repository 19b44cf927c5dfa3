import Rollforward.Collection.Distinct
import Rollforward.Formula.Lexer
import Rollforward.Formula.Offset
import Rollforward.Formula.Reference

/-!
# `Rollforward.Formula.Scan`: the references of a text, without parsing it

The scan walks over the tokens and picks out names and their offsets. A name before an opening
parenthesis is a function and no reference, and text between quotes never is one. It asks less of a
text than the parser and reads some that are no formula.
-/

set_option autoImplicit false

namespace Rollforward.Formula

/-- The references among the tokens, in the order in which they stand. -/
def scanReferences (stop : Nat) (ts : List Lexeme) : Except SyntaxError (List Reference) :=
  match ts with
  | [] => .ok []
  | ⟨.qualifier q, _, _⟩ :: rest =>
    match rest with
    | ⟨.name code, _, _⟩ :: after =>
      match _read : readOffset stop after with
      | .error e => .error e
      | .ok (offset, behind) => do
        let rs ← scanReferences stop behind
        return ⟨some (.ofName q), code, offset⟩ :: rs
    | other => .error ⟨.missingCode q, here stop other⟩
  -- A function name; its arguments are walked over like everything else.
  | ⟨.name _, _, _⟩ :: ⟨.openParen, _, _⟩ :: rest => scanReferences stop rest
  | ⟨.name code, _, _⟩ :: rest =>
    match _read : readOffset stop rest with
    | .error e => .error e
    | .ok (offset, behind) => do
      let rs ← scanReferences stop behind
      return ⟨none, code, offset⟩ :: rs
  | _ :: rest => scanReferences stop rest
termination_by ts.length
decreasing_by
  · have := length_le_of_readOffset _read
    simp only [List.length_cons]; omega
  · simp only [List.length_cons]; omega
  · have := length_le_of_readOffset _read
    simp only [List.length_cons]; omega
  · simp

/-- The distinct references of a text, in order. -/
def referencesOf (formula : String) : Except SyntaxError (List Reference) :=
  match tokenize formula with
  | .error e => .error e
  | .ok ts =>
    match scanReferences (byteLength formula.toList) ts with
    | .error e => .error e
    | .ok rs => .ok (Collection.sortDistinct rs)

/-- The distinct codes that a text reads without a namespace, at whatever time. -/
def dependenciesOf (formula : String) : Except SyntaxError (List String) :=
  match referencesOf formula with
  | .error e => .error e
  | .ok rs => .ok (Collection.sortDistinct ((rs.filter Reference.isUnqualified).map Reference.code))

end Rollforward.Formula
