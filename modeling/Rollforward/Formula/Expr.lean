import Rollforward.Formula.Reference

/-!
# `Rollforward.Formula.Expr`: expressions
-/

set_option autoImplicit false

namespace Rollforward.Formula

/-- The signs that stand before an operand. -/
inductive UnaryOp where
  | negate
  | plus
  deriving Repr, DecidableEq

/-- The signs that stand between two operands. -/
inductive BinaryOp where
  | add
  | sub
  | mul
  | div
  | pow
  | less
  | lessEq
  | greater
  | greaterEq
  | equal
  | unequal
  deriving Repr, DecidableEq

/-- The sign in print. -/
def BinaryOp.sign : BinaryOp → String
  | .add => "+"
  | .sub => "-"
  | .mul => "*"
  | .div => "/"
  | .pow => "^"
  | .less => "<"
  | .lessEq => "<="
  | .greater => ">"
  | .greaterEq => ">="
  | .equal => "=="
  | .unequal => "!="

/-- The tree of a formula. Parentheses leave no trace in it. -/
inductive Expr where
  | number (value : Float)
  /-- Data for a function; a number cannot be made of it. -/
  | text (s : String)
  | reference (r : Reference)
  | unary (op : UnaryOp) (operand : Expr)
  | binary (op : BinaryOp) (left right : Expr)
  | call (function : String) (args : List Expr)
  deriving Repr

mutual

/-- The references of an expression in the order of evaluation, repetitions included. -/
def Expr.references : Expr → List Reference
  | .number _ => []
  | .text _ => []
  | .reference r => [r]
  | .unary _ operand => operand.references
  | .binary _ left right => left.references ++ right.references
  | .call _ args => Expr.referencesOfAll args

/-- The references of several expressions, one after the other. -/
def Expr.referencesOfAll : List Expr → List Reference
  | [] => []
  | e :: es => e.references ++ Expr.referencesOfAll es

end

end Rollforward.Formula
