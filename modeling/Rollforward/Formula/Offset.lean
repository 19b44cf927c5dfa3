import Rollforward.Formula.Fault
import Rollforward.Formula.Token

/-!
# `Rollforward.Formula.Offset`: the `[t±n]` behind a code

`readOffset` takes the offset at the front of a token list, if there is one. The magnitude is a
numeral that is a whole number no larger than `largestOffset`; how it is spelt does not matter, so
`[t-1.0]` and `[t-1]` are the same.
-/

set_option autoImplicit false

namespace Rollforward.Formula

/-- The place of the first token, or the end of the text. -/
def here (stop : Nat) : List Lexeme → Nat
  | [] => stop
  | l :: _ => l.start

/-- The largest magnitude an offset may have. -/
def largestOffset : Nat := 2147483647

/-- The magnitude that a token gives to an offset. -/
def magnitude? : Token → Option Nat
  | .numeral n =>
    match n.toNat? with
    | some m => if m ≤ largestOffset then some m else none
    | none => none
  | _ => none

/-- Reads what follows the bracket and the time variable. -/
def readShift (stop : Nat) : List Lexeme → Except SyntaxError (Int × List Lexeme)
  | ⟨.closeBracket, _, _⟩ :: rest => .ok (0, rest)
  | ⟨.plus, _, _⟩ :: rest => readMagnitude 1 rest
  | ⟨.minus, _, _⟩ :: rest => readMagnitude (-1) rest
  | ts => .error ⟨.unclosedOffset, here stop ts⟩
where
  /-- Reads a magnitude and the closing bracket. -/
  readMagnitude (sign : Int) : List Lexeme → Except SyntaxError (Int × List Lexeme)
    | [] => .error ⟨.badOffset, stop⟩
    | l :: after =>
      match magnitude? l.token with
      | none => .error ⟨.badOffset, l.start⟩
      | some m =>
        match after with
        | ⟨.closeBracket, _, _⟩ :: rest => .ok (sign * m, rest)
        | _ => .error ⟨.unclosedOffset, here stop after⟩

/-- Reads an offset, zero when none is written. -/
def readOffset (stop : Nat) : List Lexeme → Except SyntaxError (Int × List Lexeme)
  | ⟨.openBracket, _, _⟩ :: after =>
    match after with
    | ⟨.name t, start, _⟩ :: rest =>
      if t = "t" ∨ t = "T" then readShift stop rest else .error ⟨.badTimeVariable, start⟩
    | _ => .error ⟨.badTimeVariable, here stop after⟩
  | ts => .ok (0, ts)

/-- What follows an offset is no longer than what it began with. -/
theorem length_le_of_readShift {stop : Nat} {ts rest : List Lexeme} {o : Int}
    (h : readShift stop ts = .ok (o, rest)) : rest.length ≤ ts.length := by
  -- The magnitude and its bracket are taken off in both signed cases alike.
  have step : ∀ {sign : Int} {us : List Lexeme},
      readShift.readMagnitude stop sign us = .ok (o, rest) → rest.length ≤ us.length := by
    intro sign us hu
    unfold readShift.readMagnitude at hu
    split at hu
    · simp at hu
    · split at hu
      · simp at hu
      · split at hu
        · simp only [Except.ok.injEq, Prod.mk.injEq] at hu
          simp only [List.length_cons, ← hu.2]
          omega
        · simp at hu
  unfold readShift at h
  split at h
  · simp only [Except.ok.injEq, Prod.mk.injEq] at h
    simp [← h.2]
  · exact Nat.le_succ_of_le (step h)
  · exact Nat.le_succ_of_le (step h)
  · simp at h

/-- What follows an offset is no longer than what it began with. -/
theorem length_le_of_readOffset {stop : Nat} {ts rest : List Lexeme} {o : Int}
    (h : readOffset stop ts = .ok (o, rest)) : rest.length ≤ ts.length := by
  unfold readOffset at h
  split at h
  · split at h
    · split at h
      · have := length_le_of_readShift h
        simp only [List.length_cons]
        omega
      · simp at h
    · simp at h
  · simp only [Except.ok.injEq, Prod.mk.injEq] at h
    simp [h.2]

end Rollforward.Formula
