import Mathlib.Data.List.Pairwise
import Rollforward.Formula.Lexer
import Rollforward.Formula.Offset

/-!
# `Rollforward.Proofs.Formula.Place`: where the tokens of a text stand

The tokens of a text stand in it from left to right. Each takes at least one byte, and the next one
begins where it ends or later. So a place in the text parts the tokens in two: those that begin
before it and those that do not.
-/

set_option autoImplicit false

namespace Rollforward.Formula

/-- Places add up along a text. -/
theorem byteLength_append (cs ds : List Char) :
    byteLength (cs ++ ds) = byteLength cs + byteLength ds := by
  induction cs with
  | nil => exact (Nat.zero_add _).symm
  | cons c cs ih => rw [List.cons_append, byteLength, byteLength, ih, Nat.add_assoc]

/-- Every character takes at least one byte, so no token stands at the same place as the next. -/
theorem byteLength_cons_pos (c : Char) (cs : List Char) : 0 < byteLength (c :: cs) :=
  Nat.add_pos_left c.utf8Size_pos _

/-- The tokens stand between `start` and `finish`, one behind the other. -/
structure StandIn (start finish : Nat) (ts : List Lexeme) : Prop where
  apart : ts.Pairwise fun l next => l.stop ≤ next.start
  within : ∀ l ∈ ts, start ≤ l.start ∧ l.start < l.stop ∧ l.stop ≤ finish

variable {start finish : Nat} {ts : List Lexeme}

/-- One more token at the front. -/
theorem StandIn.cons {l : Lexeme} (h : StandIn l.stop finish ts) (begins : start ≤ l.start)
    (spelt : l.start < l.stop) (ends : l.stop ≤ finish) : StandIn start finish (l :: ts) where
  apart := List.pairwise_cons.mpr ⟨fun next hnext => (h.within next hnext).1, h.apart⟩
  within := by
    rintro l' (_ | ⟨_, hl'⟩)
    · exact ⟨begins, spelt, ends⟩
    · obtain ⟨after, spelt', ends'⟩ := h.within l' hl'
      exact ⟨by omega, spelt', ends'⟩

/-- A gap at the front leaves the tokens where they are. -/
theorem StandIn.mono {start' : Nat} (h : StandIn start' finish ts) (le : start ≤ start') :
    StandIn start finish ts where
  apart := h.apart
  within l hl := by
    obtain ⟨begins, spelt, ends⟩ := h.within l hl
    exact ⟨Nat.le_trans le begins, spelt, ends⟩

/-- The tokens of a text stand in it. -/
theorem standIn_of_lexemes {cs : List Char} (h : lexemes start cs = .ok ts) :
    StandIn start (start + byteLength cs) ts := by
  fun_induction lexemes start cs generalizing ts with
  | case1 start =>
      obtain rfl : [] = ts := Except.ok.inj h
      exact ⟨.nil, nofun⟩
  | case2 start c cs spacer ih =>
      have behind := ih h
      rw [Nat.add_assoc] at behind
      exact behind.mono (Nat.le_add_right _ _)
  | case3 start c cs spacer fault scanned => cases h
  | case4 start c cs spacer token more scanned spelling e failed => cases h
  | case5 start c cs spacer token more scanned spelling rest behind =>
      rename_i ih
      obtain rfl : ⟨token, start, spelling⟩ :: rest = ts := Except.ok.inj h
      have whole : byteLength spelling + byteLength (cs.drop more) = byteLength (c :: cs) := by
        rw [← byteLength_append, List.cons_append, List.take_append_drop]
      have spelt : 0 < byteLength spelling := byteLength_cons_pos c (cs.take more)
      have placed := ih behind
      rw [Nat.add_assoc, whole] at placed
      change StandIn (Lexeme.stop ⟨token, start, spelling⟩) _ _ at placed
      have ends : start + byteLength spelling ≤ start + byteLength (c :: cs) := by omega
      exact placed.cons (Nat.le_refl start) (Nat.lt_add_of_pos_right spelt) ends

/-- The tokens of a formula stand in its text. -/
theorem standIn_of_tokenize {formula : String} (h : tokenize formula = .ok ts) :
    StandIn 0 (byteLength formula.toList) ts := by
  have placed := standIn_of_lexemes h
  rwa [Nat.zero_add] at placed

/-- Where a row is cut in two, the tokens that begin before the second part are the first part. -/
theorem StandIn.countP_start_lt {before after : List Lexeme}
    (h : StandIn start finish (before ++ after)) :
    (before ++ after).countP (·.start < here finish after) = before.length := by
  obtain ⟨_, apartAfter, across⟩ := List.pairwise_append.mp h.apart
  have first : before.countP (·.start < here finish after) = before.length := by
    rw [List.countP_eq_length]
    intro l hl
    obtain ⟨_, spelt, ends⟩ := h.within l (List.mem_append_left _ hl)
    rw [decide_eq_true_eq]
    cases after with
    | nil => exact Nat.lt_of_lt_of_le spelt ends
    | cons a rest => exact Nat.lt_of_lt_of_le spelt (across l hl a List.mem_cons_self)
  have second : after.countP (·.start < here finish after) = 0 := by
    rw [List.countP_eq_zero]
    intro l hl
    rw [decide_eq_true_eq, Nat.not_lt]
    cases after with
    | nil => cases hl
    | cons a rest =>
        obtain _ | ⟨_, hrest⟩ := hl
        · exact Nat.le_refl _
        · obtain ⟨_, spelt, _⟩ := h.within a (List.mem_append_right _ List.mem_cons_self)
          have later := List.rel_of_pairwise_cons apartAfter hrest
          exact Nat.le_of_lt (Nat.lt_of_lt_of_le spelt later)
  rw [List.countP_append, first, second, Nat.add_zero]

end Rollforward.Formula
