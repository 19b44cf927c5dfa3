import Mathlib
import Rollforward.Proofs.Formula.Parse
import Rollforward.Proofs.Formula.Place
import Rollforward.Proofs.Formula.Viable

/-!
# `Rollforward.Proofs.Formula.Failure`: a parse error stands at the first impossible token

A row of tokens that is no formula goes wrong somewhere: up to there it could still have become one,
with the next token it cannot. `parse_fails_at_first_impossible` says that this token is the one
that a parse error points at, or the end of the text where no token is impossible and some are
missing.

`exists_stuck` takes from `Rollforward.Proofs.Formula.Viable` what the parser has read by then. A
row that went on to a formula behind the token would be read, by completeness, and it is not, since
nothing behind that token has a say.
-/

set_option autoImplicit false

namespace Rollforward.Formula

/-- The rows that are formulas. -/
def formulas : Language Token := Category.language .comparison

variable {stop : Nat} {ts : List Lexeme} {e : SyntaxError}

/-- Where a row is no formula, the parser stops in front of some token or at the end. What stands
before begins a formula, and no row that starts alike up to that token is parsed. -/
theorem exists_stuck (some : ts ≠ []) (failed : parseLexemes stop ts = .error e) :
    ∃ before after, ts = before ++ after ∧ e.position = here stop after ∧
      before.map Lexeme.token ∈ beginnings formulas ∧
      ∀ us, us.head? = after.head? → parseLexemes stop (before ++ us) = .error e := by
  have notEmpty {before after us : List Lexeme} (split : ts = before ++ after)
      (same : us.head? = after.head?) : ¬ (before ++ us).isEmpty = true := by
    rw [List.isEmpty_iff, ← List.head?_eq_none_iff, head?_append_congr before same, ← split,
      List.head?_eq_none_iff]
    exact some
  rw [parseLexemes_eq, if_neg (by rwa [List.isEmpty_iff])] at failed
  cases settles_comparison ts with
  | fails before after fault split taken answer =>
      have read := answer after rfl
      rw [← split] at read
      rw [read] at failed
      obtain rfl : _ = e := Except.error.inj failed
      refine ⟨before, after, split, rfl, taken, ?_⟩
      intro us same
      rw [parseLexemes_eq, if_neg (notEmpty split same), answer us same]
  | returns before after value split taken answer =>
      have read := answer after rfl
      rw [← split] at read
      rw [read] at failed
      cases after with
      | nil => cases failed
      -- A comparison was read, and the first token behind it is one too many.
      | cons first rest =>
          obtain rfl : _ = e := Except.error.inj failed
          refine ⟨before, first :: rest, split, rfl, mem_beginnings_self taken, ?_⟩
          intro us same
          rw [parseLexemes_eq, if_neg (notEmpty split same), answer us same]
          obtain ⟨us, rfl⟩ := List.head?_eq_some_iff.mp same
          rfl

/-- No formula goes on behind a row in front of which the parser fails whatever comes next. -/
theorem not_mem_beginnings {before : List Lexeme} {first : Lexeme}
    (fails : ∀ us, us.head? = some first → parseLexemes stop (before ++ us) = .error e) :
    before.map Lexeme.token ++ [first.token] ∉ beginnings formulas := by
  rintro ⟨more, d, hd⟩
  -- The places of the tokens behind do not matter.
  let us := first :: more.map fun t => ⟨t, 0, []⟩
  have tokens : d.tokens = (before ++ us).map Lexeme.token := by
    rw [hd]
    simp [us, Function.comp_def]
  have parsed := parseLexemes_of_derivation stop d tokens
  rw [fails us rfl] at parsed
  cases parsed

/-- A formula with tokens that is not parsed is refused where one of its tokens begins or at its
end. Let `k` be the number of tokens that begin before. The first `k` tokens begin a formula. Where
the error stands at a token, no formula begins with that token too; where it stands at the end, the
tokens are no formula. -/
theorem parse_fails_at_first_impossible {formula : String} (tokens : tokenize formula = .ok ts)
    (some : ts ≠ []) (failed : parse formula = .error e) :
    let row := ts.map Lexeme.token
    let k := ts.countP (·.start < e.position)
    ((∃ l ∈ ts, l.start = e.position) ∨ e.position = byteLength formula.toList) ∧
    row.take k ∈ beginnings formulas ∧
    ((∃ l ∈ ts, l.start = e.position) → row.take (k + 1) ∉ beginnings formulas) ∧
    (e.position = byteLength formula.toList → row ∉ formulas) := by
  intro row k
  have stand := standIn_of_tokenize tokens
  unfold parse at failed
  rw [tokens] at failed
  obtain ⟨before, after, rfl, place, viable, fails⟩ := exists_stuck some failed
  have hk : k = before.length := by
    simp only [k, place]
    exact stand.countP_start_lt
  have hrow : row = before.map Lexeme.token ++ after.map Lexeme.token := List.map_append
  have hlength : (before.map Lexeme.token).length = k := by rw [List.length_map, hk]
  refine ⟨?_, ?_, ?_, ?_⟩
  · cases after with
    | nil => exact .inr place
    | cons first rest => exact .inl ⟨first, by simp, place.symm⟩
  · rw [hrow, List.take_left' hlength]
    exact viable
  · rintro ⟨l, hl, hplace⟩
    cases after with
    -- At the end of the text no token begins.
    | nil =>
        obtain ⟨_, spelt, ends⟩ := stand.within l hl
        rw [hplace, place] at spelt
        exact absurd (Nat.lt_of_lt_of_le spelt ends) (Nat.lt_irrefl _)
    | cons first rest =>
        have front : row.take (k + 1) = before.map Lexeme.token ++ [first.token] := by
          rw [hrow, List.map_cons, List.append_cons]
          exact List.take_left' (by rw [List.length_append, hlength]; rfl)
        rw [front]
        exact not_mem_beginnings fails
  · rintro - ⟨d, hd⟩
    have parsed := parseLexemes_of_derivation (byteLength formula.toList) d hd
    simp only at failed
    rw [parsed] at failed
    cases failed

/-- In `MAX(A, )` the closing parenthesis is impossible: a comma has another argument behind it. -/
theorem parse_fails_at_first_impossible_missing_argument :
    parse "MAX(A, )" = .error ⟨.unexpectedToken, 7⟩ ∧
    [.name "MAX", .openParen, .name "A", .comma] ∈ beginnings formulas ∧
    [.name "MAX", .openParen, .name "A", .comma, .closeParen] ∉ beginnings formulas := by
  have tokens : tokenize "MAX(A, )" = .ok
      [⟨.name "MAX", 0, ['M', 'A', 'X']⟩, ⟨.openParen, 3, ['(']⟩, ⟨.name "A", 4, ['A']⟩,
        ⟨.comma, 5, [',']⟩, ⟨.closeParen, 7, [')']⟩] := by cbv
  have failed : parse "MAX(A, )" = .error ⟨.unexpectedToken, 7⟩ := by cbv
  obtain ⟨-, viable, impossible, -⟩ :=
    parse_fails_at_first_impossible tokens (List.cons_ne_nil _ _) failed
  exact ⟨failed, viable, impossible ⟨⟨.closeParen, 7, [')']⟩, by simp, rfl⟩⟩

end Rollforward.Formula
