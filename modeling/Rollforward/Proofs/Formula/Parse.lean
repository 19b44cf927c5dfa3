import Rollforward.Proofs.Formula.Completeness
import Rollforward.Proofs.Formula.Soundness

/-!
# `Rollforward.Proofs.Formula.Parse`: the parser accepts exactly the grammar

`exists_derivation_of_parseLexemes` and `parseLexemes_of_derivation` are the two directions for a
whole row of tokens. `parse_eq_ok_iff` joins them for formula texts, and adds that no row has two
derivations.
-/

set_option autoImplicit false

namespace Rollforward.Formula

/-- A row that is parsed has a derivation, which reads all of it. -/
theorem exists_derivation_of_parseLexemes {stop : Nat} {ts : List Lexeme} {e : Expr}
    (h : parseLexemes stop ts = .ok e) :
    ∃ d : Derivation .comparison, d.tokens = ts.map Lexeme.token ∧ d.value = e := by
  rw [parseLexemes_eq] at h
  split at h
  · exact nomatch h
  · split at h
    · exact nomatch h
    · next e' hread =>
        obtain rfl : e' = e := Except.ok.inj h
        obtain ⟨d, hvalue, hspans⟩ := exists_comparison hread
        exact ⟨d, by rw [hspans, List.map_nil, List.append_nil], hvalue⟩
    · exact nomatch h

/-- A row that a derivation reads is parsed as what the derivation builds. -/
theorem parseLexemes_of_derivation (stop : Nat) {ts : List Lexeme} (d : Derivation .comparison)
    (h : d.tokens = ts.map Lexeme.token) : parseLexemes stop ts = .ok d.value := by
  have whole : ts.map Lexeme.token = d.tokens ++ [] := by rw [h, List.append_nil]
  have hread : Returns (reading (comparison stop ts)) d.value [] := d.isRead stop whole trivial
  obtain ⟨rest, hread, hrest⟩ := hread
  obtain rfl : rest = [] := List.map_eq_nil_iff.mp hrest
  have notEmpty : ts.isEmpty = false := by
    obtain ⟨t, row, first, -⟩ := d.exists_first rfl
    cases ts with
    | nil => exact nomatch first.symm.trans h
    | cons l ls => rfl
  rw [parseLexemes_eq, notEmpty, hread]
  rfl

/-- A text that is parsed has tokens, and a derivation that reads them all. -/
theorem exists_derivation_of_parse {formula : String} {e : Expr} (h : parse formula = .ok e) :
    ∃ ts, tokenize formula = .ok ts ∧
      ∃ d : Derivation .comparison, d.tokens = ts.map Lexeme.token ∧ d.value = e := by
  unfold parse at h
  split at h
  · cases h
  · next ts htokens => exact ⟨ts, htokens, exists_derivation_of_parseLexemes h⟩

/-- A text whose tokens a derivation reads is parsed as what the derivation builds. -/
theorem parse_of_derivation {formula : String} {ts : List Lexeme} (read : tokenize formula = .ok ts)
    (d : Derivation .comparison) (h : d.tokens = ts.map Lexeme.token) :
    parse formula = .ok d.value := by
  unfold parse
  rw [read]
  exact parseLexemes_of_derivation _ d h

/-- A formula text is parsed as `e` where its tokens have a derivation that builds `e`, and no row
of tokens has two derivations. -/
theorem parse_eq_ok_iff :
    (∀ (formula : String) (e : Expr), parse formula = .ok e ↔
      ∃ ts, tokenize formula = .ok ts ∧
        ∃ d : Derivation .comparison, d.tokens = ts.map Lexeme.token ∧ d.value = e) ∧
    ∀ row : List Token, Subsingleton { d : Derivation .comparison // d.tokens = row } := by
  constructor
  · intro formula e
    constructor
    · exact exists_derivation_of_parse
    · rintro ⟨ts, hts, d, htokens, rfl⟩
      unfold parse
      rw [hts]
      exact parseLexemes_of_derivation _ d htokens
  · intro row
    constructor
    rintro ⟨d, hd⟩ ⟨d', hd'⟩
    have same : d = d' := Derivation.tokens_injective (hd.trans hd'.symm)
    exact Subtype.ext same

end Rollforward.Formula
