import Rollforward.Proofs.Formula.Scan

/-!
# `Rollforward.Proofs.Formula.References`: what the references of a formula are made of

A reference stands in the formula: a prefix for its namespace, where it has one, then at once its
code and then at once one of the forms that offsets have (`Reference.StandsIn`). So whatever holds
of all prefixes, all names and all forms of offsets holds of the parts of every reference that a
formula can have.
-/

set_option autoImplicit false

namespace Rollforward.Formula

/-- An offset is no larger than the largest, ahead or behind. -/
theorem OffsetForm.natAbs_value_le (form : OffsetForm) : form.value.natAbs ≤ largestOffset := by
  cases form with
  | omitted => exact Nat.zero_le _
  | now t isTime => exact Nat.zero_le _
  | shifted t isTime sign n m whole small =>
      cases sign with
      | plus => exact small
      | negate => rwa [value, Int.natAbs_neg]

/-- The reference is written in the row of tokens. -/
inductive Reference.StandsIn (row : List Token) : Reference → Prop where
  | qualified {qualifier code : String} (offset : OffsetForm)
    (inRow : .qualifier qualifier :: .name code :: offset.tokens <:+: row) :
    StandsIn row ⟨some (.ofName qualifier), code, offset.value⟩
  | unqualified {code : String} (offset : OffsetForm)
    (inRow : .name code :: offset.tokens <:+: row) : StandsIn row ⟨none, code, offset.value⟩

/-- What stands in a part of a row stands in the row. -/
theorem Reference.StandsIn.mono {row row' : List Token} {r : Reference} (h : r.StandsIn row)
    (inner : row <:+: row') : r.StandsIn row' := by
  cases h with
  | qualified offset inRow => exact .qualified offset (inRow.trans inner)
  | unqualified offset inRow => exact .unqualified offset (inRow.trans inner)

/-- The code of a reference is one of the names in the row. -/
theorem Reference.StandsIn.code_mem {row : List Token} {r : Reference} (h : r.StandsIn row) :
    .name r.code ∈ row := by
  cases h with
  | qualified offset inRow => exact inRow.subset (by simp)
  | unqualified offset inRow => exact inRow.subset (by simp)

/-- The references of a derivation stand in its tokens. -/
theorem Derivation.standsIn {c : Category} (d : Derivation c) :
    ∀ r ∈ d.references, r.StandsIn d.tokens := by
  -- What stands in a part stands in the whole, whatever is before the part and behind it.
  have part {row row' : List Token} {rs : List Reference} (ih : ∀ r ∈ rs, r.StandsIn row)
      (before behind : List Token) (whole : before ++ row ++ behind = row') :
      ∀ r ∈ rs, r.StandsIn row' :=
    fun r hr => (ih r hr).mono ⟨before, behind, whole⟩
  have both {row : List Token} {rs rs' : List Reference} (ih : ∀ r ∈ rs, r.StandsIn row)
      (ih' : ∀ r ∈ rs', r.StandsIn row) : ∀ r ∈ rs ++ rs', r.StandsIn row :=
    fun r hr => (List.mem_append.1 hr).elim (ih r) (ih' r)
  induction d with
  | numeral | text | sumEnd | productEnd | noArguments => exact fun r hr => nomatch hr
  | qualified qualifier code offset =>
      intro r hr
      obtain rfl := List.mem_singleton.1 hr
      exact .qualified offset List.infix_rfl
  | unqualified code offset =>
      intro r hr
      obtain rfl := List.mem_singleton.1 hr
      exact .unqualified offset List.infix_rfl
  | uncompared only ih | unraised only ih | someArguments list ih | lastArgument only ih => exact ih
  | signed op operand ih => exact part ih [op.token] [] (by simp)
  | parenthesized inner ih => exact part ih [.openParen] [.closeParen] (by simp)
  | call function args ih => exact part ih [.name function, .openParen] [.closeParen] (by simp)
  | sum first rest ih ih' | product first rest ih ih' =>
      exact both (part ih [] rest.tokens (by simp)) (part ih' first.tokens [] (by simp))
  | sumMore op _ next rest ih ih' | productMore op _ next rest ih ih' =>
      exact both (part ih [op.token] rest.tokens (by simp))
        (part ih' (op.token :: next.tokens) [] (by simp))
  | compared op _ left right ih ih' =>
      exact both (part ih [] (op.token :: right.tokens) (by simp))
        (part ih' (left.tokens ++ [op.token]) [] (by simp))
  | raised base exponent ih ih' =>
      exact both (part ih [] (.caret :: exponent.tokens) (by simp))
        (part ih' (base.tokens ++ [.caret]) [] (by simp))
  | moreArguments first rest ih ih' =>
      exact both (part ih [] (.comma :: rest.tokens) (by simp))
        (part ih' (first.tokens ++ [.comma]) [] (by simp))

/-- The references of a formula stand in its text. -/
theorem standsIn_of_parse {formula : String} {e : Expr} (parsed : parse formula = .ok e) :
    ∃ ts, tokenize formula = .ok ts ∧
      ∀ r ∈ e.references, r.StandsIn (ts.map Lexeme.token) := by
  obtain ⟨ts, hts, d, htokens, rfl⟩ := exists_derivation_of_parse parsed
  have same : d.value.references = d.references := d.references_value
  refine ⟨ts, hts, ?_⟩
  rw [same, ← htokens]
  exact d.standsIn

/-- The offset of a reference of a formula is no larger than the largest, ahead or behind. -/
theorem natAbs_offset_le {formula : String} {e : Expr} (parsed : parse formula = .ok e)
    {r : Reference} (hr : r ∈ e.references) : r.offset.natAbs ≤ largestOffset := by
  obtain ⟨ts, -, stands⟩ := standsIn_of_parse parsed
  cases stands r hr with
  | qualified offset => exact offset.natAbs_value_le
  | unqualified offset => exact offset.natAbs_value_le

end Rollforward.Formula
