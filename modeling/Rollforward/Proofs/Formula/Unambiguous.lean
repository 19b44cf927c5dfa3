import Rollforward.Proofs.Formula.Grammar

/-!
# `Rollforward.Proofs.Formula.Unambiguous`: one derivation for each row of tokens

`Derivation.Determined` says it for a row with more behind it: two derivations of one category that
read the front of the same row are the same, if neither could have read further. `Stops` makes the
last part precise. A category that may be empty or may go on, such as the tail of a sum, would
else leave open where it ends. There is a lemma for each production, `Derivation.determined` puts
them together, and `tokens_injective` is what is left of it for a whole row.

`Stops` compares numbers. `Token.grip` is how tightly a token holds on to what stands before it,
`Category.hold` the strongest grip that a category withstands. Of all tokens an opening parenthesis
and an opening bracket grip hardest: they turn a name into a call and a code into a reference to
another time.
-/

set_option autoImplicit false

namespace Rollforward.Formula

/-! ### Where a category ends -/

/-- The grip of the tokens of one tightness. -/
def Tightness.grip : Tightness → Nat
  | .comparison => 1
  | .additive => 2
  | .multiplicative => 3
  | .power => 4

/-- How tightly a token holds on to what stands before it. -/
def Token.grip : Token → Nat
  | .openParen | .openBracket => 5
  | .caret => 4
  | .star | .slash => 3
  | .plus | .minus => 2
  | .less | .lessEq | .greater | .greaterEq | .equal | .unequal => 1
  | _ => 0

/-- The token of an operation grips as its level of the grammar does. -/
theorem BinaryOp.grip_token (op : BinaryOp) : op.token.grip = op.tightness.grip := by
  cases op <;> rfl

/-- The strongest grip that a category withstands. -/
def Category.hold : Category → Nat
  | .operand => 4
  | .power => 3
  | .product | .productTail => 2
  | .sum | .sumTail => 1
  | .comparison | .arguments | .argumentList => 0

/-- Whether a category is only ever found in parentheses. -/
def Category.isEnclosed : Category → Bool
  | .arguments | .argumentList => true
  | _ => false

/-- The category cannot go on into the row `after`. Arguments end at their parenthesis only. -/
def Stops (c : Category) : List Token → Prop
  | [] => True
  | t :: _ => if c.isEnclosed then t = .closeParen else t.grip ≤ c.hold

/-- Outside parentheses only the grip of the next token counts. Enclosed categories are left out
because they end at a parenthesis whatever its grip. -/
theorem stops_cons_iff {c : Category} (notEnclosed : c.isEnclosed = false) {t : Token}
    {after : List Token} : Stops c (t :: after) ↔ t.grip ≤ c.hold := by
  simp [Stops, notEnclosed]

/-- What cannot go on into a row cannot go on into it from within a tighter category. -/
theorem Stops.mono {c c' : Category} {after : List Token} (h : Stops c after)
    (tighter : c.hold ≤ c'.hold) (outer : c.isEnclosed = false)
    (inner : c'.isEnclosed = false) : Stops c' after := by
  cases after with
  | nil => trivial
  | cons t ts =>
      rw [stops_cons_iff outer] at h
      rw [stops_cons_iff inner]
      exact Nat.le_trans h tighter

/-- A category stops before an operation that binds no tighter than it withstands. -/
theorem stops_operation {c : Category} (notEnclosed : c.isEnclosed = false) (op : BinaryOp)
    (weak : op.tightness.grip ≤ c.hold) (after : List Token) : Stops c (op.token :: after) := by
  rw [stops_cons_iff notEnclosed, op.grip_token]
  exact weak

/-- A category does not stop before an operation that binds tighter than it withstands. -/
theorem not_stops_operation {c : Category} (notEnclosed : c.isEnclosed = false) (op : BinaryOp)
    (strong : c.hold < op.tightness.grip) {row after : List Token}
    (h : row = op.token :: after) : ¬ Stops c row := by
  subst h
  rw [stops_cons_iff notEnclosed, op.grip_token]
  exact Nat.not_le.mpr strong

/-- Every category stops in front of a closing parenthesis, so what stands inside parentheses is
always read to its end. -/
theorem stops_closeParen (c : Category) (after : List Token) : Stops c (.closeParen :: after) := by
  cases c <;> simp [Stops, Category.isEnclosed, Token.grip]

/-- An argument stops in front of a comma. -/
theorem stops_comma (after : List Token) : Stops .comparison (.comma :: after) := by
  rw [stops_cons_iff rfl]
  exact Nat.le_refl 0

/-- A list of arguments does not: behind the comma it goes on. -/
theorem not_stops_comma (after : List Token) : ¬ Stops .argumentList (.comma :: after) := by
  intro h
  exact nomatch h

/-- Where a list of arguments stops, its last argument does. -/
theorem Stops.of_argumentList {after : List Token} (h : Stops .argumentList after) :
    Stops .comparison after := by
  cases after with
  | nil => trivial
  | cons t ts =>
      obtain rfl : t = .closeParen := h
      exact stops_closeParen .comparison ts

/-- Behind the first product of a sum nothing grips the product. -/
theorem Stops.of_sumTail {after : List Token} (rest : Derivation .sumTail)
    (h : Stops .sumTail after) : Stops .product (rest.tokens ++ after) := by
  cases rest with
  | sumEnd => exact h.mono (by decide) rfl rfl
  | sumMore op additive next rest => exact stops_operation rfl op (by rw [additive]; decide) _

/-- Behind the first power of a product nothing grips the power. -/
theorem Stops.of_productTail {after : List Token} (rest : Derivation .productTail)
    (h : Stops .productTail after) : Stops .power (rest.tokens ++ after) := by
  cases rest with
  | productEnd => exact h.mono (by decide) rfl rfl
  | productMore op multiplicative next rest =>
      exact stops_operation rfl op (by rw [multiplicative]; decide) _

/-! ### Where a category begins -/

/-- Whether an operand can begin with the token. -/
def Token.opensOperand : Token → Bool
  | .minus | .plus | .numeral _ | .text _ | .openParen | .qualifier _ | .name _ => true
  | _ => false

/-- Whether the derivations of a category begin with an operand. The others may be empty. -/
def Category.opensWithOperand : Category → Bool
  | .sumTail | .productTail | .arguments => false
  | _ => true

/-- A derivation that begins with an operand has a first token, and an operand can begin with it. -/
theorem Derivation.exists_first {c : Category} (d : Derivation c)
    (h : c.opensWithOperand = true) :
    ∃ t rest, d.tokens = t :: rest ∧ t.opensOperand = true := by
  -- Only the leftmost part of each production matters, so each step hands its first token on.
  have onward : ∀ {ts more : List Token}, (∃ t rest, ts = t :: rest ∧ t.opensOperand = true) →
      ∃ t rest, ts ++ more = t :: rest ∧ t.opensOperand = true := by
    rintro ts more ⟨t, rest, rfl, opens⟩
    exact ⟨t, rest ++ more, rfl, opens⟩
  induction d with
  | uncompared only ih => exact ih rfl
  | compared op loose left right ihLeft ihRight => exact onward (ihLeft rfl)
  | sum first rest ihFirst ihRest => exact onward (ihFirst rfl)
  | product first rest ihFirst ihRest => exact onward (ihFirst rfl)
  | unraised only ih => exact ih rfl
  | raised base exponent ihBase ihExponent => exact onward (ihBase rfl)
  | signed op operand ih => exact ⟨_, _, rfl, by cases op <;> rfl⟩
  | lastArgument only ih => exact ih rfl
  | moreArguments first rest ihFirst ihRest => exact onward (ihFirst rfl)
  | sumEnd | sumMore | productEnd | productMore | noArguments | someArguments => exact nomatch h
  | numeral | text | parenthesized | qualified | unqualified | call => exact ⟨_, _, rfl, rfl⟩

/-- A list that is not empty cannot be taken for the end of the arguments, since no operand begins
with a closing parenthesis. -/
theorem Derivation.not_stops_arguments (list : Derivation .argumentList)
    {row after : List Token} (h : row = list.tokens ++ after) : ¬ Stops .arguments row := by
  obtain ⟨t, rest, first, opens⟩ := list.exists_first rfl
  rw [h, first]
  intro h
  obtain rfl : t = .closeParen := h
  exact nomatch opens

/-! ### The row determines the derivation -/

/-- Which operation stands in front of a row can be told from its token. -/
theorem BinaryOp.cons_token_inj {a b : BinaryOp} {as bs : List Token}
    (h : a.token :: as = b.token :: bs) : a = b ∧ as = bs := by
  obtain ⟨first, rest⟩ := List.cons.inj h
  exact ⟨BinaryOp.eq_of_token_eq first, rest⟩

/-- The same for a sign. -/
theorem UnaryOp.cons_token_inj {a b : UnaryOp} {as bs : List Token}
    (h : a.token :: as = b.token :: bs) : a = b ∧ as = bs := by
  obtain ⟨first, rest⟩ := List.cons.inj h
  exact ⟨UnaryOp.eq_of_token_eq first, rest⟩

/-- Behind a code no parenthesis opens, whether an offset is written or not. -/
theorem OffsetForm.tokens_append_ne_openParen (o : OffsetForm) {after : List Token}
    (stops : Stops .operand after) (row : List Token) : o.tokens ++ after ≠ .openParen :: row := by
  intro h
  cases o with
  | omitted =>
      obtain rfl : after = .openParen :: row := h
      exact absurd (show (5 : Nat) ≤ 4 from stops) (by decide)
  | now t isTime => exact nomatch h
  | shifted t isTime sign n m whole small => exact nomatch h

/-- The offset at the front of a row is determined, unless the row could go on into a bracket. -/
theorem OffsetForm.tokens_append_inj {o o' : OffsetForm} {after after' : List Token}
    (h : o.tokens ++ after = o'.tokens ++ after') (stops : Stops .operand after)
    (stops' : Stops .operand after') : o = o' ∧ after = after' := by
  -- A row behind an omitted offset does not begin like a written one.
  have bracket : ∀ {row ts}, row = .openBracket :: ts → ¬ Stops .operand row := by
    rintro row ts rfl h
    exact absurd (show (5 : Nat) ≤ 4 from h) (by decide)
  cases o with
  | omitted =>
      cases o' with
      | omitted => exact ⟨rfl, h⟩
      | now t isTime => exact absurd stops (bracket h)
      | shifted t isTime sign n m whole small => exact absurd stops (bracket h)
  | now t isTime =>
      cases o' with
      | omitted => exact absurd stops' (bracket h.symm)
      | now t' isTime' => simpa [tokens] using h
      | shifted t' isTime' sign' n' m' whole' small' =>
          cases sign' <;> simp [tokens, UnaryOp.token] at h
  | shifted t isTime sign n m whole small =>
      cases o' with
      | omitted => exact absurd stops' (bracket h.symm)
      | now t' isTime' => cases sign <;> simp [tokens, UnaryOp.token] at h
      | shifted t' isTime' sign' n' m' whole' small' =>
          simp only [tokens, List.cons_append, List.cons.injEq, Token.name.injEq,
            Token.numeral.injEq, List.nil_append, true_and] at h
          obtain ⟨rfl, sameSign, rfl, rfl⟩ := h
          obtain rfl := UnaryOp.eq_of_token_eq sameSign
          obtain rfl : m = m' := by simpa [whole] using whole'
          exact ⟨rfl, rfl⟩

/-! ### The productions -/

namespace Derivation

/-- No other derivation of the category reads the front of a row that begins with the tokens of this
one, unless one of the two could go on. -/
def Determined {c : Category} (d : Derivation c) : Prop :=
  ∀ (d' : Derivation c) ⦃after after' : List Token⦄, d.tokens ++ after = d'.tokens ++ after' →
    Stops c after → Stops c after' → d = d' ∧ after = after'

/-- Of two readings of a row one cannot end in front of a comparator that the other takes, since it
does not stop there. All lemmas with two productions for one category rest on this. -/
theorem determined_uncompared {only : Derivation .sum} (ih : only.Determined) :
    (uncompared only).Determined := by
  intro d' after after' h stops stops'
  have stopsSum : Stops .sum after := stops.mono (by decide) rfl rfl
  cases d' with
  | uncompared only' =>
      obtain ⟨rfl, rest⟩ := ih only' h stopsSum (stops'.mono (by decide) rfl rfl)
      exact ⟨rfl, rest⟩
  | compared op loose left right =>
      simp only [tokens, List.append_assoc, List.cons_append] at h
      obtain ⟨-, rest⟩ := ih left h stopsSum (stops_operation rfl op (by rw [loose]; decide) _)
      -- The first derivation ends before the comparator, where it could go on.
      exact absurd stops (not_stops_operation rfl op (by rw [loose]; decide) rest)

/-- Both readings take a comparator, behind sums that are the same by induction, so it is the same
one. -/
theorem determined_compared (op : BinaryOp) (loose : op.tightness = .comparison)
    {left right : Derivation .sum} (ihLeft : left.Determined) (ihRight : right.Determined) :
    (compared op loose left right).Determined := by
  intro d' after after' h stops stops'
  have before (row : List Token) : Stops .sum (op.token :: row) :=
    stops_operation rfl op (by rw [loose]; decide) row
  have stopsSum' : Stops .sum after' := stops'.mono (by decide) rfl rfl
  cases d' with
  | uncompared only =>
      simp only [tokens, List.append_assoc, List.cons_append] at h
      obtain ⟨-, rest⟩ := ihLeft only h (before _) stopsSum'
      exact absurd stops' (not_stops_operation rfl op (by rw [loose]; decide) rest.symm)
  | compared op' loose' left' right' =>
      simp only [tokens, List.append_assoc, List.cons_append] at h
      obtain ⟨rfl, hmore⟩ :=
        ihLeft left' h (before _) (stops_operation rfl op' (by rw [loose']; decide) _)
      obtain ⟨rfl, hright⟩ := BinaryOp.cons_token_inj hmore
      obtain ⟨rfl, hafter⟩ := ihRight right' hright (stops.mono (by decide) rfl rfl) stopsSum'
      exact ⟨rfl, hafter⟩

/-- Sums have one production, and the product ends in front of whatever the tail begins with. -/
theorem determined_sum {first : Derivation .product} {rest : Derivation .sumTail}
    (ihFirst : first.Determined) (ihRest : rest.Determined) : (sum first rest).Determined := by
  intro d' after after' h stops stops'
  cases d' with
  | sum first' rest' =>
      simp only [tokens, List.append_assoc] at h
      have stops : Stops .sumTail after := stops.mono (by decide) rfl rfl
      have stops' : Stops .sumTail after' := stops'.mono (by decide) rfl rfl
      obtain ⟨rfl, hrest⟩ := ihFirst first' h (stops.of_sumTail rest) (stops'.of_sumTail rest')
      obtain ⟨rfl, hafter⟩ := ihRest rest' hrest stops stops'
      exact ⟨rfl, hafter⟩

/-- An empty tail is no other tail, which would begin with an operator. -/
theorem determined_sumEnd : sumEnd.Determined := by
  intro d' after after' h stops stops'
  cases d' with
  | sumEnd => exact ⟨rfl, h⟩
  | sumMore op additive next rest =>
      exact absurd stops (not_stops_operation rfl op (by rw [additive]; decide) h)

/-- Tails are compared from the left: operator, product, and the tail behind it. -/
theorem determined_sumMore (op : BinaryOp) (additive : op.tightness = .additive)
    {next : Derivation .product} {rest : Derivation .sumTail} (ihNext : next.Determined)
    (ihRest : rest.Determined) : (sumMore op additive next rest).Determined := by
  intro d' after after' h stops stops'
  cases d' with
  | sumEnd => exact absurd stops' (not_stops_operation rfl op (by rw [additive]; decide) h.symm)
  | sumMore op' additive' next' rest' =>
      simp only [tokens, List.append_assoc, List.cons_append] at h
      obtain ⟨rfl, hnext⟩ := BinaryOp.cons_token_inj h
      obtain ⟨rfl, hrest⟩ := ihNext next' hnext (stops.of_sumTail rest) (stops'.of_sumTail rest')
      obtain ⟨rfl, hafter⟩ := ihRest rest' hrest stops stops'
      exact ⟨rfl, hafter⟩

/-- Products have one production, as sums do. -/
theorem determined_product {first : Derivation .power} {rest : Derivation .productTail}
    (ihFirst : first.Determined) (ihRest : rest.Determined) :
    (product first rest).Determined := by
  intro d' after after' h stops stops'
  cases d' with
  | product first' rest' =>
      simp only [tokens, List.append_assoc] at h
      have stops : Stops .productTail after := stops.mono (by decide) rfl rfl
      have stops' : Stops .productTail after' := stops'.mono (by decide) rfl rfl
      obtain ⟨rfl, hrest⟩ :=
        ihFirst first' h (stops.of_productTail rest) (stops'.of_productTail rest')
      obtain ⟨rfl, hafter⟩ := ihRest rest' hrest stops stops'
      exact ⟨rfl, hafter⟩

/-- An empty tail of a product is no other tail. -/
theorem determined_productEnd : productEnd.Determined := by
  intro d' after after' h stops stops'
  cases d' with
  | productEnd => exact ⟨rfl, h⟩
  | productMore op multiplicative next rest =>
      exact absurd stops (not_stops_operation rfl op (by rw [multiplicative]; decide) h)

/-- Tails of products, compared from the left. -/
theorem determined_productMore (op : BinaryOp) (multiplicative : op.tightness = .multiplicative)
    {next : Derivation .power} {rest : Derivation .productTail} (ihNext : next.Determined)
    (ihRest : rest.Determined) : (productMore op multiplicative next rest).Determined := by
  intro d' after after' h stops stops'
  cases d' with
  | productEnd =>
      exact absurd stops' (not_stops_operation rfl op (by rw [multiplicative]; decide) h.symm)
  | productMore op' multiplicative' next' rest' =>
      simp only [tokens, List.append_assoc, List.cons_append] at h
      obtain ⟨rfl, hnext⟩ := BinaryOp.cons_token_inj h
      obtain ⟨rfl, hrest⟩ :=
        ihNext next' hnext (stops.of_productTail rest) (stops'.of_productTail rest')
      obtain ⟨rfl, hafter⟩ := ihRest rest' hrest stops stops'
      exact ⟨rfl, hafter⟩

/-- An operand alone is not the base of a power, since a power does not stop in front of a caret. -/
theorem determined_unraised {only : Derivation .operand} (ih : only.Determined) :
    (unraised only).Determined := by
  intro d' after after' h stops stops'
  have stopsOperand : Stops .operand after := stops.mono (by decide) rfl rfl
  cases d' with
  | unraised only' =>
      obtain ⟨rfl, hafter⟩ := ih only' h stopsOperand (stops'.mono (by decide) rfl rfl)
      exact ⟨rfl, hafter⟩
  | raised base exponent =>
      simp only [tokens, List.append_assoc, List.cons_append] at h
      obtain ⟨-, hafter⟩ := ih base h stopsOperand (stops_operation rfl .pow (by decide) _)
      exact absurd stops (not_stops_operation rfl .pow (by decide) hafter)

/-- Bases end in front of the caret, and behind it stand the exponents. -/
theorem determined_raised {base : Derivation .operand} {exponent : Derivation .power}
    (ihBase : base.Determined) (ihExponent : exponent.Determined) :
    (raised base exponent).Determined := by
  intro d' after after' h stops stops'
  have before (row : List Token) : Stops .operand (.caret :: row) :=
    stops_operation rfl .pow (by decide) row
  cases d' with
  | unraised only =>
      simp only [tokens, List.append_assoc, List.cons_append] at h
      obtain ⟨-, hafter⟩ := ihBase only h (before _) (stops'.mono (by decide) rfl rfl)
      exact absurd stops' (not_stops_operation rfl .pow (by decide) hafter.symm)
  | raised base' exponent' =>
      simp only [tokens, List.append_assoc, List.cons_append] at h
      -- Both bases end before a caret, so they are the same.
      obtain ⟨rfl, hexponent⟩ := ihBase base' h (before _) (before _)
      obtain ⟨rfl, hafter⟩ := ihExponent exponent' (List.cons.inj hexponent).2 stops stops'
      exact ⟨rfl, hafter⟩

/-- No other operand begins with a sign. -/
theorem determined_signed (op : UnaryOp) {operand : Derivation .operand}
    (ih : operand.Determined) : (signed op operand).Determined := by
  intro d' after after' h stops stops'
  cases d' with
  | signed op' operand' =>
      obtain ⟨rfl, hoperand⟩ := UnaryOp.cons_token_inj h
      obtain ⟨rfl, hafter⟩ := ih operand' hoperand stops stops'
      exact ⟨rfl, hafter⟩
  | _ => cases op <;> simp [tokens, UnaryOp.token] at h

/-- A number is told by its token. -/
theorem determined_numeral (n : Decimal.Numeral) : (numeral n).Determined := by
  intro d' after after' h stops stops'
  cases d' with
  | numeral n' => simpa [tokens] using h
  | signed op' operand' => cases op' <;> simp [tokens, UnaryOp.token] at h
  | _ => simp [tokens] at h

/-- So is a text. -/
theorem determined_text (s : String) : (text s).Determined := by
  intro d' after after' h stops stops'
  cases d' with
  | text s' => simpa [tokens] using h
  | signed op' operand' => cases op' <;> simp [tokens, UnaryOp.token] at h
  | _ => simp [tokens] at h

/-- Between parentheses stands one comparison, whatever comes behind them. -/
theorem determined_parenthesized {inner : Derivation .comparison} (ih : inner.Determined) :
    (parenthesized inner).Determined := by
  intro d' after after' h stops stops'
  cases d' with
  | parenthesized inner' =>
      simp only [tokens, List.append_assoc, List.cons_append, List.cons.injEq, true_and,
        List.nil_append] at h
      obtain ⟨rfl, hafter⟩ := ih inner' h (stops_closeParen _ _) (stops_closeParen _ _)
      exact ⟨rfl, (List.cons.inj hafter).2⟩
  | signed op' operand' => cases op' <;> simp [tokens, UnaryOp.token] at h
  | _ => simp [tokens] at h

/-- Only a qualified reference begins with a prefix, and its code and offset follow. -/
theorem determined_qualified (qualifier code : String) (offset : OffsetForm) :
    (qualified qualifier code offset).Determined := by
  intro d' after after' h stops stops'
  cases d' with
  | qualified qualifier' code' offset' =>
      simp only [tokens, List.cons_append, List.cons.injEq, Token.qualifier.injEq,
        Token.name.injEq] at h
      obtain ⟨rfl, rfl, hoffset⟩ := h
      obtain ⟨rfl, hafter⟩ := OffsetForm.tokens_append_inj hoffset stops stops'
      exact ⟨rfl, hafter⟩
  | signed op' operand' => cases op' <;> simp [tokens, UnaryOp.token] at h
  | _ => simp [tokens] at h

/-- A reference and a call both begin with a name. The parenthesis that tells them apart cannot
stand behind a reference. -/
theorem determined_unqualified (code : String) (offset : OffsetForm) :
    (unqualified code offset).Determined := by
  intro d' after after' h stops stops'
  cases d' with
  | unqualified code' offset' =>
      simp only [tokens, List.cons_append, List.cons.injEq, Token.name.injEq] at h
      obtain ⟨rfl, hoffset⟩ := h
      obtain ⟨rfl, hafter⟩ := OffsetForm.tokens_append_inj hoffset stops stops'
      exact ⟨rfl, hafter⟩
  -- A parenthesis behind the name would make it a call.
  | call function' args' =>
      exact absurd (List.cons.inj h).2 (offset.tokens_append_ne_openParen stops _)
  | signed op' operand' => cases op' <;> simp [tokens, UnaryOp.token] at h
  | _ => simp [tokens] at h

/-- The other way round: a reference in the second reading would have to stop in front of the
parenthesis. -/
theorem determined_call (function : String) {args : Derivation .arguments}
    (ih : args.Determined) : (call function args).Determined := by
  intro d' after after' h stops stops'
  cases d' with
  | unqualified code offset =>
      exact absurd (List.cons.inj h).2.symm (offset.tokens_append_ne_openParen stops' _)
  | call function' args' =>
      simp only [tokens, List.append_assoc, List.cons_append, List.cons.injEq, Token.name.injEq,
        true_and, List.nil_append] at h
      obtain ⟨rfl, hargs⟩ := h
      obtain ⟨rfl, hafter⟩ := ih args' hargs (stops_closeParen _ _) (stops_closeParen _ _)
      exact ⟨rfl, (List.cons.inj hafter).2⟩
  | signed op' operand' => cases op' <;> simp [tokens, UnaryOp.token] at h
  | _ => simp [tokens] at h

/-- No arguments are not a list of arguments. -/
theorem determined_noArguments : noArguments.Determined := by
  intro d' after after' h stops stops'
  cases d' with
  | noArguments => exact ⟨rfl, h⟩
  | someArguments list => exact absurd stops (list.not_stops_arguments h)

/-- A list of arguments is not the absence of any. -/
theorem determined_someArguments {list : Derivation .argumentList} (ih : list.Determined) :
    (someArguments list).Determined := by
  intro d' after after' h stops stops'
  cases d' with
  | noArguments => exact absurd stops' (list.not_stops_arguments h.symm)
  | someArguments list' =>
      obtain ⟨rfl, hafter⟩ := ih list' h stops stops'
      exact ⟨rfl, hafter⟩

/-- The last argument has no comma behind it, as the list would go on there. -/
theorem determined_lastArgument {only : Derivation .comparison} (ih : only.Determined) :
    (lastArgument only).Determined := by
  intro d' after after' h stops stops'
  cases d' with
  | lastArgument only' =>
      obtain ⟨rfl, hafter⟩ := ih only' h stops.of_argumentList stops'.of_argumentList
      exact ⟨rfl, hafter⟩
  | moreArguments first rest =>
      simp only [tokens, List.append_assoc, List.cons_append] at h
      -- The first derivation ends before a comma, behind which its list goes on.
      obtain ⟨-, hafter⟩ := ih first h stops.of_argumentList (stops_comma _)
      rw [hafter] at stops
      exact absurd stops (not_stops_comma _)

/-- The first arguments end in front of the comma, and behind it stand the other lists. -/
theorem determined_moreArguments {first : Derivation .comparison}
    {rest : Derivation .argumentList} (ihFirst : first.Determined) (ihRest : rest.Determined) :
    (moreArguments first rest).Determined := by
  intro d' after after' h stops stops'
  cases d' with
  | lastArgument only =>
      simp only [tokens, List.append_assoc, List.cons_append] at h
      obtain ⟨-, hafter⟩ := ihFirst only h (stops_comma _) stops'.of_argumentList
      rw [← hafter] at stops'
      exact absurd stops' (not_stops_comma _)
  | moreArguments first' rest' =>
      simp only [tokens, List.append_assoc, List.cons_append] at h
      obtain ⟨rfl, hrest⟩ := ihFirst first' h (stops_comma _) (stops_comma _)
      obtain ⟨rfl, hafter⟩ := ihRest rest' (List.cons.inj hrest).2 stops stops'
      exact ⟨rfl, hafter⟩

/-- Every derivation is determined by its tokens. -/
theorem determined {c : Category} (d : Derivation c) : d.Determined := by
  induction d with
  | uncompared only ih => exact determined_uncompared ih
  | compared op loose left right ihLeft ihRight =>
      exact determined_compared op loose ihLeft ihRight
  | sum first rest ihFirst ihRest => exact determined_sum ihFirst ihRest
  | sumEnd => exact determined_sumEnd
  | sumMore op additive next rest ihNext ihRest =>
      exact determined_sumMore op additive ihNext ihRest
  | product first rest ihFirst ihRest => exact determined_product ihFirst ihRest
  | productEnd => exact determined_productEnd
  | productMore op multiplicative next rest ihNext ihRest =>
      exact determined_productMore op multiplicative ihNext ihRest
  | unraised only ih => exact determined_unraised ih
  | raised base exponent ihBase ihExponent => exact determined_raised ihBase ihExponent
  | signed op operand ih => exact determined_signed op ih
  | numeral n => exact determined_numeral n
  | text s => exact determined_text s
  | parenthesized inner ih => exact determined_parenthesized ih
  | qualified qualifier code offset => exact determined_qualified qualifier code offset
  | unqualified code offset => exact determined_unqualified code offset
  | call function args ih => exact determined_call function ih
  | noArguments => exact determined_noArguments
  | someArguments list ih => exact determined_someArguments ih
  | lastArgument only ih => exact determined_lastArgument ih
  | moreArguments first rest ihFirst ihRest => exact determined_moreArguments ihFirst ihRest

/-- Two derivations of a comparison that read the same row are the same. -/
theorem tokens_injective : Function.Injective (tokens (c := .comparison)) := by
  intro d d' same
  have whole : d.tokens ++ [] = d'.tokens ++ [] := by rw [same]
  exact (d.determined d' whole trivial trivial).1

end Derivation

end Rollforward.Formula
