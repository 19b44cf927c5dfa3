import Rollforward.Proofs.Formula.Offset
import Rollforward.Proofs.Formula.Reading

/-!
# `Rollforward.Proofs.Formula.Completeness`: the parser reads every derivation

Put the tokens of a derivation in front of a row into which its category cannot go on (`Stops`).
The reader of the category then takes exactly these tokens and returns what the derivation builds.
Each loop of the parser ends where `Stops` says, since the first token of the row has too weak a
grip to be one of the loop's operations.

`Derivation.IsRead` says this of one derivation. There is a lemma for each production, from the
parts of a derivation to the whole, and `Derivation.isRead` puts them together.
-/

set_option autoImplicit false

namespace Rollforward.Formula

/-- The reader returned `value` and left a row with the tokens `after`. -/
def Returns {α : Type} (r : Except SyntaxError (α × List Lexeme)) (value : α)
    (after : List Token) : Prop :=
  ∃ rest, r = .ok (value, rest) ∧ rest.map Lexeme.token = after

/-! ### Looking at the front of a row -/

/-- A token that a derivation starts with is found in front of the row, whatever its place in the
text is. -/
theorem behind?_of_tokens {t : Token} {ts : List Lexeme} {row : List Token}
    (h : ts.map Lexeme.token = t :: row) :
    ∃ rest, behind? t ts = some rest ∧ rest.map Lexeme.token = row := by
  obtain ⟨start, spelling, rest, rfl, hrest⟩ := exists_lexeme h
  exact ⟨rest, behind?_eq_some_iff.mpr ⟨_, rfl, rfl⟩, hrest⟩

/-- The same for an operator, whose meaning the reader asks for. -/
theorem operator?_of_tokens {meaning : Token → Option BinaryOp} {op : BinaryOp}
    (known : meaning op.token = some op) {ts : List Lexeme} {row : List Token}
    (h : ts.map Lexeme.token = op.token :: row) :
    ∃ rest, operator? meaning ts = some (op, rest) ∧ rest.map Lexeme.token = row := by
  obtain ⟨start, spelling, rest, rfl, hrest⟩ := exists_lexeme h
  exact ⟨rest, operator?_eq_some_iff.mpr ⟨_, rfl, known⟩, hrest⟩

/-- Where a category stops, no token with a stronger grip stands in front. -/
theorem behind?_eq_none_of_stops {c : Category} (notEnclosed : c.isEnclosed = false) {t : Token}
    (strong : c.hold < t.grip) {ts : List Lexeme} (stops : Stops c (ts.map Lexeme.token)) :
    behind? t ts = none := by
  rw [behind?_eq_none_iff]
  cases ts with
  | nil => exact nofun
  | cons l ls =>
      rw [List.map_cons, stops_cons_iff notEnclosed] at stops
      intro first
      obtain rfl : l.token = t := Option.some.inj first
      omega

/-- Where a category stops, no operation with a stronger grip stands in front. -/
theorem operator?_eq_none_of_stops {c : Category} (notEnclosed : c.isEnclosed = false)
    {meaning : Token → Option BinaryOp}
    (strong : ∀ t op, meaning t = some op → c.hold < t.grip) {ts : List Lexeme}
    (stops : Stops c (ts.map Lexeme.token)) : operator? meaning ts = none := by
  cases ts with
  | nil => rfl
  | cons l ls =>
      rw [List.map_cons, stops_cons_iff notEnclosed] at stops
      cases hmeaning : meaning l.token with
      | none => simp [operator?, hmeaning]
      | some op =>
          have grip := strong l.token op hmeaning
          omega

variable {stop : Nat}

/-- A comparison is complete where no comparator follows, and `Stops` says that none does. -/
theorem operator?_comparator?_eq_none {ts : List Lexeme}
    (stops : Stops .comparison (ts.map Lexeme.token)) : operator? comparator? ts = none := by
  refine operator?_eq_none_of_stops rfl ?_ stops
  intro t op hop
  obtain ⟨loose, rfl⟩ := comparator?_eq_some_iff.mp hop
  rw [op.grip_token, loose]
  decide

/-- The loop over sums ends where its category stops. -/
theorem operator?_additive?_eq_none {ts : List Lexeme}
    (stops : Stops .sumTail (ts.map Lexeme.token)) : operator? additive? ts = none := by
  refine operator?_eq_none_of_stops rfl ?_ stops
  intro t op hop
  obtain ⟨additive, rfl⟩ := additive?_eq_some_iff.mp hop
  rw [op.grip_token, additive]
  decide

/-- The loop over products ends where its category stops. -/
theorem operator?_multiplicative?_eq_none {ts : List Lexeme}
    (stops : Stops .productTail (ts.map Lexeme.token)) :
    operator? multiplicative? ts = none := by
  refine operator?_eq_none_of_stops rfl ?_ stops
  intro t op hop
  obtain ⟨multiplicative, rfl⟩ := multiplicative?_eq_some_iff.mp hop
  rw [op.grip_token, multiplicative]
  decide

/-! ### The readers -/

/-- A code with any way to write its offset is read back as the reference that the form stands for.
The brackets show where the offset ends, and without them `Stops` does. -/
theorem readReference_of_tokens {source : Option Namespace} {code : String} {ts : List Lexeme}
    {after : List Token} (form : OffsetForm) (h : ts.map Lexeme.token = form.tokens ++ after)
    (stops : Stops .operand after) :
    Returns (reading (readReference stop source code ts))
      (.reference ⟨source, code, form.value⟩) after := by
  obtain ⟨rest, hread, hrest⟩ := readOffset_of_tokens stop form h stops
  refine ⟨rest, ?_, hrest⟩
  rw [reading_readReference, hread]

/-! ### The productions -/

/-- The reader of a category, in front of `ts`, returned `v` and left a row with the tokens `after`.
The reader of a tail is given what stands before it, and that of arguments reads the closing
parenthesis too. -/
def Answers (stop : Nat) : (c : Category) → c.Value → List Lexeme → List Token → Prop
  | .comparison, e, ts, after => Returns (reading (comparison stop ts)) e after
  | .sum, e, ts, after => Returns (reading (sum stop ts)) e after
  | .sumTail, f, ts, after => ∀ left, Returns (reading (sumFrom stop left ts)) (f left) after
  | .product, e, ts, after => Returns (reading (product stop ts)) e after
  | .productTail, f, ts, after =>
    ∀ left, Returns (reading (productFrom stop left ts)) (f left) after
  | .power, e, ts, after => Returns (reading (power stop ts)) e after
  | .operand, e, ts, after => Returns (reading (operand stop ts)) e after
  | .arguments, es, ts, row =>
    ∀ after, row = .closeParen :: after → Returns (reading (arguments stop ts)) es after
  | .argumentList, es, ts, row =>
    ∀ after, row = .closeParen :: after → Returns (reading (argumentList stop ts)) es after

namespace Derivation

/-- Wherever the tokens of the derivation stand and its category stops, its reader answers with what
it builds. -/
def IsRead (stop : Nat) {c : Category} (d : Derivation c) : Prop :=
  ∀ ⦃ts : List Lexeme⦄ ⦃after : List Token⦄, ts.map Lexeme.token = d.tokens ++ after →
    Stops c after → Answers stop c d.value ts after

/-- A sum alone: behind it no comparator stands, since the whole comparison stops there. -/
theorem isRead_uncompared {only : Derivation .sum} (ih : only.IsRead stop) :
    (uncompared only).IsRead stop := by
  intro ts after h stops
  obtain ⟨rest, hread, rfl⟩ := ih h (stops.mono (by decide) rfl rfl)
  refine ⟨rest, ?_, rfl⟩
  rw [reading_comparison, hread]
  simp only [operator?_comparator?_eq_none stops]
  rfl

/-- Two sums. The first stops in front of the comparator, whose grip is weaker than that of a sum,
and the second where the whole comparison does. -/
theorem isRead_compared (op : BinaryOp) (loose : op.tightness = .comparison)
    {left right : Derivation .sum} (ihLeft : left.IsRead stop) (ihRight : right.IsRead stop) :
    (compared op loose left right).IsRead stop := by
  intro ts after h stops
  rw [tokens, List.append_assoc, List.cons_append] at h
  have before : Stops .sum (op.token :: (right.tokens ++ after)) :=
    stops_operation rfl op (by rw [loose]; decide) _
  obtain ⟨middle, hleft, hmiddle⟩ := ihLeft h before
  obtain ⟨behind, hop, hbehind⟩ :=
    operator?_of_tokens (comparator?_eq_some_iff.mpr ⟨loose, rfl⟩) hmiddle
  obtain ⟨rest, hright, rfl⟩ := ihRight hbehind (stops.mono (by decide) rfl rfl)
  refine ⟨rest, ?_, rfl⟩
  rw [reading_comparison, hleft]
  simp only [hop, hright]
  rfl

/-- A product and a tail, where the product stops in front of whatever the tail begins with. -/
theorem isRead_sum {first : Derivation .product} {tail : Derivation .sumTail}
    (ihFirst : first.IsRead stop) (ihTail : tail.IsRead stop) : (sum first tail).IsRead stop := by
  intro ts after h stops
  rw [tokens, List.append_assoc] at h
  have stops : Stops .sumTail after := stops.mono (by decide) rfl rfl
  obtain ⟨behind, hfirst, hbehind⟩ := ihFirst h (stops.of_sumTail tail)
  obtain ⟨rest, htail, rfl⟩ := ihTail hbehind stops first.value
  refine ⟨rest, ?_, rfl⟩
  rw [reading_sum, hfirst]
  exact htail

/-- The empty tail: the loop ends before its first round. -/
theorem isRead_sumEnd : sumEnd.IsRead stop := by
  intro ts after h stops left
  obtain rfl : ts.map Lexeme.token = after := h
  refine ⟨ts, ?_, rfl⟩
  rw [reading_sumFrom, operator?_additive?_eq_none stops]
  rfl

/-- One round of the loop. The rest of the tail is read with the sum so far on its left, which is
why `Answers` quantifies over the expression on the left of a tail. -/
theorem isRead_sumMore (op : BinaryOp) (additive : op.tightness = .additive)
    {next : Derivation .product} {tail : Derivation .sumTail} (ihNext : next.IsRead stop)
    (ihTail : tail.IsRead stop) : (sumMore op additive next tail).IsRead stop := by
  intro ts after h stops left
  rw [tokens, List.cons_append, List.append_assoc] at h
  obtain ⟨behind, hop, hbehind⟩ :=
    operator?_of_tokens (additive?_eq_some_iff.mpr ⟨additive, rfl⟩) h
  obtain ⟨middle, hnext, hmiddle⟩ := ihNext hbehind (stops.of_sumTail tail)
  -- What is read so far becomes the left operand of what comes next.
  obtain ⟨rest, htail, rfl⟩ := ihTail hmiddle stops (.binary op left next.value)
  refine ⟨rest, ?_, rfl⟩
  rw [reading_sumFrom, hop]
  simp only [hnext]
  exact htail

/-- A power and a tail. -/
theorem isRead_product {first : Derivation .power} {tail : Derivation .productTail}
    (ihFirst : first.IsRead stop) (ihTail : tail.IsRead stop) :
    (product first tail).IsRead stop := by
  intro ts after h stops
  rw [tokens, List.append_assoc] at h
  have stops : Stops .productTail after := stops.mono (by decide) rfl rfl
  obtain ⟨behind, hfirst, hbehind⟩ := ihFirst h (stops.of_productTail tail)
  obtain ⟨rest, htail, rfl⟩ := ihTail hbehind stops first.value
  refine ⟨rest, ?_, rfl⟩
  rw [reading_product, hfirst]
  exact htail

/-- The empty tail of a product. -/
theorem isRead_productEnd : productEnd.IsRead stop := by
  intro ts after h stops left
  obtain rfl : ts.map Lexeme.token = after := h
  refine ⟨ts, ?_, rfl⟩
  rw [reading_productFrom, operator?_multiplicative?_eq_none stops]
  rfl

/-- One round of the loop over products. -/
theorem isRead_productMore (op : BinaryOp) (multiplicative : op.tightness = .multiplicative)
    {next : Derivation .power} {tail : Derivation .productTail} (ihNext : next.IsRead stop)
    (ihTail : tail.IsRead stop) : (productMore op multiplicative next tail).IsRead stop := by
  intro ts after h stops left
  rw [tokens, List.cons_append, List.append_assoc] at h
  obtain ⟨behind, hop, hbehind⟩ :=
    operator?_of_tokens (multiplicative?_eq_some_iff.mpr ⟨multiplicative, rfl⟩) h
  obtain ⟨middle, hnext, hmiddle⟩ := ihNext hbehind (stops.of_productTail tail)
  obtain ⟨rest, htail, rfl⟩ := ihTail hmiddle stops (.binary op left next.value)
  refine ⟨rest, ?_, rfl⟩
  rw [reading_productFrom, hop]
  simp only [hnext]
  exact htail

/-- An operand alone is a power where no caret follows. -/
theorem isRead_unraised {only : Derivation .operand} (ih : only.IsRead stop) :
    (unraised only).IsRead stop := by
  intro ts after h stops
  obtain ⟨rest, hread, rfl⟩ := ih h (stops.mono (by decide) rfl rfl)
  -- Where a power stops, no caret can follow the operand.
  have ends : behind? .caret rest = none := behind?_eq_none_of_stops rfl (by decide) stops
  refine ⟨rest, ?_, rfl⟩
  rw [reading_power, hread]
  simp only [ends]
  rfl

/-- A base and its exponent. The base stops in front of the caret, which no operand goes on with,
and the exponent is a power itself, so the whole stops where it does. -/
theorem isRead_raised {base : Derivation .operand} {exponent : Derivation .power}
    (ihBase : base.IsRead stop) (ihExponent : exponent.IsRead stop) :
    (raised base exponent).IsRead stop := by
  intro ts after h stops
  rw [tokens, List.append_assoc, List.cons_append] at h
  have before : Stops .operand (.caret :: (exponent.tokens ++ after)) :=
    stops_operation rfl .pow (by decide) _
  obtain ⟨middle, hbase, hmiddle⟩ := ihBase h before
  obtain ⟨behind, hcaret, hbehind⟩ := behind?_of_tokens hmiddle
  obtain ⟨rest, hexponent, rfl⟩ := ihExponent hbehind stops
  refine ⟨rest, ?_, rfl⟩
  rw [reading_power, hbase]
  simp only [hcaret, hexponent]
  rfl

/-- A sign hands on to the operand behind it. -/
theorem isRead_signed (op : UnaryOp) {operand : Derivation .operand} (ih : operand.IsRead stop) :
    (signed op operand).IsRead stop := by
  intro ts after h stops
  obtain ⟨start, spelling, behind, rfl, hbehind⟩ := exists_lexeme h
  obtain ⟨rest, hread, rfl⟩ := ih hbehind stops
  refine ⟨rest, ?_, rfl⟩
  rw [reading_operand]
  cases op <;> simp only [UnaryOp.token, hread] <;> rfl

/-- A number is an operand in any surroundings. -/
theorem isRead_numeral (n : Decimal.Numeral) : (numeral n).IsRead stop := by
  intro ts after h stops
  obtain ⟨start, spelling, rest, rfl, rfl⟩ := exists_lexeme h
  refine ⟨rest, ?_, rfl⟩
  rw [reading_operand]
  rfl

/-- So is a text. -/
theorem isRead_text (s : String) : (text s).IsRead stop := by
  intro ts after h stops
  obtain ⟨start, spelling, rest, rfl, rfl⟩ := exists_lexeme h
  refine ⟨rest, ?_, rfl⟩
  rw [reading_operand]
  rfl

/-- The comparison inside is read up to the closing parenthesis, where every category stops. -/
theorem isRead_parenthesized {inner : Derivation .comparison} (ih : inner.IsRead stop) :
    (parenthesized inner).IsRead stop := by
  intro ts after h stops
  obtain ⟨start, spelling, behind, rfl, hbehind⟩ := exists_lexeme h
  rw [List.append_eq, List.append_assoc, List.singleton_append] at hbehind
  obtain ⟨middle, hread, hmiddle⟩ := ih hbehind (stops_closeParen _ _)
  obtain ⟨rest, hclose, rfl⟩ := behind?_of_tokens hmiddle
  refine ⟨rest, ?_, rfl⟩
  rw [reading_operand]
  simp only [hread, hclose]
  rfl

/-- A prefix and a code are always followed by an offset: there are no calls behind a prefix. -/
theorem isRead_qualified (qualifier code : String) (offset : OffsetForm) :
    (qualified qualifier code offset).IsRead stop := by
  intro ts after h stops
  obtain ⟨start, spelling, behind, rfl, hbehind⟩ := exists_lexeme h
  obtain ⟨start', spelling', middle, rfl, hmiddle⟩ := exists_lexeme hbehind
  show Returns (reading (operand stop _)) _ _
  rw [reading_operand]
  exact readReference_of_tokens offset hmiddle stops

/-- A name is taken as a reference unless a parenthesis follows, and none follows: the offset does
not begin with one, and where an operand stops none stands either. -/
theorem isRead_unqualified (code : String) (offset : OffsetForm) :
    (unqualified code offset).IsRead stop := by
  intro ts after h stops
  obtain ⟨start, spelling, behind, rfl, hbehind⟩ := exists_lexeme h
  have noCall := offset.behind?_openParen_eq_none hbehind stops
  show Returns (reading (operand stop _)) _ _
  rw [reading_operand]
  simp only [noCall]
  exact readReference_of_tokens offset hbehind stops

/-- A name with a parenthesis behind it is a call, and its arguments are read through the closing
one. -/
theorem isRead_call (function : String) {args : Derivation .arguments} (ih : args.IsRead stop) :
    (call function args).IsRead stop := by
  intro ts after h stops
  obtain ⟨start, spelling, behind, rfl, hbehind⟩ := exists_lexeme h
  obtain ⟨inner, hopen, hinner⟩ := behind?_of_tokens hbehind
  rw [List.append_eq, List.append_assoc, List.singleton_append] at hinner
  obtain ⟨rest, hread, rfl⟩ := ih hinner (stops_closeParen _ _) after rfl
  refine ⟨rest, ?_, rfl⟩
  rw [reading_operand]
  simp only [hopen, hread]
  rfl

/-- The parenthesis is closed at once. -/
theorem isRead_noArguments : noArguments.IsRead stop := by
  rintro ts row h stops after rfl
  obtain ⟨rest, hclose, rfl⟩ := behind?_of_tokens h
  refine ⟨rest, ?_, rfl⟩
  rw [reading_arguments, hclose]
  rfl

/-- A list of arguments must not be taken for the end of the arguments. -/
theorem isRead_someArguments {list : Derivation .argumentList} (ih : list.IsRead stop) :
    (someArguments list).IsRead stop := by
  rintro ts row h stops after rfl
  rw [tokens] at h
  -- The list begins with an operand, and no operand begins with a closing parenthesis.
  have notClosed : behind? .closeParen ts = none := by
    obtain ⟨t, row, first, opens⟩ := list.exists_first rfl
    rw [behind?_eq_none_iff, h, first]
    intro same
    obtain rfl : t = .closeParen := Option.some.inj same
    exact nomatch opens
  obtain ⟨rest, hread, rfl⟩ := ih h stops after rfl
  refine ⟨rest, ?_, rfl⟩
  rw [reading_arguments, notClosed]
  exact hread

/-- The last argument is the one with the closing parenthesis behind it. -/
theorem isRead_lastArgument {only : Derivation .comparison} (ih : only.IsRead stop) :
    (lastArgument only).IsRead stop := by
  rintro ts row h stops after rfl
  obtain ⟨middle, hread, hmiddle⟩ := ih h (stops_closeParen _ _)
  obtain ⟨rest, hclose, rfl⟩ := behind?_of_tokens hmiddle
  have noComma : behind? .comma middle = none := by
    rw [behind?_eq_none_iff, hmiddle]
    exact nofun
  refine ⟨rest, ?_, rfl⟩
  rw [reading_argumentList, hread]
  simp only [noComma, hclose]
  rfl

/-- The comma ends an argument as the closing parenthesis does, and the rest of the list is read
behind it. -/
theorem isRead_moreArguments {first : Derivation .comparison} {list : Derivation .argumentList}
    (ihFirst : first.IsRead stop) (ihList : list.IsRead stop) :
    (moreArguments first list).IsRead stop := by
  rintro ts row h stops after rfl
  rw [tokens, List.append_assoc, List.cons_append] at h
  obtain ⟨middle, hread, hmiddle⟩ := ihFirst h (stops_comma _)
  obtain ⟨behind, hcomma, hbehind⟩ := behind?_of_tokens hmiddle
  obtain ⟨rest, hlist, rfl⟩ := ihList hbehind stops after rfl
  refine ⟨rest, ?_, rfl⟩
  rw [reading_argumentList, hread]
  simp only [hcomma, hlist]
  rfl

/-- Every derivation is read by the reader of its category. -/
theorem isRead (stop : Nat) {c : Category} (d : Derivation c) : d.IsRead stop := by
  induction d with
  | uncompared only ih => exact isRead_uncompared ih
  | compared op loose left right ihLeft ihRight => exact isRead_compared op loose ihLeft ihRight
  | sum first tail ihFirst ihTail => exact isRead_sum ihFirst ihTail
  | sumEnd => exact isRead_sumEnd
  | sumMore op additive next tail ihNext ihTail => exact isRead_sumMore op additive ihNext ihTail
  | product first tail ihFirst ihTail => exact isRead_product ihFirst ihTail
  | productEnd => exact isRead_productEnd
  | productMore op multiplicative next tail ihNext ihTail =>
      exact isRead_productMore op multiplicative ihNext ihTail
  | unraised only ih => exact isRead_unraised ih
  | raised base exponent ihBase ihExponent => exact isRead_raised ihBase ihExponent
  | signed op operand ih => exact isRead_signed op ih
  | numeral n => exact isRead_numeral n
  | text s => exact isRead_text s
  | parenthesized inner ih => exact isRead_parenthesized ih
  | qualified qualifier code offset => exact isRead_qualified qualifier code offset
  | unqualified code offset => exact isRead_unqualified code offset
  | call function args ih => exact isRead_call function ih
  | noArguments => exact isRead_noArguments
  | someArguments list ih => exact isRead_someArguments ih
  | lastArgument only ih => exact isRead_lastArgument ih
  | moreArguments first list ihFirst ihList => exact isRead_moreArguments ihFirst ihList

end Derivation

end Rollforward.Formula
