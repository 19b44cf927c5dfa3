import Mathlib
import Rollforward.Formula.Scan
import Rollforward.Proofs.Formula.Completeness
import Rollforward.Proofs.Formula.Parse

/-!
# `Rollforward.Proofs.Formula.Scan`: the scan finds the references of the tree

The scan walks over the tokens and never looks at the nesting. The proof compares it with a
derivation instead of with the parser. `Derivation.isScanned` goes through the productions: over the
tokens of a derivation the scan adds exactly `Derivation.references`, the references in the order of
their tokens. `references_value` says that these are also the references of what the derivation
builds, in the order of evaluation.

`scanReferences_of_parse` puts the two together. A formula that is parsed is scanned without an
error, and the scan gives the very list `Expr.references`, repetitions included.
-/

set_option autoImplicit false

namespace Rollforward.Formula

/-! ### The references of a derivation -/

namespace Derivation

/-- The references among the tokens of a derivation, in the order of the tokens. -/
def references {c : Category} : Derivation c → List Reference
  | .uncompared only => only.references
  | .compared _ _ left right => left.references ++ right.references
  | .sum first rest => first.references ++ rest.references
  | .sumEnd => []
  | .sumMore _ _ next rest => next.references ++ rest.references
  | .product first rest => first.references ++ rest.references
  | .productEnd => []
  | .productMore _ _ next rest => next.references ++ rest.references
  | .unraised only => only.references
  | .raised base exponent => base.references ++ exponent.references
  | .signed _ operand => operand.references
  | .numeral _ => []
  | .text _ => []
  | .parenthesized inner => inner.references
  | .qualified qualifier code offset => [⟨some (.ofName qualifier), code, offset.value⟩]
  | .unqualified code offset => [⟨none, code, offset.value⟩]
  | .call _ args => args.references
  | .noArguments => []
  | .someArguments list => list.references
  | .lastArgument only => only.references
  | .moreArguments first rest => first.references ++ rest.references

/-- What `references` says of the value of each category. A tail adds its references to those of
what stands before it. -/
def Reads {c : Category} (rs : List Reference) : c.Value → Prop :=
  match c with
  | .sumTail | .productTail =>
    fun f => ∀ before : Expr, (f before).references = before.references ++ rs
  | .arguments | .argumentList => fun es => Expr.referencesOfAll es = rs
  | .comparison | .sum | .product | .power | .operand => fun e => e.references = rs

/-- What a derivation builds has the references of its tokens, in the same order. -/
theorem references_value {c : Category} (d : Derivation c) : Reads d.references d.value := by
  induction d with
  | uncompared only ih => exact ih
  | compared op loose left right ihLeft ihRight =>
      show left.value.references ++ right.value.references = _
      rw [ihLeft, ihRight]
      rfl
  | sum first rest ihFirst ihRest =>
      show (rest.value first.value).references = _
      rw [ihRest, ihFirst]
      rfl
  -- A tail that is empty adds nothing to whatever stands before it.
  | sumEnd =>
      intro before
      exact (List.append_nil _).symm
  | sumMore op additive next rest ihNext ihRest =>
      intro before
      show (rest.value (.binary op before next.value)).references = _
      rw [ihRest]
      show (before.references ++ next.value.references) ++ rest.references = _
      rw [ihNext, List.append_assoc]
      rfl
  | product first rest ihFirst ihRest =>
      show (rest.value first.value).references = _
      rw [ihRest, ihFirst]
      rfl
  | productEnd =>
      intro before
      exact (List.append_nil _).symm
  | productMore op multiplicative next rest ihNext ihRest =>
      intro before
      show (rest.value (.binary op before next.value)).references = _
      rw [ihRest]
      show (before.references ++ next.value.references) ++ rest.references = _
      rw [ihNext, List.append_assoc]
      rfl
  | unraised only ih => exact ih
  | raised base exponent ihBase ihExponent =>
      show base.value.references ++ exponent.value.references = _
      rw [ihBase, ihExponent]
      rfl
  | signed op operand ih => exact ih
  | numeral n => rfl
  | text s => rfl
  | parenthesized inner ih => exact ih
  | qualified qualifier code offset => rfl
  | unqualified code offset => rfl
  | call function args ih => exact ih
  | noArguments => rfl
  | someArguments list ih => exact ih
  | lastArgument only ih =>
      show only.value.references ++ [] = _
      rw [ih, List.append_nil]
      rfl
  | moreArguments first rest ihFirst ihRest =>
      show first.value.references ++ Expr.referencesOfAll rest.value = _
      rw [ihFirst, ihRest]
      rfl

end Derivation

/-! ### The steps of the scan -/

variable {stop : Nat}

/-- Over the tokens of `ts` before `rest` the scan adds the references `rs`. -/
def Scans (stop : Nat) (ts : List Lexeme) (rs : List Reference) (rest : List Lexeme) : Prop :=
  scanReferences stop ts = (scanReferences stop rest).map (rs ++ ·)

/-- Over no tokens nothing is found. -/
theorem Scans.refl (ts : List Lexeme) : Scans stop ts [] ts := by
  unfold Scans
  cases scanReferences stop ts <;> rfl

/-- Stretches of tokens that follow one another add their references up, which is how the
productions are put together. -/
theorem Scans.trans {ts middle rest : List Lexeme} {rs rs' : List Reference}
    (h : Scans stop ts rs middle) (h' : Scans stop middle rs' rest) :
    Scans stop ts (rs ++ rs') rest := by
  unfold Scans at *
  rw [h, h']
  cases scanReferences stop rest with
  | error e => rfl
  | ok found => exact congrArg Except.ok (List.append_assoc rs rs' found).symm

/-- Whether a token can take part in a reference. -/
def Token.isWord : Token → Bool
  | .name _ | .qualifier _ => true
  | _ => false

/-- The scan passes over operators. -/
theorem BinaryOp.isWord_token (op : BinaryOp) : op.token.isWord = false := by
  cases op <;> rfl

/-- And over signs. -/
theorem UnaryOp.isWord_token (op : UnaryOp) : op.token.isWord = false := by
  cases op <;> rfl

/-- The scan passes over a token that takes no part in references. -/
theorem scan_other {t : Token} (other : t.isWord = false) {ts : List Lexeme} {row : List Token}
    (h : ts.map Lexeme.token = t :: row) :
    ∃ rest, Scans stop ts [] rest ∧ rest.map Lexeme.token = row := by
  obtain ⟨start, spelling, rest, rfl, hrest⟩ := exists_lexeme h
  refine ⟨rest, ?_, hrest⟩
  show scanReferences stop _ = _
  rw [scanReferences.eq_def]
  cases t with
  | name s => exact nomatch other
  | qualifier s => exact nomatch other
  | _ => exact Scans.refl rest

/-- The scan passes over the name of a function and its parenthesis. -/
theorem scans_function (function : String) (start start' : Nat) (spelling spelling' : List Char)
    (rest : List Lexeme) :
    Scans stop (⟨.name function, start, spelling⟩ :: ⟨.openParen, start', spelling'⟩ :: rest) []
      rest := by
  show scanReferences stop _ = _
  rw [scanReferences.eq_def]
  exact Scans.refl rest

/-- The scan reads a prefix, a code and its offset as one reference. -/
theorem scans_qualified {code : String} {after behind : List Lexeme} {o : Int}
    (h : readOffset stop after = .ok (o, behind)) (q : String) (start start' : Nat)
    (spelling spelling' : List Char) :
    Scans stop (⟨.qualifier q, start, spelling⟩ :: ⟨.name code, start', spelling'⟩ :: after)
      [⟨some (.ofName q), code, o⟩] behind := by
  show scanReferences stop _ = _
  rw [scanReferences.eq_def]
  simp only
  split
  · next e failed =>
      rw [h] at failed
      cases failed
  · next offset behind' read =>
      obtain ⟨rfl, rfl⟩ : offset = o ∧ behind' = behind := by simpa [h, eq_comm] using read
      cases scanReferences stop behind' <;> rfl

/-- The scan reads a name and its offset as one reference, unless a parenthesis opens behind it. -/
theorem scans_unqualified {code : String} {after behind : List Lexeme} {o : Int}
    (h : readOffset stop after = .ok (o, behind)) (noCall : behind? .openParen after = none)
    (start : Nat) (spelling : List Char) :
    Scans stop (⟨.name code, start, spelling⟩ :: after) [⟨none, code, o⟩] behind := by
  show scanReferences stop _ = _
  rw [scanReferences.eq_def]
  split
  · next found => cases found
  · next found => cases found
  · next found =>
      obtain ⟨-, rfl⟩ := List.cons.inj found
      simp [behind?] at noCall
  · next code' start' spelling' rest noParen found =>
      obtain ⟨same, rfl⟩ := List.cons.inj found
      obtain rfl : code = code' := by simpa using congrArg Lexeme.token same
      split
      · next e failed =>
          rw [h] at failed
          cases failed
      · next offset behind' read =>
          obtain ⟨rfl, rfl⟩ : offset = o ∧ behind' = behind := by simpa [h, eq_comm] using read
          cases scanReferences stop behind' <;> rfl
  · next l rest notQualifier notCall notName found =>
      obtain ⟨same, rfl⟩ := List.cons.inj found
      exact absurd same.symm (notName _ _ _)

/-! ### The productions -/

namespace Derivation

/-- Wherever the tokens of the derivation stand and its category stops, the scan adds the references
of the derivation and goes on behind it. -/
def IsScanned (stop : Nat) {c : Category} (d : Derivation c) : Prop :=
  ∀ ⦃ts : List Lexeme⦄ ⦃after : List Token⦄, ts.map Lexeme.token = d.tokens ++ after →
    Stops c after → ∃ rest, Scans stop ts d.references rest ∧ rest.map Lexeme.token = after

/-- A sum alone. -/
theorem isScanned_uncompared {only : Derivation .sum} (ih : only.IsScanned stop) :
    (uncompared only).IsScanned stop := by
  intro ts after h stops
  exact ih h (stops.mono (by decide) rfl rfl)

/-- Two sums with a comparator between them, which adds nothing. -/
theorem isScanned_compared (op : BinaryOp) (loose : op.tightness = .comparison)
    {left right : Derivation .sum} (ihLeft : left.IsScanned stop)
    (ihRight : right.IsScanned stop) : (compared op loose left right).IsScanned stop := by
  intro ts after h stops
  rw [tokens, List.append_assoc, List.cons_append] at h
  obtain ⟨middle, hleft, hmiddle⟩ := ihLeft h (stops_operation rfl op (by rw [loose]; decide) _)
  obtain ⟨behind, hop, hbehind⟩ := scan_other op.isWord_token hmiddle
  obtain ⟨rest, hright, hrest⟩ := ihRight hbehind (stops.mono (by decide) rfl rfl)
  exact ⟨rest, hleft.trans (hop.trans hright), hrest⟩

/-- The scan does not know where the product ends and the tail begins. It need not, since it goes
over both. -/
theorem isScanned_sum {first : Derivation .product} {tail : Derivation .sumTail}
    (ihFirst : first.IsScanned stop) (ihTail : tail.IsScanned stop) :
    (sum first tail).IsScanned stop := by
  intro ts after h stops
  rw [tokens, List.append_assoc] at h
  have stops : Stops .sumTail after := stops.mono (by decide) rfl rfl
  obtain ⟨middle, hfirst, hmiddle⟩ := ihFirst h (stops.of_sumTail tail)
  obtain ⟨rest, htail, hrest⟩ := ihTail hmiddle stops
  exact ⟨rest, hfirst.trans htail, hrest⟩

/-- One round of a sum: an operator, a product and the rest. -/
theorem isScanned_sumMore (op : BinaryOp) (additive : op.tightness = .additive)
    {next : Derivation .product} {tail : Derivation .sumTail} (ihNext : next.IsScanned stop)
    (ihTail : tail.IsScanned stop) : (sumMore op additive next tail).IsScanned stop := by
  intro ts after h stops
  rw [tokens, List.cons_append, List.append_assoc] at h
  obtain ⟨behind, hop, hbehind⟩ := scan_other op.isWord_token h
  obtain ⟨middle, hnext, hmiddle⟩ := ihNext hbehind (stops.of_sumTail tail)
  obtain ⟨rest, htail, hrest⟩ := ihTail hmiddle stops
  exact ⟨rest, hop.trans (hnext.trans htail), hrest⟩

/-- The same one level below. -/
theorem isScanned_product {first : Derivation .power} {tail : Derivation .productTail}
    (ihFirst : first.IsScanned stop) (ihTail : tail.IsScanned stop) :
    (product first tail).IsScanned stop := by
  intro ts after h stops
  rw [tokens, List.append_assoc] at h
  have stops : Stops .productTail after := stops.mono (by decide) rfl rfl
  obtain ⟨middle, hfirst, hmiddle⟩ := ihFirst h (stops.of_productTail tail)
  obtain ⟨rest, htail, hrest⟩ := ihTail hmiddle stops
  exact ⟨rest, hfirst.trans htail, hrest⟩

/-- One round of a product. -/
theorem isScanned_productMore (op : BinaryOp) (multiplicative : op.tightness = .multiplicative)
    {next : Derivation .power} {tail : Derivation .productTail} (ihNext : next.IsScanned stop)
    (ihTail : tail.IsScanned stop) :
    (productMore op multiplicative next tail).IsScanned stop := by
  intro ts after h stops
  rw [tokens, List.cons_append, List.append_assoc] at h
  obtain ⟨behind, hop, hbehind⟩ := scan_other op.isWord_token h
  obtain ⟨middle, hnext, hmiddle⟩ := ihNext hbehind (stops.of_productTail tail)
  obtain ⟨rest, htail, hrest⟩ := ihTail hmiddle stops
  exact ⟨rest, hop.trans (hnext.trans htail), hrest⟩

/-- An operand alone. -/
theorem isScanned_unraised {only : Derivation .operand} (ih : only.IsScanned stop) :
    (unraised only).IsScanned stop := by
  intro ts after h stops
  exact ih h (stops.mono (by decide) rfl rfl)

/-- The base, then the exponent. -/
theorem isScanned_raised {base : Derivation .operand} {exponent : Derivation .power}
    (ihBase : base.IsScanned stop) (ihExponent : exponent.IsScanned stop) :
    (raised base exponent).IsScanned stop := by
  intro ts after h stops
  rw [tokens, List.append_assoc, List.cons_append] at h
  obtain ⟨middle, hbase, hmiddle⟩ := ihBase h (stops_operation rfl .pow (by decide) _)
  obtain ⟨behind, hcaret, hbehind⟩ := scan_other rfl hmiddle
  obtain ⟨rest, hexponent, hrest⟩ := ihExponent hbehind stops
  exact ⟨rest, hbase.trans (hcaret.trans hexponent), hrest⟩

/-- A sign adds nothing to the references of its operand. -/
theorem isScanned_signed (op : UnaryOp) {operand : Derivation .operand}
    (ih : operand.IsScanned stop) : (signed op operand).IsScanned stop := by
  intro ts after h stops
  rw [tokens, List.cons_append] at h
  obtain ⟨behind, hop, hbehind⟩ := scan_other op.isWord_token h
  obtain ⟨rest, hoperand, hrest⟩ := ih hbehind stops
  exact ⟨rest, hop.trans hoperand, hrest⟩

/-- Nor do parentheses. -/
theorem isScanned_parenthesized {inner : Derivation .comparison} (ih : inner.IsScanned stop) :
    (parenthesized inner).IsScanned stop := by
  intro ts after h stops
  rw [tokens, List.cons_append, List.append_assoc, List.singleton_append] at h
  obtain ⟨behind, hopen, hbehind⟩ := scan_other rfl h
  obtain ⟨middle, hinner, hmiddle⟩ := ih hbehind (stops_closeParen _ _)
  obtain ⟨rest, hclose, hrest⟩ := scan_other rfl hmiddle
  refine ⟨rest, ?_, hrest⟩
  have all := hopen.trans (hinner.trans hclose)
  rwa [List.append_nil] at all

/-- Here the scan and the parser read the same offset, each with the same reader. -/
theorem isScanned_qualified (qualifier code : String) (offset : OffsetForm) :
    (qualified qualifier code offset).IsScanned stop := by
  intro ts after h stops
  obtain ⟨start, spelling, middle, rfl, hmiddle⟩ := exists_lexeme h
  obtain ⟨start', spelling', behind, rfl, hbehind⟩ := exists_lexeme hmiddle
  obtain ⟨rest, hoffset, hrest⟩ := readOffset_of_tokens stop offset hbehind stops
  exact ⟨rest, scans_qualified hoffset _ _ _ _ _, hrest⟩

/-- A name is a reference for the scan as well, unless a parenthesis follows, and none does. -/
theorem isScanned_unqualified (code : String) (offset : OffsetForm) :
    (unqualified code offset).IsScanned stop := by
  intro ts after h stops
  obtain ⟨start, spelling, behind, rfl, hbehind⟩ := exists_lexeme h
  -- A parenthesis behind the name would make the scan take it for a function.
  have noCall := offset.behind?_openParen_eq_none hbehind stops
  obtain ⟨rest, hoffset, hrest⟩ := readOffset_of_tokens stop offset hbehind stops
  exact ⟨rest, scans_unqualified hoffset noCall _ _, hrest⟩

/-- The name of a function with its parenthesis is passed over, and the arguments are scanned like
anything else. -/
theorem isScanned_call (function : String) {args : Derivation .arguments}
    (ih : args.IsScanned stop) : (call function args).IsScanned stop := by
  intro ts after h stops
  obtain ⟨start, spelling, middle, rfl, hmiddle⟩ := exists_lexeme h
  obtain ⟨start', spelling', behind, rfl, hbehind⟩ := exists_lexeme hmiddle
  rw [List.append_eq, List.append_assoc, List.singleton_append] at hbehind
  obtain ⟨close, hargs, hclose⟩ := ih hbehind (stops_closeParen _ _)
  obtain ⟨rest, hend, hrest⟩ := scan_other rfl hclose
  refine ⟨rest, ?_, hrest⟩
  have all := (scans_function function start start' spelling spelling' behind).trans
    (hargs.trans hend)
  rwa [List.append_nil] at all

/-- Arguments with a comma between them. -/
theorem isScanned_moreArguments {first : Derivation .comparison} {list : Derivation .argumentList}
    (ihFirst : first.IsScanned stop) (ihList : list.IsScanned stop) :
    (moreArguments first list).IsScanned stop := by
  intro ts after h stops
  rw [tokens, List.append_assoc, List.cons_append] at h
  obtain ⟨middle, hfirst, hmiddle⟩ := ihFirst h (stops_comma _)
  obtain ⟨behind, hcomma, hbehind⟩ := scan_other rfl hmiddle
  obtain ⟨rest, hlist, hrest⟩ := ihList hbehind stops
  exact ⟨rest, hfirst.trans (hcomma.trans hlist), hrest⟩

/-- The scan walks over every derivation. -/
theorem isScanned (stop : Nat) {c : Category} (d : Derivation c) : d.IsScanned stop := by
  induction d with
  | uncompared only ih => exact isScanned_uncompared ih
  | compared op loose left right ihLeft ihRight =>
      exact isScanned_compared op loose ihLeft ihRight
  | sum first tail ihFirst ihTail => exact isScanned_sum ihFirst ihTail
  | sumMore op additive next tail ihNext ihTail =>
      exact isScanned_sumMore op additive ihNext ihTail
  | product first tail ihFirst ihTail => exact isScanned_product ihFirst ihTail
  | productMore op multiplicative next tail ihNext ihTail =>
      exact isScanned_productMore op multiplicative ihNext ihTail
  | sumEnd | productEnd | noArguments => exact fun ts after h _ => ⟨ts, Scans.refl ts, h⟩
  | unraised only ih => exact isScanned_unraised ih
  | raised base exponent ihBase ihExponent => exact isScanned_raised ihBase ihExponent
  | signed op operand ih => exact isScanned_signed op ih
  | numeral n => exact fun ts after h _ => scan_other rfl h
  | text s => exact fun ts after h _ => scan_other rfl h
  | parenthesized inner ih => exact isScanned_parenthesized ih
  | qualified qualifier code offset => exact isScanned_qualified qualifier code offset
  | unqualified code offset => exact isScanned_unqualified code offset
  | call function args ih => exact isScanned_call function ih
  | someArguments list ih => exact fun ts after h stops => ih h stops
  | lastArgument only ih => exact fun ts after h stops => ih h stops.of_argumentList
  | moreArguments first list ihFirst ihList => exact isScanned_moreArguments ihFirst ihList

end Derivation

/-! ### Formula texts -/

/-- The tokens of a text that is parsed are scanned without an error. The scan gives the references
of the tree in the order of evaluation. -/
theorem scanReferences_of_parse {formula : String} {e : Expr} (h : parse formula = .ok e)
    (stop : Nat) :
    ∃ ts, tokenize formula = .ok ts ∧ scanReferences stop ts = .ok e.references := by
  obtain ⟨ts, hts, d, htokens, rfl⟩ := exists_derivation_of_parse h
  have whole : ts.map Lexeme.token = d.tokens ++ [] := by rw [htokens, List.append_nil]
  have hscan : Scans stop ts d.references [] := by
    obtain ⟨rest, hscan, hrest⟩ := d.isScanned stop whole trivial
    exact List.map_eq_nil_iff.1 hrest ▸ hscan
  refine ⟨ts, hts, ?_⟩
  rw [show scanReferences stop ts = _ from hscan, scanReferences]
  show Except.ok (d.references ++ []) = _
  rw [List.append_nil, show d.value.references = d.references from d.references_value]

/-- The references of a text that is parsed are those of its tree. -/
theorem referencesOf_of_parse {formula : String} {e : Expr} (h : parse formula = .ok e) :
    referencesOf formula = .ok (Collection.sortDistinct e.references) := by
  obtain ⟨ts, hts, hscan⟩ := scanReferences_of_parse h (byteLength formula.toList)
  unfold referencesOf
  rw [hts]
  simp only [hscan]

/-- What the scan lists of a text that is parsed is what occurs in its tree. -/
theorem mem_referencesOf_iff {formula : String} {e : Expr} {rs : List Reference}
    (parsed : parse formula = .ok e) (listed : referencesOf formula = .ok rs) {r : Reference} :
    r ∈ rs ↔ r ∈ e.references := by
  have same : rs = Collection.sortDistinct e.references :=
    Except.ok.inj (listed.symm.trans (referencesOf_of_parse parsed))
  rw [same, Collection.mem_sortDistinct]

/-- The dependencies of a text that is parsed are the codes without a namespace in its tree. -/
theorem dependenciesOf_of_parse {formula : String} {e : Expr} (h : parse formula = .ok e) :
    dependenciesOf formula = .ok (Collection.sortDistinct
      (((Collection.sortDistinct e.references).filter Reference.isUnqualified).map
        Reference.code)) := by
  unfold dependenciesOf
  rw [referencesOf_of_parse h]

/-- A text in which the scan fails is no formula. -/
theorem exists_parse_error {formula : String} {fault : SyntaxError}
    (h : referencesOf formula = .error fault) : ∃ fault', parse formula = .error fault' := by
  cases hparse : parse formula with
  | error fault' => exact ⟨fault', rfl⟩
  | ok e => exact nomatch h.symm.trans (referencesOf_of_parse hparse)

/-- The scan of a formula succeeds and lists, ascending and each once, the references that occur in
the tree; the codes that it lists are those of the references without a namespace. Where the scan
fails, the parser fails too. -/
theorem referencesOf_agrees_with_parse (formula : String) :
    (∀ e, parse formula = .ok e →
      (∃ rs, referencesOf formula = .ok rs ∧ rs.Pairwise (fun a b => compare a b = .lt) ∧
        ∀ r, r ∈ rs ↔ r ∈ e.references) ∧
      (∃ codes, dependenciesOf formula = .ok codes ∧
        codes.Pairwise (fun a b => compare a b = .lt) ∧
        ∀ code, code ∈ codes ↔ ∃ r ∈ e.references, r.source = none ∧ r.code = code)) ∧
    (∀ fault, referencesOf formula = .error fault ∨ dependenciesOf formula = .error fault →
      ∃ fault', parse formula = .error fault') := by
  constructor
  · intro e h
    constructor
    · exact ⟨_, referencesOf_of_parse h, Collection.pairwise_sortDistinct _,
        fun r => Collection.mem_sortDistinct⟩
    · refine ⟨_, dependenciesOf_of_parse h, Collection.pairwise_sortDistinct _, fun code => ?_⟩
      rw [Collection.mem_sortDistinct]
      simp [Collection.mem_sortDistinct, Reference.isUnqualified, and_assoc]
  · rintro fault (h | h)
    · exact exists_parse_error h
    · unfold dependenciesOf at h
      split at h
      · next fault' failed => exact exists_parse_error failed
      · exact nomatch h

set_option maxRecDepth 20000 in
/-- A prefixed reference at another time, and a plain one that the tree has twice. -/
theorem referencesOf_agrees_with_parse_loan :
    parse "A-pl:B[t-1]+MAX(A,'A')" = .ok
      (.binary .add
        (.binary .sub (.reference ⟨none, "A", 0⟩) (.reference ⟨some (.domain "pl"), "B", -1⟩))
        (.call "MAX" [.reference ⟨none, "A", 0⟩, .text "A"])) ∧
    ∃ rs, referencesOf "A-pl:B[t-1]+MAX(A,'A')" = .ok rs ∧
      ∀ r, r ∈ rs ↔ r ∈ [⟨none, "A", 0⟩, ⟨some (.domain "pl"), "B", -1⟩, ⟨none, "A", 0⟩] := by
  have h : parse "A-pl:B[t-1]+MAX(A,'A')" = .ok
      (.binary .add
        (.binary .sub (.reference ⟨none, "A", 0⟩) (.reference ⟨some (.domain "pl"), "B", -1⟩))
        (.call "MAX" [.reference ⟨none, "A", 0⟩, .text "A"])) := by cbv
  obtain ⟨⟨rs, found, -, same⟩, -⟩ := (referencesOf_agrees_with_parse _).1 _ h
  exact ⟨h, rs, found, same⟩

end Rollforward.Formula
