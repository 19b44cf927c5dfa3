import Rollforward.Proofs.Formula.Scan
import Rollforward.Proofs.Formula.Viable

/-!
# `Rollforward.Proofs.Formula.Alike`: places in a text have no say in what is read

A lexeme has a token and a place. The readers of the parser and the scan look at tokens; they use a
place only to say where a fault shows. So in front of rows with the same tokens they read the same
and leave the same tokens, or fail with the same fault (`ReadAlike`). There is a lemma for each way
to put readers together, and the readers follow from their equations in
`Rollforward.Proofs.Formula.Viable`.
-/

set_option autoImplicit false

namespace Rollforward.Formula

/-- The results are the same, or faults that differ at most in where they show. -/
inductive SameButPlace {α : Type} : Except SyntaxError α → Except SyntaxError α → Prop where
  | ok (value : α) : SameButPlace (.ok value) (.ok value)
  | error (fault : Fault) (place place' : Nat) :
    SameButPlace (.error ⟨fault, place⟩) (.error ⟨fault, place'⟩)

/-- What is read is the same and what is left has the same tokens, or the fault is the same. -/
inductive ReadAlike {α : Type} : Except SyntaxError (α × List Lexeme) →
    Except SyntaxError (α × List Lexeme) → Prop where
  | ok (value : α) {rest rest' : List Lexeme}
    (tokens : rest'.map Lexeme.token = rest.map Lexeme.token) :
    ReadAlike (.ok (value, rest)) (.ok (value, rest'))
  | error (fault : Fault) (place place' : Nat) :
    ReadAlike (.error ⟨fault, place⟩) (.error ⟨fault, place'⟩)

/-- The second reader does in front of any row with the tokens of `ts` what the first does in front
of `ts`. -/
def Alike {α : Type} (r r' : Reader α) (ts : List Lexeme) : Prop :=
  ∀ ts', ts'.map Lexeme.token = ts.map Lexeme.token → ReadAlike (r ts) (r' ts')

section
variable {ts ts' : List Lexeme} (same : ts'.map Lexeme.token = ts.map Lexeme.token)

include same

/-- Whether a token stands in front can be seen from the tokens, and so can what is behind it. -/
theorem behind?_of_same_tokens (t : Token) :
    (behind? t ts = none ∧ behind? t ts' = none) ∨
      ∃ behind behind', behind? t ts = some behind ∧ behind? t ts' = some behind' ∧
        behind'.map Lexeme.token = behind.map Lexeme.token := by
  cases ts with
  | nil =>
      obtain rfl : ts' = [] := List.map_eq_nil_iff.1 same
      exact Or.inl ⟨rfl, rfl⟩
  | cons l ts =>
      obtain ⟨start, spelling, rest, rfl, tokens⟩ := exists_lexeme same
      by_cases here : l.token = t
      · exact Or.inr ⟨ts, rest, if_pos here, if_pos here, tokens⟩
      · exact Or.inl ⟨if_neg here, if_neg here⟩

/-- The same for an operator of the level that is asked for. -/
theorem operator?_of_same_tokens (meaning : Token → Option BinaryOp) :
    (operator? meaning ts = none ∧ operator? meaning ts' = none) ∨
      ∃ op behind behind', operator? meaning ts = some (op, behind) ∧
        operator? meaning ts' = some (op, behind') ∧
          behind'.map Lexeme.token = behind.map Lexeme.token := by
  cases ts with
  | nil =>
      obtain rfl : ts' = [] := List.map_eq_nil_iff.1 same
      exact Or.inl ⟨rfl, rfl⟩
  | cons l ts =>
      obtain ⟨start, spelling, rest, rfl, tokens⟩ := exists_lexeme same
      simp only [operator?]
      cases meaning l.token with
      | none => exact Or.inl ⟨rfl, rfl⟩
      | some op => exact Or.inr ⟨op, ts, rest, rfl, rfl, tokens⟩

end

/-! ### Readers, put together -/

namespace Alike

variable {α β : Type} {stop stop' : Nat} {ts : List Lexeme}

/-- A reader that takes nothing. -/
theorem done (value : α) : Alike (.done value) (.done value) ts :=
  fun _ same => .ok value same

/-- A token that has to follow. Where it is missing the two faults show in different places, and
this is all they differ in. -/
theorem expect (t : Token) (fault : Fault) (value : α) :
    Alike (.expect stop t fault value) (.expect stop' t fault value) ts := by
  intro ts' same
  simp only [Reader.expect]
  obtain ⟨found, found'⟩ | ⟨behind, behind', found, found', tokens⟩ :=
    behind?_of_same_tokens same t
  · rw [found, found']
    exact .error fault _ _
  · rw [found, found']
    exact .ok value tokens

/-- Two readers in a row. The second needs to be alike only behind what the first has read, so a
caller may use that the row there is shorter. -/
theorem andThen {r r' : Reader α} {next next' : α → Reader β} (first : Alike r r' ts)
    (second : ∀ {value after}, r ts = .ok (value, after) →
      Alike (next value) (next' value) after) :
    Alike (r.andThen next) (r'.andThen next') ts := by
  intro ts' same
  have answers := first ts' same
  simp only [Reader.andThen]
  generalize answer : r ts = read at answers
  generalize r' ts' = read' at answers
  cases answers with
  | ok value tokens => exact second answer _ tokens
  | error fault place place' => exact .error fault place place'

/-- A change of the result. -/
theorem map {r r' : Reader α} (f : α → β) (h : Alike r r' ts) :
    Alike (r.andThen fun value => .done (f value)) (r'.andThen fun value => .done (f value)) ts :=
  h.andThen fun _ => done _

/-- A token that may follow, with what is read in either case. -/
theorem ifBehind {t : Token} {present present' absent absent' : Reader α}
    (missing : behind? t ts = none → Alike absent absent' ts)
    (there : ∀ {behind}, behind? t ts = some behind → Alike present present' behind) :
    Alike (.ifBehind t present absent) (.ifBehind t present' absent') ts := by
  intro ts' same
  simp only [Reader.ifBehind]
  obtain ⟨found, found'⟩ | ⟨behind, behind', found, found', tokens⟩ :=
    behind?_of_same_tokens same t
  · rw [found, found']
    exact missing found ts' same
  · rw [found, found']
    exact there found behind' tokens

/-- An operator that may follow. When there is none, the value from before is the result. -/
theorem ifOperator {meaning : Token → Option BinaryOp} (value : α)
    {present present' : BinaryOp → Reader α}
    (there : ∀ {op behind}, operator? meaning ts = some (op, behind) →
      Alike (present op) (present' op) behind) :
    Alike (.ifOperator meaning present (.done value)) (.ifOperator meaning present' (.done value))
      ts := by
  intro ts' same
  simp only [Reader.ifOperator]
  obtain ⟨found, found'⟩ | ⟨op, behind, behind', found, found', tokens⟩ :=
    operator?_of_same_tokens same meaning
  · rw [found, found']
    exact .ok value same
  · rw [found, found']
    exact there found behind' tokens

/-- A first token that is looked at. -/
theorem cons {r r' : Reader α} {first : Lexeme} {behind : List Lexeme}
    (h : ∀ start spelling, Alike (fun us => r (first :: us))
      (fun us => r' (⟨first.token, start, spelling⟩ :: us)) behind) :
    Alike r r' (first :: behind) := by
  intro ts' same
  obtain ⟨start, spelling, rest, rfl, tokens⟩ := exists_lexeme same
  exact h start spelling rest tokens

/-- Readers that are known under another form. -/
theorem congr {r r' s s' : Reader α} (h : Alike s s' ts) (first : r = s) (second : r' = s') :
    Alike r r' ts := by
  rwa [first, second]

/-- A row without tokens has only itself to be alike with. -/
theorem nil {r r' : Reader α} (h : ReadAlike (r []) (r' [])) : Alike r r' [] := by
  intro ts' same
  obtain rfl : ts' = [] := List.map_eq_nil_iff.1 same
  exact h

/-- Readers that fail at once and with the same fault, wherever it shows. -/
theorem failing {r r' : Reader α} (fault : Fault)
    (h : ∀ us, ∃ place, r us = .error ⟨fault, place⟩)
    (h' : ∀ us, ∃ place, r' us = .error ⟨fault, place⟩) : Alike r r' ts := by
  intro ts' _
  obtain ⟨place, failed⟩ := h ts
  obtain ⟨place', failed'⟩ := h' ts'
  rw [failed, failed']
  exact .error fault place place'

end Alike

/-! ### Offsets -/

section
variable {stop stop' : Nat} {ts : List Lexeme}

/-- The magnitude and the closing bracket. Each token is looked at in turn, so the rows are taken
apart as the reader does it. -/
theorem alike_readMagnitude (sign : Int) :
    Alike (readShift.readMagnitude stop sign) (readShift.readMagnitude stop' sign) ts := by
  cases ts with
  | nil => exact .nil (.error _ _ _)
  | cons number behind =>
      refine .cons fun start spelling => ?_
      simp only [readShift.readMagnitude]
      cases magnitude? number.token with
      | none => exact .failing .badOffset (fun _ => ⟨_, rfl⟩) (fun _ => ⟨_, rfl⟩)
      | some m =>
          cases behind with
          | nil => exact .nil (.error _ _ _)
          | cons bracket rest =>
              obtain ⟨token, start', spelling'⟩ := bracket
              refine .cons fun start'' spelling'' => ?_
              cases token with
              | closeBracket => exact .done (sign * (m : Int))
              | _ => exact .failing .unclosedOffset (fun _ => ⟨_, rfl⟩) (fun _ => ⟨_, rfl⟩)

/-- What stands behind the time variable. -/
theorem alike_readShift : Alike (readShift stop) (readShift stop') ts := by
  cases ts with
  | nil => exact .nil (.error _ _ _)
  | cons first behind =>
      obtain ⟨token, start, spelling⟩ := first
      refine .cons fun start' spelling' => ?_
      cases token with
      | closeBracket => exact .done 0
      | plus => exact alike_readMagnitude 1
      | minus => exact alike_readMagnitude (-1)
      | _ => exact .failing .unclosedOffset (fun _ => ⟨_, rfl⟩) (fun _ => ⟨_, rfl⟩)

/-- Offsets, the one part of the parser that is not put together from smaller readers. -/
theorem alike_readOffset : Alike (readOffset stop) (readOffset stop') ts := by
  cases ts with
  | nil => exact .nil (.ok 0 rfl)
  | cons first behind =>
      obtain ⟨token, start, spelling⟩ := first
      cases token with
      | openBracket =>
          refine .cons fun start' spelling' => ?_
          cases behind with
          | nil => exact .nil (.error _ _ _)
          | cons time rest =>
              obtain ⟨token, start, spelling⟩ := time
              refine .cons fun start' spelling' => ?_
              cases token with
              | name t =>
                  simp only [readOffset]
                  split
                  · exact alike_readShift
                  · exact .failing .badTimeVariable (fun _ => ⟨_, rfl⟩) (fun _ => ⟨_, rfl⟩)
              | _ => exact .failing .badTimeVariable (fun _ => ⟨_, rfl⟩) (fun _ => ⟨_, rfl⟩)
      | _ =>
          -- Without a bracket nothing is taken.
          intro ts' same
          obtain ⟨start', spelling', rest, rfl, tokens⟩ := exists_lexeme same
          exact .ok 0 same

/-- A reference is its offset with the code put before it. -/
theorem reading_readReference_eq_andThen (source : Option Namespace) (code : String) :
    (fun us => reading (readReference stop source code us)) =
      Reader.andThen (readOffset stop) fun offset => .done (.reference ⟨source, code, offset⟩) := by
  funext us
  rw [reading_readReference, Reader.andThen]
  cases readOffset stop us <;> rfl

/-- References: nothing but the offset is left to read. -/
theorem alike_readReference (source : Option Namespace) (code : String) :
    Alike (fun us => reading (readReference stop source code us))
      (fun us => reading (readReference stop' source code us)) ts := by
  rw [reading_readReference_eq_andThen, reading_readReference_eq_andThen]
  exact alike_readOffset.map _

/-! ### The parser -/

/-- Behind a prefix a code is looked for. -/
theorem alike_qualified (q : String) (start start' : Nat) (spelling spelling' : List Char)
    (behind : List Lexeme) :
    Alike (fun us => reading (operand stop (⟨.qualifier q, start, spelling⟩ :: us)))
      (fun us => reading (operand stop' (⟨.qualifier q, start', spelling'⟩ :: us))) behind := by
  cases behind with
  | nil =>
      refine .nil ?_
      rw [reading_operand, reading_operand]
      exact .error _ _ _
  | cons code behind =>
      obtain ⟨token, start'', spelling''⟩ := code
      refine .cons fun start₁ spelling₁ => ?_
      cases token with
      | name code =>
          have reference :
              Alike (fun us => reading (readReference stop (some (.ofName q)) code us))
                (fun us => reading (readReference stop' (some (.ofName q)) code us)) behind :=
            alike_readReference _ _
          refine reference.congr ?_ ?_
          · funext us
            rw [reading_operand]
          · funext us
            rw [reading_operand]
      | _ =>
          refine .failing (.missingCode q) (fun us => ⟨start'', ?_⟩) fun us => ⟨start₁, ?_⟩
          · rw [reading_operand]
          · rw [reading_operand]

mutual

/-- The readers, one for each category, each from its equation and the lemma for its form. The block
is that of `settles_comparison` and has its measure. -/
theorem alike_comparison (ts : List Lexeme) :
    Alike (fun us => reading (comparison stop us)) (fun us => reading (comparison stop' us))
      ts := by
  refine .congr ?_ reading_comparison_eq_andThen reading_comparison_eq_andThen
  refine (alike_sum ts).andThen ?_
  intro left after hleft
  have shorter := length_lt_of_reading hleft
  refine .ifOperator left ?_
  intro op behind found
  have fewer := length_lt_of_operator? found
  exact (alike_sum behind).map _
termination_by 8 * ts.length + 5

/-- Sums, from products and the loop. -/
theorem alike_sum (ts : List Lexeme) :
    Alike (fun us => reading (sum stop us)) (fun us => reading (sum stop' us)) ts := by
  refine .congr ?_ reading_sum_eq_andThen reading_sum_eq_andThen
  refine (alike_product ts).andThen ?_
  intro left after hleft
  have shorter := length_lt_of_reading hleft
  exact alike_sumFrom left after
termination_by 8 * ts.length + 4

/-- The loop over sums, with the same expression on the left in both texts. -/
theorem alike_sumFrom (left : Expr) (ts : List Lexeme) :
    Alike (fun us => reading (sumFrom stop left us)) (fun us => reading (sumFrom stop' left us))
      ts := by
  refine .congr ?_ (reading_sumFrom_eq_ifOperator left) (reading_sumFrom_eq_ifOperator left)
  refine .ifOperator left ?_
  intro op behind found
  have fewer := length_lt_of_operator? found
  refine (alike_product behind).andThen ?_
  intro right after hright
  have shorter := length_lt_of_reading hright
  exact alike_sumFrom (.binary op left right) after
termination_by 8 * ts.length + 4

/-- Products, from powers and the loop. -/
theorem alike_product (ts : List Lexeme) :
    Alike (fun us => reading (product stop us)) (fun us => reading (product stop' us)) ts := by
  refine .congr ?_ reading_product_eq_andThen reading_product_eq_andThen
  refine (alike_power ts).andThen ?_
  intro left after hleft
  have shorter := length_lt_of_reading hleft
  exact alike_productFrom left after
termination_by 8 * ts.length + 3

/-- The loop over products. -/
theorem alike_productFrom (left : Expr) (ts : List Lexeme) :
    Alike (fun us => reading (productFrom stop left us))
      (fun us => reading (productFrom stop' left us)) ts := by
  refine .congr ?_ (reading_productFrom_eq_ifOperator left) (reading_productFrom_eq_ifOperator left)
  refine .ifOperator left ?_
  intro op behind found
  have fewer := length_lt_of_operator? found
  refine (alike_power behind).andThen ?_
  intro right after hright
  have shorter := length_lt_of_reading hright
  exact alike_productFrom (.binary op left right) after
termination_by 8 * ts.length + 3

/-- Powers, from operands and the power behind a caret. -/
theorem alike_power (ts : List Lexeme) :
    Alike (fun us => reading (power stop us)) (fun us => reading (power stop' us)) ts := by
  refine .congr ?_ reading_power_eq_andThen reading_power_eq_andThen
  refine (alike_operand ts).andThen ?_
  intro base after hbase
  have shorter := length_lt_of_reading hbase
  refine .ifBehind (fun _ => .done base) ?_
  intro behind found
  have fewer := length_lt_of_behind? found
  exact (alike_power behind).map _
termination_by 8 * ts.length + 2

/-- Operands. The first tokens are equal, so both rows are in the same case. -/
theorem alike_operand (ts : List Lexeme) :
    Alike (fun us => reading (operand stop us)) (fun us => reading (operand stop' us)) ts := by
  cases ts with
  | nil =>
      refine .nil ?_
      rw [reading_operand, reading_operand]
      exact .error _ _ _
  | cons first behind =>
      obtain ⟨token, start, spelling⟩ := first
      refine .cons fun start' spelling' => ?_
      cases token with
      | minus =>
          have signed := (alike_operand behind).map (Expr.unary .negate)
          rwa [← reading_signed_eq_andThen .negate start spelling,
            ← reading_signed_eq_andThen .negate start' spelling'] at signed
      | plus =>
          have signed := (alike_operand behind).map (Expr.unary .plus)
          rwa [← reading_signed_eq_andThen .plus start spelling,
            ← reading_signed_eq_andThen .plus start' spelling'] at signed
      | openParen =>
          rw [reading_parenthesized_eq_andThen, reading_parenthesized_eq_andThen]
          refine (alike_comparison behind).andThen ?_
          intro e after _
          exact .expect .closeParen .unclosedParenthesis e
      | qualifier q => exact alike_qualified q start start' spelling spelling' behind
      | name name =>
          rw [reading_named_eq_ifBehind, reading_named_eq_ifBehind]
          refine .ifBehind (fun _ => alike_readReference none name) ?_
          intro inner opened
          have fewer := length_lt_of_behind? opened
          exact (alike_arguments inner).map _
      | numeral n =>
          refine (Alike.done (.number n.toFloat)).congr ?_ ?_
          · funext us
            rw [reading_operand]
            rfl
          · funext us
            rw [reading_operand]
            rfl
      | text s =>
          refine (Alike.done (.text s)).congr ?_ ?_
          · funext us
            rw [reading_operand]
            rfl
          · funext us
            rw [reading_operand]
            rfl
      | _ =>
          refine .failing .unexpectedToken (fun us => ⟨start, ?_⟩) fun us => ⟨start', ?_⟩
          · rw [reading_operand]
          · rw [reading_operand]
termination_by 8 * ts.length + 1

/-- The arguments of a call. -/
theorem alike_arguments (ts : List Lexeme) :
    Alike (fun us => reading (arguments stop us)) (fun us => reading (arguments stop' us)) ts := by
  refine .congr ?_ reading_arguments_eq_ifBehind reading_arguments_eq_ifBehind
  exact .ifBehind (fun _ => alike_argumentList ts) fun _ => .done []
termination_by 8 * ts.length + 7

/-- A list of arguments, from its first and those behind a comma. -/
theorem alike_argumentList (ts : List Lexeme) :
    Alike (fun us => reading (argumentList stop us)) (fun us => reading (argumentList stop' us))
      ts := by
  refine .congr ?_ reading_argumentList_eq_andThen reading_argumentList_eq_andThen
  refine (alike_comparison ts).andThen ?_
  intro e after hfirst
  have shorter := length_lt_of_reading hfirst
  refine .ifBehind (fun _ => .expect .closeParen .unclosedArguments [e]) ?_
  intro behind found
  have fewer := length_lt_of_behind? found
  exact (alike_argumentList behind).map _
termination_by 8 * ts.length + 6

end

/-- Rows with the same tokens are parsed alike. -/
theorem parseLexemes_sameButPlace {ts' : List Lexeme}
    (same : ts'.map Lexeme.token = ts.map Lexeme.token) :
    SameButPlace (parseLexemes stop ts) (parseLexemes stop' ts') := by
  have empty : ts'.isEmpty = ts.isEmpty := by
    have lengths := congrArg List.length same
    rw [List.length_map, List.length_map] at lengths
    rw [Bool.eq_iff_iff, List.isEmpty_iff_length_eq_zero, List.isEmpty_iff_length_eq_zero, lengths]
  rw [parseLexemes_eq, parseLexemes_eq, empty]
  split
  · exact .error _ _ _
  have answers : ReadAlike (reading (comparison stop ts)) (reading (comparison stop' ts')) :=
    alike_comparison ts ts' same
  generalize reading (comparison stop ts) = read at answers
  generalize reading (comparison stop' ts') = read' at answers
  cases answers with
  | error fault place place' => exact .error fault place place'
  | @ok value rest rest' tokens =>
      cases rest with
      | nil =>
          obtain rfl : rest' = [] := List.map_eq_nil_iff.1 tokens
          exact .ok value
      | cons l rest =>
          obtain ⟨start, spelling, rest', rfl, -⟩ := exists_lexeme tokens
          exact .error .trailingInput _ _

/-! ### The scan -/

/-- The scan behind the tokens of `ts` when an offset is read there, with one more reference. -/
def scanBehindOffset (stop : Nat) (reference : Int → Reference) (ts : List Lexeme) :
    Except SyntaxError (List Reference) :=
  match readOffset stop ts with
  | .error e => .error e
  | .ok (offset, behind) => (scanReferences stop behind).map (reference offset :: ·)

/-- A prefix with a code is one reference, and its offset is read before the scan goes on. The
lemmas here say, one for each case of the scan, what it does with its first tokens, so that its
patterns are opened here and nowhere else. -/
theorem scanReferences_qualified (q code : String) (start start' : Nat)
    (spelling spelling' : List Char) (after : List Lexeme) :
    scanReferences stop (⟨.qualifier q, start, spelling⟩ :: ⟨.name code, start', spelling'⟩ ::
      after) = scanBehindOffset stop (⟨some (.ofName q), code, ·⟩) after := by
  rw [scanReferences.eq_def, scanBehindOffset]
  simp only
  split
  · next e failed => rw [failed]
  · next offset behind read =>
    simp only [read]
    cases scanReferences stop behind <;> rfl

/-- A prefix without a code is a fault. -/
theorem scanReferences_missingCode {rest : List Lexeme}
    (noCode : ∀ code, (rest.map Lexeme.token).head? ≠ some (.name code)) (q : String)
    (start : Nat) (spelling : List Char) :
    scanReferences stop (⟨.qualifier q, start, spelling⟩ :: rest) =
      .error ⟨.missingCode q, here stop rest⟩ := by
  rw [scanReferences.eq_def]
  simp only
  split
  · next code start' spelling' after => exact absurd rfl (noCode code)
  · rfl

/-- A name that no parenthesis follows is a reference. -/
theorem scanReferences_unqualified {after : List Lexeme}
    (noCall : behind? .openParen after = none) (code : String) (start : Nat)
    (spelling : List Char) :
    scanReferences stop (⟨.name code, start, spelling⟩ :: after) =
      scanBehindOffset stop (⟨none, code, ·⟩) after := by
  rw [scanReferences.eq_def, scanBehindOffset]
  split
  · next found => cases found
  · next found => cases found
  · next found =>
      obtain ⟨-, rfl⟩ := List.cons.inj found
      simp [behind?] at noCall
  · next code' start' spelling' rest noParen found =>
      obtain ⟨same, rfl⟩ := List.cons.inj found
      obtain rfl : code = code' := by simpa using congrArg Lexeme.token same
      split
      · next e failed => rw [failed]
      · next offset behind read =>
          simp only [read]
          cases scanReferences stop behind <;> rfl
  · next l rest notQualifier notCall notName found =>
      obtain ⟨same, rfl⟩ := List.cons.inj found
      exact absurd same.symm (notName _ _ _)

/-- The name of a function is passed over with its parenthesis, and its arguments are scanned. -/
theorem scanReferences_call (function : String) (start start' : Nat)
    (spelling spelling' : List Char) (rest : List Lexeme) :
    scanReferences stop (⟨.name function, start, spelling⟩ :: ⟨.openParen, start', spelling'⟩ ::
      rest) = scanReferences stop rest := by
  rw [scanReferences.eq_def]

/-- A token that is no word is passed over. -/
theorem scanReferences_other {t : Token} (other : t.isWord = false) (start : Nat)
    (spelling : List Char) (rest : List Lexeme) :
    scanReferences stop (⟨t, start, spelling⟩ :: rest) = scanReferences stop rest := by
  rw [scanReferences.eq_def]
  cases t with
  | name s => cases other
  | qualifier s => cases other
  | _ => rfl

/-- Likeness survives a change of the result. -/
theorem SameButPlace.map {α β : Type} {r r' : Except SyntaxError α} (h : SameButPlace r r')
    (f : α → β) : SameButPlace (r.map f) (r'.map f) := by
  cases h with
  | ok value => exact .ok (f value)
  | error fault place place' => exact .error fault place place'

/-- One reference of the scan: the offsets are alike, and what the scan does behind them is left to
its induction. -/
theorem scanBehindOffset_sameButPlace {ts' : List Lexeme}
    (same : ts'.map Lexeme.token = ts.map Lexeme.token) (reference : Int → Reference)
    (goesOn : ∀ {offset rest rest'}, readOffset stop ts = .ok (offset, rest) →
      rest'.map Lexeme.token = rest.map Lexeme.token →
        SameButPlace (scanReferences stop rest) (scanReferences stop' rest')) :
    SameButPlace (scanBehindOffset stop reference ts) (scanBehindOffset stop' reference ts') := by
  have answers : ReadAlike (readOffset stop ts) (readOffset stop' ts') := alike_readOffset ts' same
  rw [scanBehindOffset, scanBehindOffset]
  generalize read : readOffset stop ts = answer at answers
  generalize readOffset stop' ts' = answer' at answers
  cases answers with
  | ok offset tokens => exact (goesOn read tokens).map _
  | error fault place place' => exact .error fault place place'

/-- Rows with the same tokens are scanned alike. -/
theorem scanReferences_sameButPlace {ts' : List Lexeme}
    (same : ts'.map Lexeme.token = ts.map Lexeme.token) :
    SameButPlace (scanReferences stop ts) (scanReferences stop' ts') := by
  -- The induction is on the number of tokens: an offset is taken off as a whole.
  induction length : ts.length using Nat.strong_induction_on generalizing ts ts' with
  | _ n ih =>
  subst length
  cases ts with
  | nil =>
      obtain rfl : ts' = [] := List.map_eq_nil_iff.1 same
      rw [scanReferences, scanReferences]
      exact .ok []
  | cons first behind =>
      obtain ⟨token, start, spelling⟩ := first
      obtain ⟨start', spelling', behind', rfl, tokens⟩ := exists_lexeme same
      have later {rest rest' : List Lexeme} (fewer : rest.length ≤ behind.length)
          (same : rest'.map Lexeme.token = rest.map Lexeme.token) :
          SameButPlace (scanReferences stop rest) (scanReferences stop' rest') :=
        ih _ (Nat.lt_succ_of_le fewer) same rfl
      cases token with
      | qualifier q =>
          by_cases isName : ∃ code, (behind.map Lexeme.token).head? = some (.name code)
          · obtain ⟨code, first⟩ := isName
            obtain ⟨row, hrow⟩ := List.head?_eq_some_iff.1 first
            obtain ⟨start₁, spelling₁, after, rfl, rfl⟩ := exists_lexeme hrow
            obtain ⟨start₂, spelling₂, after', rfl, alike⟩ := exists_lexeme (tokens.trans hrow)
            rw [scanReferences_qualified, scanReferences_qualified]
            refine scanBehindOffset_sameButPlace alike _ fun read same => ?_
            exact later (Nat.le_succ_of_le (length_le_of_readOffset read)) same
          · rw [scanReferences_missingCode (not_exists.1 isName),
              scanReferences_missingCode (not_exists.1 (by rwa [tokens]))]
            exact .error _ _ _
      | name code =>
          obtain ⟨found, found'⟩ | ⟨inner, inner', found, found', alike⟩ :=
            behind?_of_same_tokens tokens .openParen
          · rw [scanReferences_unqualified found, scanReferences_unqualified found']
            refine scanBehindOffset_sameButPlace tokens _ fun read same => ?_
            exact later (length_le_of_readOffset read) same
          · have fewer := length_lt_of_behind? found
            obtain ⟨⟨_, start₁, spelling₁⟩, rfl, rfl⟩ := behind?_eq_some_iff.1 found
            obtain ⟨⟨_, start₂, spelling₂⟩, rfl, rfl⟩ := behind?_eq_some_iff.1 found'
            rw [scanReferences_call, scanReferences_call]
            exact later (Nat.le_of_lt fewer) alike
      | _ =>
          rw [scanReferences_other rfl, scanReferences_other rfl]
          exact later (Nat.le_refl _) tokens

end

/-! ### Texts -/

/-- Texts with the same tokens are read alike, by the parser and by the scan. -/
theorem sameButPlace_of_same_tokens {formula formula' : String} {ts ts' : List Lexeme}
    (h : tokenize formula = .ok ts) (h' : tokenize formula' = .ok ts')
    (same : ts'.map Lexeme.token = ts.map Lexeme.token) :
    SameButPlace (parse formula) (parse formula') ∧
      SameButPlace (referencesOf formula) (referencesOf formula') := by
  constructor
  · unfold parse
    rw [h, h']
    exact parseLexemes_sameButPlace same
  · unfold referencesOf
    rw [h, h']
    have answers : SameButPlace (scanReferences (byteLength formula.toList) ts)
        (scanReferences (byteLength formula'.toList) ts') :=
      scanReferences_sameButPlace same
    dsimp only
    generalize scanReferences (byteLength formula.toList) ts = read at answers
    generalize scanReferences (byteLength formula'.toList) ts' = read' at answers
    cases answers with
    | ok rs => exact .ok _
    | error fault place place' => exact .error fault place place'

end Rollforward.Formula
