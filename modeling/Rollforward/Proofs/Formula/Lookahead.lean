import Mathlib.Computability.Language
import Mathlib.Order.CompletePartialOrder
import Rollforward.Proofs.Formula.Offset

/-!
# `Rollforward.Proofs.Formula.Lookahead`: what settles the answer of a reader

Every reader goes over a row from the left and never comes back. It answers after some tokens
`before`, with one look at the token behind them: that token ends what was read, or it is the one
where the reader fails. The rest of the row has no say in the answer.

`Settles l r ts` says this of one reader `r` in front of `ts`, and what `before` is in terms of a
language `l`: a row of `l` where the reader returns, the beginning of one where it fails. Readers
are put together in few ways (one behind the other, a choice by the first token), and there is a
lemma for each, in which the languages are put together alongside.
-/

set_option autoImplicit false

namespace Rollforward.Formula

/-! ### Beginnings -/

section
variable {α : Type} {l m : Language α} {row : List α}

/-- The rows with which the rows of a language begin. -/
def beginnings (l : Language α) : Language α := {row | ∃ more, row ++ more ∈ l}

/-- What stands behind `t` in the rows of a language that begin with it. -/
def behindFirst (t : α) (l : Language α) : Language α := {row | t :: row ∈ l}

/-- Behind its first token a row goes on as `behindFirst` says. -/
theorem singleton_mul_behindFirst_le (t : α) : {[t]} * behindFirst t l ≤ l := by
  rintro row ⟨front, rfl, rest, hrest, rfl⟩
  exact hrest

/-- A whole row is a beginning. -/
theorem mem_beginnings_self (h : row ∈ l) : row ∈ beginnings l :=
  ⟨[], by rwa [List.append_nil]⟩

/-- Nothing is a beginning, if there is a row at all. A reader that fails at its first token needs
such a row. -/
theorem nil_mem_beginnings (h : row ∈ l) : [] ∈ beginnings l := ⟨row, h⟩

/-- More rows have more beginnings. -/
theorem beginnings_mono (h : l ≤ m) : beginnings l ≤ beginnings m := by
  rintro row ⟨more, hmore⟩
  exact ⟨more, h hmore⟩

/-- What begins a row of `l` begins one of `l * m`, if something can follow. -/
theorem mem_beginnings_mul_left {next : List α} (nonempty : next ∈ m) (h : row ∈ beginnings l) :
    row ∈ beginnings (l * m) := by
  obtain ⟨more, hmore⟩ := h
  refine ⟨more ++ next, ?_⟩
  rw [← List.append_assoc]
  exact Language.append_mem_mul hmore nonempty

/-- A row of `l` and what begins one of `m` begin a row of `l * m`. -/
theorem mem_beginnings_mul_right {first : List α} (hfirst : first ∈ l) (h : row ∈ beginnings m) :
    first ++ row ∈ beginnings (l * m) := by
  obtain ⟨more, hmore⟩ := h
  refine ⟨more, ?_⟩
  rw [List.append_assoc]
  exact Language.append_mem_mul hfirst hmore

end

/-- The tokens of the operations of one tightness, each a row of its own. -/
def operations (tightness : Tightness) : Language Token :=
  {row | ∃ op : BinaryOp, op.tightness = tightness ∧ [op.token] = row}

/-! ### Readers -/

/-- A reader: what it reads from the front of a row and what it leaves, or a fault. -/
abbrev Reader (α : Type) := List Lexeme → Except SyntaxError (α × List Lexeme)

variable {α β : Type} {stop : Nat} {l m : Language Token} {ts : List Lexeme}

/-- In front of `ts` the reader takes the tokens of a row of `l` and returns, or it fails behind the
beginning of such a row. It does the same in front of each row that starts with the same tokens up
to and including the one at which it stops. -/
inductive Settles (stop : Nat) (l : Language Token) (r : Reader α) (ts : List Lexeme) : Prop where
  | returns (before after : List Lexeme) (value : α) (split : ts = before ++ after)
      (taken : before.map Lexeme.token ∈ l)
      (answer : ∀ us, us.head? = after.head? → r (before ++ us) = .ok (value, us))
  | fails (before after : List Lexeme) (fault : Fault) (split : ts = before ++ after)
      (taken : before.map Lexeme.token ∈ beginnings l)
      (answer : ∀ us, us.head? = after.head? →
        r (before ++ us) = .error ⟨fault, here stop after⟩)

/-- Two readers, one behind the other. The second may depend on what the first has read. -/
def Reader.andThen (r : Reader α) (next : α → Reader β) : Reader β := fun ts =>
  match r ts with
  | .error e => .error e
  | .ok (value, after) => next value after

/-- The reader that takes nothing. -/
def Reader.done (value : α) : Reader α := fun ts => .ok (value, ts)

/-- The reader that takes the token `t` and no other. -/
def Reader.expect (stop : Nat) (t : Token) (fault : Fault) (value : α) : Reader α := fun ts =>
  match behind? t ts with
  | none => .error ⟨fault, here stop ts⟩
  | some behind => .ok (value, behind)

/-- The choice by whether the token `t` stands in front. -/
def Reader.ifBehind (t : Token) (present absent : Reader α) : Reader α := fun ts =>
  match behind? t ts with
  | some behind => present behind
  | none => absent ts

/-- The choice by whether an operation stands in front. -/
def Reader.ifOperator (meaning : Token → Option BinaryOp) (present : BinaryOp → Reader α)
    (absent : Reader α) : Reader α := fun ts =>
  match operator? meaning ts with
  | some (op, behind) => present op behind
  | none => absent ts

/-- Where a fault shows can be told from the first token. -/
theorem here_congr {us after : List Lexeme} (h : us.head? = after.head?) :
    here stop us = here stop after := by
  cases us <;> cases after <;> simp_all [here]

/-- Behind the same tokens, rows with the same first token start alike. -/
theorem head?_append_congr {us after : List Lexeme} (before : List Lexeme)
    (h : us.head? = after.head?) : (before ++ us).head? = (before ++ after).head? := by
  rw [List.head?_append, List.head?_append, h]

/-- That a token does not stand in front can be told from the first token. -/
theorem behind?_eq_none_congr {t : Token} {us vs : List Lexeme} (same : us.head? = vs.head?)
    (h : behind? t vs = none) : behind? t us = none := by
  rw [behind?_eq_none_iff, List.head?_map] at h ⊢
  rwa [same]

/-- And so can that no operator does. -/
theorem operator?_eq_none_congr {meaning : Token → Option BinaryOp} {us vs : List Lexeme}
    (same : us.head? = vs.head?) (h : operator? meaning vs = none) :
    operator? meaning us = none := by
  cases us <;> cases vs <;> simp_all [operator?]

namespace Settles

/-- A reader of a category settles any larger language. This is how what a production adds comes in.
-/
theorem mono {r : Reader α} (h : Settles stop l r ts) (le : l ≤ m) : Settles stop m r ts := by
  cases h with
  | returns before after value split taken answer =>
      exact .returns before after value split (le taken) answer
  | fails before after fault split taken answer =>
      exact .fails before after fault split (beginnings_mono le taken) answer

/-- Readers that do the same settle the same. -/
theorem congr {r r' : Reader α} (h : Settles stop l r ts) (same : ∀ us, r' us = r us) :
    Settles stop l r' ts := by
  obtain rfl : r' = r := funext same
  exact h

/-- Nothing is taken and the empty row is read. -/
theorem done (value : α) : Settles stop 1 (.done value) ts :=
  .returns [] ts value rfl Language.nil_mem_one fun _ _ => rfl

/-- A reader that fails at the first token, whatever stands behind it. -/
theorem failing {r : Reader α} {row : List Token} (fault : Fault) (nonempty : row ∈ l)
    (h : ∀ us, us.head? = ts.head? → r us = .error ⟨fault, here stop us⟩) :
    Settles stop l r ts := by
  refine .fails [] ts fault rfl (nil_mem_beginnings nonempty) ?_
  intro us same
  rw [List.nil_append, h us same, here_congr same]

/-- At the end of the row, where every reader that must take a token fails. -/
theorem failing_nil {r : Reader α} {row : List Token} (fault : Fault) (nonempty : row ∈ l)
    (h : r [] = .error ⟨fault, stop⟩) : Settles stop l r [] := by
  refine failing fault nonempty ?_
  intro us same
  obtain rfl : us = [] := List.head?_eq_none_iff.mp same
  exact h

/-- At the first token, whatever stands behind it. -/
theorem failing_cons {r : Reader α} {row : List Token} {first : Lexeme} {behind : List Lexeme}
    (fault : Fault) (nonempty : row ∈ l)
    (h : ∀ us, r (first :: us) = .error ⟨fault, first.start⟩) :
    Settles stop l r (first :: behind) := by
  refine failing fault nonempty ?_
  intro us same
  obtain ⟨us, rfl⟩ := List.head?_eq_some_iff.mp same
  exact h us

/-- A token that has to follow either does or is where the reader fails. -/
theorem expect (t : Token) (fault : Fault) (value : α) :
    Settles stop {[t]} (.expect stop t fault value) ts := by
  cases hbehind : behind? t ts with
  | none =>
      refine failing fault (Set.mem_singleton [t]) ?_
      intro us same
      simp only [Reader.expect, behind?_eq_none_congr same hbehind]
  | some behind =>
      obtain ⟨first, rfl, token⟩ := behind?_eq_some_iff.mp hbehind
      refine .returns [first] behind value rfl ?_ ?_
      · rw [List.map_singleton, token]
        exact Set.mem_singleton [t]
      · intro us same
        have found : behind? t (first :: us) = some us :=
          behind?_eq_some_iff.mpr ⟨first, rfl, token⟩
        simp only [Reader.expect, List.singleton_append, found]

/-- A first token that is taken for sure. -/
theorem cons {r next : Reader α} {first : Lexeme} {behind : List Lexeme}
    (h : Settles stop m next behind) (same : ∀ us, r (first :: us) = next us)
    (le : {[first.token]} * m ≤ l) : Settles stop l r (first :: behind) := by
  have front {row : List Token} : first.token :: row = [first.token] ++ row := rfl
  cases h with
  | returns before after value split taken answer =>
      refine .returns (first :: before) after value (by rw [split, List.cons_append]) (le ?_) ?_
      · rw [List.map_cons, front]
        exact Language.append_mem_mul (Set.mem_singleton _) taken
      · intro us head
        rw [List.cons_append, same, answer us head]
  | fails before after fault split taken answer =>
      refine .fails (first :: before) after fault (by rw [split, List.cons_append])
        (beginnings_mono le ?_) ?_
      · rw [List.map_cons, front]
        exact mem_beginnings_mul_right (Set.mem_singleton _) taken
      · intro us head
        rw [List.cons_append, same, answer us head]

/-- One reader behind the other. -/
theorem andThen {r : Reader α} {next : α → Reader β} {row : List Token} (nonempty : row ∈ m)
    (first : Settles stop l r ts)
    (second : ∀ {value after}, r ts = .ok (value, after) → Settles stop m (next value) after) :
    Settles stop (l * m) (r.andThen next) ts := by
  cases first with
  | fails before after fault split taken answer =>
      refine .fails before after fault split (mem_beginnings_mul_left nonempty taken) ?_
      intro us head
      simp only [Reader.andThen, answer us head]
  | returns before middle value split taken answer =>
      have read : r ts = .ok (value, middle) := by rw [split, answer middle rfl]
      -- The second reader settles how the row goes on behind the first, and so what the first
      -- looks at.
      have goesOn {between after us : List Lexeme} (hmiddle : middle = between ++ after)
          (head : us.head? = after.head?) :
          (r.andThen next) (before ++ between ++ us) = next value (between ++ us) := by
        have settled := answer (between ++ us) (by rw [hmiddle, head?_append_congr between head])
        simp only [Reader.andThen, List.append_assoc, settled]
      cases second read with
      | returns between after value' split' taken' answer' =>
          refine .returns (before ++ between) after value'
            (by rw [split, split', List.append_assoc]) ?_ ?_
          · rw [List.map_append]
            exact Language.append_mem_mul taken taken'
          · intro us head
            rw [goesOn split' head, answer' us head]
      | fails between after fault split' taken' answer' =>
          refine .fails (before ++ between) after fault
            (by rw [split, split', List.append_assoc]) ?_ ?_
          · rw [List.map_append]
            exact mem_beginnings_mul_right taken taken'
          · intro us head
            rw [goesOn split' head, answer' us head]

/-- A reader whose result is changed. -/
theorem map {r : Reader α} (f : α → β) (h : Settles stop l r ts) :
    Settles stop l (r.andThen fun value => .done (f value)) ts := by
  have mapped : Settles stop (l * 1) (r.andThen fun value => .done (f value)) ts :=
    h.andThen Language.nil_mem_one fun _ => done _
  rwa [mul_one] at mapped

/-- A reader that is chosen by its first token does what the choice does. -/
theorem look {r otherwise : Reader α} (h : Settles stop l otherwise ts)
    (same : ∀ us, us.head? = ts.head? → r us = otherwise us) : Settles stop l r ts := by
  cases h with
  | returns before after value split taken answer =>
      refine .returns before after value split taken ?_
      intro us head
      rw [same _ (by rw [split, head?_append_congr before head]), answer us head]
  | fails before after fault split taken answer =>
      refine .fails before after fault split taken ?_
      intro us head
      rw [same _ (by rw [split, head?_append_congr before head]), answer us head]

/-- The choice looks at the first token only, which the rows that `Settles` compares have in common.
-/
theorem ifBehind {t : Token} {present absent : Reader α}
    (missing : behind? t ts = none → Settles stop l absent ts)
    (there : ∀ {behind}, behind? t ts = some behind → Settles stop m present behind) :
    Settles stop (l + {[t]} * m) (.ifBehind t present absent) ts := by
  cases hbehind : behind? t ts with
  | none =>
      refine ((missing hbehind).mono le_self_add).look ?_
      intro us same
      simp only [Reader.ifBehind, behind?_eq_none_congr same hbehind]
  | some behind =>
      have settled := there hbehind
      obtain ⟨first, rfl, rfl⟩ := behind?_eq_some_iff.mp hbehind
      refine settled.cons ?_ le_add_self
      intro us
      have found : behind? first.token (first :: us) = some us :=
        behind?_eq_some_iff.mpr ⟨first, rfl, rfl⟩
      simp only [Reader.ifBehind, found]

/-- The choice by an operator, where its absence is an answer. -/
theorem ifOperator {meaning : Token → Option BinaryOp} {tightness : Tightness}
    (known : ∀ {t op}, meaning t = some op → op.tightness = tightness ∧ t = op.token) (value : α)
    {present : BinaryOp → Reader α}
    (there : ∀ {op behind}, operator? meaning ts = some (op, behind) →
      Settles stop m (present op) behind) :
    Settles stop (1 + operations tightness * m) (.ifOperator meaning present (.done value)) ts := by
  cases hop : operator? meaning ts with
  | none =>
      refine ((done value).mono le_self_add).look ?_
      intro us same
      simp only [Reader.ifOperator, operator?_eq_none_congr same hop]
  | some found =>
      obtain ⟨op, behind⟩ := found
      have settled := there hop
      obtain ⟨first, rfl, meant⟩ := operator?_eq_some_iff.mp hop
      obtain ⟨tight, token⟩ := known meant
      refine settled.cons ?_ ?_
      · intro us
        have found : operator? meaning (first :: us) = some (op, us) :=
          operator?_eq_some_iff.mpr ⟨first, rfl, meant⟩
        simp only [Reader.ifOperator, found]
      · rintro row ⟨_, rfl, rest, hrest, rfl⟩
        exact .inr (Language.append_mem_mul ⟨op, tight, by rw [token]⟩ hrest)

end Settles

end Rollforward.Formula
