import Mathlib.Order.Defs.Unbundled
import Rollforward.Evaluation.Cancellation
import Rollforward.Proofs.Evaluation.Locality

/-!
# `Rollforward.Proofs.Evaluation.Correspondence`: evaluations that differ in their errors at most

Results correspond when they are values that one relation takes for the same, or errors that another
one does (`Corresponds`). An evaluation does nothing with an error but pass it on, so an expression
has corresponding values where its references have corresponding answers
(`Environment.CorrespondOn.corresponds_eval`). The same calls are reached then, and the expression
asks for the run to be cancelled in both environments or in neither
(`Environment.CorrespondOn.cancels_eq`).

The contexts may differ too, as long as the functions do not tell them apart (`Registry.SameIn`).
-/

set_option autoImplicit false

namespace Rollforward

open Formula (Expr Reference)

/-! ### Results -/

/-- The results are values that `V` relates, or errors that `E` relates. -/
inductive Corresponds {ε α : Type} (E : ε → ε → Prop) (V : α → α → Prop) :
    Except ε α → Except ε α → Prop where
  | ok {a b : α} (values : V a b) : Corresponds E V (.ok a) (.ok b)
  | error {e f : ε} (errors : E e f) : Corresponds E V (.error e) (.error f)

namespace Corresponds

variable {ε α : Type} {E : ε → ε → Prop} {V : α → α → Prop} {x y : Except ε α}

/-- Each result corresponds to itself, if errors and values are related to themselves. -/
protected theorem refl [Std.Refl E] [Std.Refl V] (x : Except ε α) : Corresponds E V x x := by
  cases x with
  | error e => exact .error (Std.Refl.refl e)
  | ok a => exact .ok (Std.Refl.refl a)

/-- Equal results correspond. -/
theorem of_eq [Std.Refl E] [Std.Refl V] (h : x = y) : Corresponds E V x y :=
  h ▸ .refl x

/-- With equality in both places to correspond is to be equal. The statements on runs that agree are
the special case of those on runs that correspond. -/
theorem eq (h : Corresponds Eq Eq x y) : x = y := by
  cases h with
  | ok values => rw [values]
  | error errors => rw [errors]

/-- Both fail or both have a value. -/
theorem error_or_ok (h : Corresponds E V x y) :
    (∃ e f, x = .error e ∧ y = .error f ∧ E e f) ∨ ∃ a b, x = .ok a ∧ y = .ok b ∧ V a b := by
  cases h with
  | ok values => exact Or.inr ⟨_, _, rfl, rfl, values⟩
  | error errors => exact Or.inl ⟨_, _, rfl, rfl, errors⟩

/-- Which of the two results has a value cannot differ. -/
theorem isOk_eq (h : Corresponds E V x y) : x.isOk = y.isOk := by
  cases h <;> rfl

end Corresponds

/-! ### Functions -/

namespace Registry

/-- The functions do not tell the contexts apart. -/
def SameIn (functions : Registry) (context context' : Context) : Prop :=
  ∀ e ∈ functions.entries, ∀ args, e.body.run args context = e.body.run args context' ∧
    ∀ asks, e.body.cancels = some asks → asks args context = asks args context'

variable {functions : Registry} {context context' : Context} {name : String}

/-- A function that is looked up is the body of an entry. -/
theorem exists_entry_of_lookup {count : Nat} {f : Callable}
    (found : functions.lookup name count = .ok f) : ∃ e ∈ functions.entries, e.body = f := by
  have mem_of_choose? {es : List Entry} {e : Entry} (chosen : choose? es count = some e) :
      e ∈ es := by
    unfold choose? at chosen
    split at chosen
    · next d exact =>
      obtain rfl := Option.some.inj chosen
      exact List.mem_of_find?_eq_some exact
    · exact List.mem_of_find?_eq_some chosen
  unfold lookup at found
  dsimp only at found
  split at found
  · cases found
  · split at found
    · next e chosen =>
      exact ⟨e, (List.mem_filter.1 (mem_of_choose? chosen)).1, Except.ok.inj found⟩
    · cases found

namespace SameIn

/-- In one context there is nothing to tell apart. -/
protected theorem refl (functions : Registry) (context : Context) :
    functions.SameIn context context :=
  fun _ _ _ => ⟨rfl, fun _ _ => rfl⟩

/-- A call has the same result in both contexts, found or not. -/
theorem call_eq (h : functions.SameIn context context') (name : String) (args : List Arg) :
    functions.call name args context = functions.call name args context' := by
  unfold call
  cases found : functions.lookup name args.length with
  | error e => rfl
  | ok f =>
      obtain ⟨e, he, rfl⟩ := exists_entry_of_lookup found
      exact (h e he args).1

end SameIn

end Registry

/-! ### Arguments -/

namespace Evaluation

variable {E : EvalError → EvalError → Prop} {env env' : Environment}

section Values

variable [Std.Refl E]

/-- An argument that is a text is no expression to evaluate, and any other argument is. -/
theorem corresponds_evalArg {e : Expr} (h : Corresponds E Eq (eval env e) (eval env' e)) :
    Corresponds E Eq (evalArg env e) (evalArg env' e) := by
  cases e with
  | text s => exact .refl _
  | _ =>
      rw [evalArg, evalArg]
      · obtain ⟨e, f, failed, failed', errors⟩ | ⟨x, _, value, value', rfl⟩ := h.error_or_ok
        · rw [failed, failed']
          exact .error errors
        · rw [value, value']
          exact .refl _
      all_goals
        intro _ text
        cases text

/-- Arguments are evaluated from the left, so the first that fails is the same in both environments.
-/
theorem corresponds_evalArgs {args : List Expr}
    (h : ∀ e ∈ args, Corresponds E Eq (eval env e) (eval env' e)) :
    Corresponds E Eq (evalArgs env args) (evalArgs env' args) := by
  induction args with
  | nil => exact .refl _
  | cons e es ih =>
      have ⟨first, rest⟩ := List.forall_mem_cons.1 h
      rw [evalArgs_cons, evalArgs_cons]
      obtain ⟨e, f, failed, failed', errors⟩ | ⟨a, _, value, value', rfl⟩ :=
        (corresponds_evalArg first).error_or_ok
      · rw [failed, failed']
        exact .error errors
      obtain ⟨e, f, failed, failed', errors⟩ | ⟨as, _, values, values', rfl⟩ :=
        (ih rest).error_or_ok
      · rw [value, value', failed, failed']
        exact .error errors
      · rw [value, value', values, values']
        exact .refl _

end Values

/-- Which arguments are reached hangs on which have a value, and not on the errors of the others. -/
theorem cancelsArgs_congr {args : List Expr}
    (values : ∀ e ∈ args, Corresponds E Eq (eval env e) (eval env' e))
    (asks : ∀ e ∈ args, cancels env e = cancels env' e) :
    cancelsArgs env args = cancelsArgs env' args := by
  induction args with
  | nil => rw [cancelsArgs, cancelsArgs]
  | cons e es ih =>
      have ⟨value, values⟩ := List.forall_mem_cons.1 values
      have ⟨ask, asks⟩ := List.forall_mem_cons.1 asks
      have rest := ih values asks
      cases e with
      | text s => rw [cancelsArgs, cancelsArgs, rest]
      | _ =>
          rw [cancelsArgs, cancelsArgs, value.isOk_eq, ask, rest]
          all_goals exact fun _ text => nomatch text

end Evaluation

/-! ### Environments -/

/-- The environments have the same functions, which do not tell their contexts apart, and give
corresponding answers to `rs`. -/
structure Environment.CorrespondOn (E : EvalError → EvalError → Prop) (rs : List Reference)
    (env env' : Environment) : Prop where
  functions : env.functions = env'.functions
  steady : env.functions.SameIn env.context env'.context
  answers : ∀ r ∈ rs,
    Corresponds E Eq (env.chain.resolve r env.context) (env'.chain.resolve r env'.context)

namespace Environment.CorrespondOn

open Evaluation

variable {E : EvalError → EvalError → Prop} {rs : List Reference} {env env' : Environment}

/-- A function is only asked when its arguments have values, and then they are the same. -/
theorem callCancels_eq (h : CorrespondOn E rs env env') {name : String} {args : List Expr}
    (values : Corresponds E Eq (evalArgs env args) (evalArgs env' args)) :
    callCancels env name args = callCancels env' name args := by
  rw [callCancels, callCancels, ← h.functions]
  cases found : env.functions.lookup name args.length with
  | error e => rfl
  | ok f =>
      obtain ⟨e, he, rfl⟩ := Registry.exists_entry_of_lookup found
      dsimp only
      cases holds : e.body.cancels with
      | none => rfl
      | some asks =>
          obtain ⟨_, _, failed, failed', -⟩ | ⟨as, _, values, values', rfl⟩ := values.error_or_ok
          · rw [failed, failed']
          · rw [values, values']
            exact (h.steady e he as).2 asks holds

variable [Std.Refl E]

/-- An expression whose references have corresponding answers has corresponding values. -/
theorem corresponds_eval (h : CorrespondOn E rs env env') {e : Expr} (reads : e.references ⊆ rs) :
    Corresponds E Eq (eval env e) (eval env' e) := by
  induction e using Expr.induction_on_operands with
  | number x =>
      rw [eval, eval]
      exact .refl _
  | text s =>
      rw [eval, eval]
      exact .refl _
  | reference r =>
      rw [eval, eval]
      exact h.answers r (reads (List.mem_singleton.2 rfl))
  | unary op operand ih =>
      rw [eval, eval]
      obtain ⟨e, f, failed, failed', errors⟩ | ⟨x, _, value, value', rfl⟩ := (ih reads).error_or_ok
      · rw [failed, failed']
        exact .error errors
      · rw [value, value']
        exact .refl _
  | binary op left right ihLeft ihRight =>
      have left := ihLeft fun r hr => reads (List.mem_append_left _ hr)
      have right := ihRight fun r hr => reads (List.mem_append_right _ hr)
      rw [eval, eval]
      -- The first operand that fails does so in both, and its error is that of the expression.
      obtain ⟨e, f, failed, failed', errors⟩ | ⟨x, _, value, value', rfl⟩ := left.error_or_ok
      · rw [failed, failed']
        exact .error errors
      rw [value, value']
      obtain ⟨e, f, failed, failed', errors⟩ | ⟨y, _, value, value', rfl⟩ := right.error_or_ok
      · rw [failed, failed']
        exact .error errors
      · rw [value, value']
        exact .refl _
  | call name args ih =>
      have values := corresponds_evalArgs fun e he => ih e he fun r hr =>
        reads (Formula.mem_referencesOfAll.2 ⟨e, he, hr⟩)
      rw [eval, eval]
      obtain ⟨e, f, failed, failed', errors⟩ | ⟨as, _, values, values', rfl⟩ := values.error_or_ok
      · rw [failed, failed']
        exact .error errors
      · have call := h.steady.call_eq name as
        rw [values, values', ← h.functions]
        dsimp only
        rw [call]
        exact .refl _

/-- There an expression asks for the run to be cancelled in both environments or in neither. -/
theorem cancels_eq (h : CorrespondOn E rs env env') {e : Expr} (reads : e.references ⊆ rs) :
    cancels env e = cancels env' e := by
  induction e using Expr.induction_on_operands with
  | number x => rw [cancels, cancels]
  | text s => rw [cancels, cancels]
  | reference r => rw [cancels, cancels]
  | unary op operand ih =>
      rw [cancels, cancels]
      exact ih reads
  | binary op left right ihLeft ihRight =>
      have readsLeft : left.references ⊆ rs := fun r hr => reads (List.mem_append_left _ hr)
      have readsRight : right.references ⊆ rs := fun r hr => reads (List.mem_append_right _ hr)
      have value := h.corresponds_eval readsLeft
      -- The right operand is reached in both or in neither, as the left one has a value or not.
      rw [cancels, cancels, ihLeft readsLeft, ihRight readsRight, value.isOk_eq]
  | call name args ih =>
      have readsArg : ∀ e ∈ args, e.references ⊆ rs := by
        intro e he r hr
        exact reads (Formula.mem_referencesOfAll.2 ⟨e, he, hr⟩)
      have values : ∀ e ∈ args, Corresponds E Eq (eval env e) (eval env' e) := by
        intro e he
        exact h.corresponds_eval (readsArg e he)
      have asks : ∀ e ∈ args, cancels env e = cancels env' e := by
        intro e he
        exact ih e he (readsArg e he)
      rw [cancels, cancels, cancelsArgs_congr values asks,
        h.callCancels_eq (corresponds_evalArgs values)]

end Environment.CorrespondOn

end Rollforward
