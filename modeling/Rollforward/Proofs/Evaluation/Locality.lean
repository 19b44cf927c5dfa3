import Rollforward.Evaluation.Basic
import Rollforward.Proofs.Formula.Scan
import Rollforward.Provider.Domain
import Rollforward.Registry.Standard

/-!
# `Rollforward.Proofs.Evaluation.Locality`: what an evaluation reads

An evaluation asks its chain for the references of the expression and for nothing else, and it never
leaves one of them out: `IF` is a function like any other, so both of its branches are evaluated.
Three facts say so, each by induction over the expression.

* `eval_congr`: chains that agree on the references give the same value or the same error.
* `resolve_of_eval`: in an evaluation with a value, every reference has one.
* `eval_of_failsOnlyAt`: where one more reference fails, it is the error of that reference that the
  evaluation ends with.

For a formula text the references are those that the scan lists (`referencesOf_of_parse`).
-/

set_option autoImplicit false

namespace Rollforward

open Formula (Expr Reference UnaryOp BinaryOp)

/-! ### Chains that are told apart by few references -/

namespace Chain

/-- Both chains answer the references of `rs` alike. -/
def AgreeOn (rs : List Reference) (context : Context) (c c' : Chain) : Prop :=
  ∀ r ∈ rs, c.resolve r context = c'.resolve r context

/-- `c'` fails on `r` with `fault` and answers every other reference as `c` does. -/
structure FailsOnlyAt (r : Reference) (fault : EvalError) (context : Context) (c c' : Chain) :
    Prop where
  fails : c'.resolve r context = .error fault
  agrees : ∀ other, other ≠ r → c'.resolve other context = c.resolve other context

variable {context : Context} {c c' : Chain}

/-- To agree on more references is to agree on fewer. -/
theorem AgreeOn.mono {rs rs' : List Reference} (h : AgreeOn rs' context c c') (sub : rs ⊆ rs') :
    AgreeOn rs context c c' :=
  fun r hr => h r (sub hr)

/-- Chains that differ at one reference agree on what does not read it. -/
theorem FailsOnlyAt.agreeOn {r : Reference} {fault : EvalError}
    (h : FailsOnlyAt r fault context c c') {rs : List Reference} (unread : r ∉ rs) :
    AgreeOn rs context c' c := by
  intro other hother
  refine h.agrees other ?_
  rintro rfl
  exact unread hother

/-- A provider that claims the one reference and never has a value for it. -/
def refusal (r : Reference) (fault : EvalError) : Provider where
  name := "refusal"
  claims other := other == r
  resolve _ _ := .error fault

/-- With a refusal before the others a chain fails on the one reference more. -/
theorem failsOnlyAt_refusal (r : Reference) (fault : EvalError) (context : Context) (c : Chain) :
    FailsOnlyAt r fault context c (refusal r fault :: c) where
  fails := by simp [resolve, claimant?, refusal]
  agrees other differ := by
    have unclaimed : (refusal r fault).claims other = false := beq_eq_false_iff_ne.2 differ
    rw [resolve, resolve, claimant?, List.find?_cons_of_neg (by simp [unclaimed]), claimant?]

end Chain

/-! ### Expressions by their operands -/

namespace Formula

/-- What holds of an expression whenever it holds of its operands holds of every expression. -/
theorem Expr.induction_on_operands {motive : Expr → Prop} (e : Expr)
    (number : ∀ x, motive (.number x)) (text : ∀ s, motive (.text s))
    (reference : ∀ r, motive (.reference r))
    (unary : ∀ op operand, motive operand → motive (.unary op operand))
    (binary : ∀ op left right, motive left → motive right → motive (.binary op left right))
    (call : ∀ name args, (∀ e ∈ args, motive e) → motive (.call name args)) : motive e :=
  Expr.rec (motive_1 := motive) (motive_2 := fun es => ∀ e ∈ es, motive e) number text reference
    unary binary call (by simp) (fun e es first rest => by simpa using ⟨first, rest⟩) e

/-- What the arguments of a call read is what one of them reads. -/
theorem mem_referencesOfAll {r : Reference} {es : List Expr} :
    r ∈ Expr.referencesOfAll es ↔ ∃ e ∈ es, r ∈ e.references := by
  induction es with
  | nil => simp [Expr.referencesOfAll]
  | cons e es ih => simp [Expr.referencesOfAll, ih]

end Formula

namespace Evaluation

/-! ### Steps with a value -/

section Steps

variable {env : Environment}

/-- An argument of a call: literal text by itself, another expression by its value. -/
def evalArg (env : Environment) : Expr → Except EvalError Arg
  | .text s => .ok (.text s)
  | e => (eval env e).map Arg.number

/-- The arguments from the first on, in the form in which the proofs below take them apart. It hides
that literal text is not evaluated. -/
theorem evalArgs_cons (env : Environment) (e : Expr) (es : List Expr) :
    evalArgs env (e :: es) = do return (← evalArg env e) :: (← evalArgs env es) := by
  cases e with
  -- Text is not evaluated, so it takes the equation of its own.
  | text s =>
      rw [evalArgs]
      cases evalArgs env es <;> rfl
  | _ =>
      rw [evalArgs, evalArg]
      · cases eval env _ <;> cases evalArgs env es <;> rfl
      all_goals exact fun _ text => nomatch text

/-- Both operands have values where an operation does. -/
theorem eval_binary_eq_ok_iff {op : BinaryOp} {left right : Expr} {v : Float} :
    eval env (.binary op left right) = .ok v ↔
      ∃ x y, eval env left = .ok x ∧ eval env right = .ok y ∧ applyBinary op x y = .ok v := by
  rw [eval]
  cases eval env left <;> cases eval env right <;> simp

/-- A sign never fails by itself. -/
theorem eval_unary_eq_ok_iff {op : UnaryOp} {operand : Expr} {v : Float} :
    eval env (.unary op operand) = .ok v ↔
      ∃ x, eval env operand = .ok x ∧ applyUnary op x = v := by
  rw [eval]
  cases eval env operand <;> simp

/-- A call has a value only when all its arguments do: no function is called without them. -/
theorem exists_evalArgs_of_eval_call {name : String} {args : List Expr} {v : Float}
    (h : eval env (.call name args) = .ok v) : ∃ values, evalArgs env args = .ok values := by
  rw [eval] at h
  cases hargs : evalArgs env args with
  | error fault => rw [hargs] at h; exact nomatch h
  | ok values => exact ⟨values, rfl⟩

/-- Arguments have values when the first and the others do. -/
theorem evalArgs_cons_eq_ok_iff {e : Expr} {es : List Expr} {values : List Arg} :
    evalArgs env (e :: es) = .ok values ↔
      ∃ a as, evalArg env e = .ok a ∧ evalArgs env es = .ok as ∧ a :: as = values := by
  rw [evalArgs_cons]
  cases evalArg env e <;> cases evalArgs env es <;> simp [bind, Except.bind, pure, Except.pure]

/-- An argument that has a value and reads anything is evaluated. -/
theorem exists_eval_of_evalArg {e : Expr} {a : Arg} (h : evalArg env e = .ok a) {r : Reference}
    (hr : r ∈ e.references) : ∃ x, eval env e = .ok x := by
  unfold evalArg at h
  split at h
  · exact nomatch hr
  · cases he : eval env e with
    | error fault => rw [he] at h; exact nomatch h
    | ok x => exact ⟨x, rfl⟩

end Steps

variable {chain chain' : Chain} {functions : Registry} {context : Context}

/-! ### Nothing else is read -/

/-- An argument depends on nothing but its own evaluation. -/
theorem evalArg_congr {env env' : Environment} {e : Expr} (h : eval env e = eval env' e) :
    evalArg env e = evalArg env' e := by
  cases e with
  | text s => rfl
  | _ =>
      rw [evalArg, evalArg, h]
      all_goals exact fun _ text => nomatch text

/-- Nor do the arguments together. -/
theorem evalArgs_congr {env env' : Environment} {args : List Expr}
    (h : ∀ e ∈ args, eval env e = eval env' e) : evalArgs env args = evalArgs env' args := by
  induction args with
  | nil => rfl
  | cons e es ih =>
      have ⟨first, rest⟩ := List.forall_mem_cons.1 h
      rw [evalArgs_cons, evalArgs_cons, evalArg_congr first, ih rest]

/-- Chains that answer the references of an expression alike give it the same value, or the same
error. -/
theorem eval_congr {e : Expr} (h : Chain.AgreeOn e.references context chain chain') :
    eval ⟨chain, functions, context⟩ e = eval ⟨chain', functions, context⟩ e := by
  induction e using Expr.induction_on_operands with
  | number x => rw [eval, eval]
  | text s => rw [eval, eval]
  | reference r =>
      rw [eval, eval]
      exact h r (List.mem_singleton.2 rfl)
  | unary op operand ih => rw [eval, eval, ih h]
  | binary op left right ihLeft ihRight =>
      have hleft := ihLeft (h.mono (List.subset_append_left _ _))
      have hright := ihRight (h.mono (List.subset_append_right _ _))
      rw [eval, eval, hleft, hright]
  | call name args ih =>
      -- The name of the function is looked up in the registry, never in the chain.
      have hargs : evalArgs ⟨chain, functions, context⟩ args =
          evalArgs ⟨chain', functions, context⟩ args :=
        evalArgs_congr fun e he =>
          ih e he (h.mono fun r hr => Formula.mem_referencesOfAll.2 ⟨e, he, hr⟩)
      rw [eval, eval, hargs]

/-! ### Nothing is left out -/

/-- Among arguments with values each one that reads anything was evaluated. -/
theorem exists_eval_of_evalArgs {env : Environment} {args : List Expr} {values : List Arg}
    (h : evalArgs env args = .ok values) {e : Expr} (he : e ∈ args) {r : Reference}
    (hr : r ∈ e.references) : ∃ x, eval env e = .ok x := by
  induction args generalizing values with
  | nil => exact nomatch he
  | cons first rest ih =>
      obtain ⟨a, as, hfirst, hrest, -⟩ := evalArgs_cons_eq_ok_iff.1 h
      cases List.mem_cons.1 he with
      | inl same => exact exists_eval_of_evalArg (same ▸ hfirst) hr
      | inr later => exact ih hrest later

/-- In an evaluation with a value every reference of the expression has a value. -/
theorem resolve_of_eval {env : Environment} {e : Expr} {v : Float} (h : eval env e = .ok v) :
    ∀ r ∈ e.references, ∃ x, env.chain.resolve r env.context = .ok x := by
  induction e using Expr.induction_on_operands generalizing v with
  | number x => exact fun r hr => nomatch hr
  | text s => exact fun r hr => nomatch hr
  | reference r =>
      intro r' hr
      rw [eval] at h
      exact ⟨v, List.mem_singleton.1 hr ▸ h⟩
  | unary op operand ih =>
      obtain ⟨x, hx, -⟩ := eval_unary_eq_ok_iff.1 h
      exact ih hx
  | binary op left right ihLeft ihRight =>
      obtain ⟨x, y, hx, hy, -⟩ := eval_binary_eq_ok_iff.1 h
      intro r hr
      cases List.mem_append.1 hr with
      | inl hleft => exact ihLeft hx r hleft
      | inr hright => exact ihRight hy r hright
  | call name args ih =>
      obtain ⟨values, hvalues⟩ := exists_evalArgs_of_eval_call h
      intro r hr
      obtain ⟨e, he, hr⟩ := Formula.mem_referencesOfAll.1 hr
      obtain ⟨x, hx⟩ := exists_eval_of_evalArgs hvalues he hr
      exact ih e he hx r hr

/-! ### A failure is passed on -/

/-- If the arguments that read `r` now fail with its error and the others are what they were, the
first one that reads `r` decides. Arguments are evaluated from the left. -/
theorem evalArgs_of_failing {env env' : Environment} {args : List Expr} {values : List Arg}
    {r : Reference} {fault : EvalError} (h : evalArgs env args = .ok values)
    (hr : r ∈ Expr.referencesOfAll args)
    (failing : ∀ e ∈ args, ∀ x, eval env e = .ok x → r ∈ e.references →
      eval env' e = .error fault)
    (others : ∀ e ∈ args, r ∉ e.references → eval env' e = eval env e) :
    evalArgs env' args = .error fault := by
  induction args generalizing values with
  | nil => exact nomatch hr
  | cons e es ih =>
      obtain ⟨a, as, hfirst, hrest, -⟩ := evalArgs_cons_eq_ok_iff.1 h
      have ⟨failsFirst, failsRest⟩ := List.forall_mem_cons.1 failing
      have ⟨othersFirst, othersRest⟩ := List.forall_mem_cons.1 others
      rw [evalArgs_cons]
      -- The arguments before the first that reads `r` have the values that they had.
      by_cases here : r ∈ e.references
      · obtain ⟨x, hx⟩ := exists_eval_of_evalArg hfirst here
        have fails : evalArg env' e = .error fault := by
          unfold evalArg
          split
          · exact nomatch here
          · rw [failsFirst x hx here]
            rfl
        rw [fails]
        rfl
      · have later : r ∈ Expr.referencesOfAll es := (List.mem_append.1 hr).resolve_left here
        rw [evalArg_congr (othersFirst here), hfirst, ih hrest later failsRest othersRest]
        rfl

/-- An evaluation with a value ends with the error of a reference as soon as this one reference
fails. -/
theorem eval_of_failsOnlyAt {r : Reference} {fault : EvalError} {e : Expr} {v : Float}
    (differ : Chain.FailsOnlyAt r fault context chain chain')
    (h : eval ⟨chain, functions, context⟩ e = .ok v) (hr : r ∈ e.references) :
    eval ⟨chain', functions, context⟩ e = .error fault := by
  induction e using Expr.induction_on_operands generalizing v with
  | number x => exact nomatch hr
  | text s => exact nomatch hr
  | reference r' =>
      obtain rfl := List.mem_singleton.1 hr
      rw [eval]
      exact differ.fails
  | unary op operand ih =>
      obtain ⟨x, hx, -⟩ := eval_unary_eq_ok_iff.1 h
      rw [eval, ih hx hr]
  | binary op left right ihLeft ihRight =>
      obtain ⟨x, y, hx, hy, -⟩ := eval_binary_eq_ok_iff.1 h
      rw [eval]
      -- The left operand comes first; without `r` in it, it has the value that it had.
      by_cases inLeft : r ∈ left.references
      · rw [ihLeft hx inLeft]
      · have inRight : r ∈ right.references := (List.mem_append.1 hr).resolve_left inLeft
        rw [eval_congr (differ.agreeOn inLeft), hx]
        simp only [ihRight hy inRight]
  | call name args ih =>
      obtain ⟨values, hvalues⟩ := exists_evalArgs_of_eval_call h
      rw [eval, evalArgs_of_failing hvalues hr (fun e he x hx here => ih e he hx here)
        fun e he unread => eval_congr (differ.agreeOn unread)]

/-! ### Formula texts -/

/-- A formula is evaluated as the expression that it is read as. -/
theorem evalFormula_of_parse {formula : String} {e : Expr} (h : Formula.parse formula = .ok e)
    (env : Environment) : evalFormula env formula = eval env e := by
  unfold evalFormula
  rw [h]

/-- The evaluation of a formula reads exactly the references that the scan lists. The result depends
on no other; with a value for the formula each of them has one; and with a failure of any one of
them the formula has no value, in place of a value there was it is the error of that reference. -/
theorem evalFormula_reads_referencesOf {formula : String} {e : Expr}
    (parsed : Formula.parse formula = .ok e) :
    ∃ rs, Formula.referencesOf formula = .ok rs ∧
      ∀ (functions : Registry) (context : Context),
        (∀ chain chain', Chain.AgreeOn rs context chain chain' →
          evalFormula ⟨chain, functions, context⟩ formula =
            evalFormula ⟨chain', functions, context⟩ formula) ∧
        (∀ chain v, evalFormula ⟨chain, functions, context⟩ formula = .ok v →
          ∀ r ∈ rs, ∃ x, chain.resolve r context = .ok x) ∧
        (∀ chain chain', ∀ r ∈ rs, ∀ fault, Chain.FailsOnlyAt r fault context chain chain' →
          (∃ fault', evalFormula ⟨chain', functions, context⟩ formula = .error fault') ∧
          ∀ v, evalFormula ⟨chain, functions, context⟩ formula = .ok v →
            evalFormula ⟨chain', functions, context⟩ formula = .error fault) := by
  refine ⟨_, Formula.referencesOf_of_parse parsed, fun functions context => ⟨?_, ?_, ?_⟩⟩
  · intro chain chain' agree
    rw [evalFormula_of_parse parsed, evalFormula_of_parse parsed]
    exact eval_congr (agree.mono fun r hr => Collection.mem_sortDistinct.2 hr)
  · intro chain v h r hr
    rw [evalFormula_of_parse parsed] at h
    exact resolve_of_eval h r (Collection.mem_sortDistinct.1 hr)
  · intro chain chain' r hr fault differ
    have hr := Collection.mem_sortDistinct.1 hr
    rw [evalFormula_of_parse parsed, evalFormula_of_parse parsed]
    constructor
    · cases h : eval ⟨chain', functions, context⟩ e with
      | error fault' => exact ⟨fault', rfl⟩
      | ok v =>
          -- A value for the formula would be a value for `r`.
          obtain ⟨x, hx⟩ := resolve_of_eval h r hr
          exact nomatch hx.symm.trans differ.fails
    · exact fun v h => eval_of_failsOnlyAt differ h hr

set_option maxRecDepth 20000 in
/-- The branch that `IF` does not take is read all the same. -/
theorem evalFormula_reads_untaken_branch :
    let context : Context := ⟨"E1", 1, 1, 0⟩
    let chain : Chain := [Provider.fixed (.ofList [("A", 1.0), ("B", 2.0)])]
    let fault := EvalError.gap "ledger" (.bare "B") .notYetComputed
    evalFormula ⟨chain, .standard, context⟩ "IF(A,A,B)" = .ok 1.0 ∧
      evalFormula ⟨Chain.refusal (.bare "B") fault :: chain, .standard, context⟩ "IF(A,A,B)" =
        .error fault := by
  have parsed : Formula.parse "IF(A,A,B)" = .ok
      (.call "IF" [.reference (.bare "A"), .reference (.bare "A"), .reference (.bare "B")]) := by
    cbv
  have listed : Formula.referencesOf "IF(A,A,B)" = .ok [.bare "A", .bare "B"] := by cbv
  obtain ⟨rs, hrs, reads⟩ := evalFormula_reads_referencesOf parsed
  obtain rfl : [.bare "A", .bare "B"] = rs := Except.ok.inj (listed.symm.trans hrs)
  intro context chain fault
  have value : evalFormula ⟨chain, .standard, context⟩ "IF(A,A,B)" = .ok 1.0 := by
    rw [evalFormula_of_parse parsed]
    with_unfolding_all rfl
  have differ := Chain.failsOnlyAt_refusal (.bare "B") fault context chain
  obtain ⟨-, -, failing⟩ := reads .standard context
  exact ⟨value, (failing _ _ _ (by simp) _ differ).2 _ value⟩

end Evaluation

end Rollforward
