import Rollforward.Proofs.Evaluation.Correspondence
import Rollforward.Proofs.Provider.Claims

/-!
# `Rollforward.Proofs.Evaluation.Agreement`: environments that answer alike

Two environments agree on some references when they have the same functions and the same context and
their chains answer these references alike. An expression that reads no others has the same value in
both (`Environment.AgreeOn.eval_eq`). It also asks for the run to be cancelled in both or in neither
(`Environment.AgreeOn.cancels_eq`): whether a call is reached is decided by the values before it.
Both are cases of what environments have in common whose errors merely correspond.
-/

set_option autoImplicit false

namespace Rollforward

open Formula (Expr Reference)

/-- The same provider in front of two chains does not tell them apart. -/
theorem Chain.AgreeOn.cons {rs : List Reference} {context : Context} {c c' : Chain}
    (h : AgreeOn rs context c c') (p : Provider) : AgreeOn rs context (p :: c) (p :: c') := by
  intro r hr
  exact resolve_cons_congr_right (h r hr)

/-! ### Environments -/

/-- The environments differ in their chains at most, and the chains answer `rs` alike. -/
structure Environment.AgreeOn (rs : List Reference) (env env' : Environment) : Prop where
  functions : env.functions = env'.functions
  context : env.context = env'.context
  answers : Chain.AgreeOn rs env.context env.chain env'.chain

namespace Environment.AgreeOn

open Evaluation

variable {rs : List Reference} {env env' : Environment}

/-- To agree is to correspond with the same errors. -/
theorem correspondOn (h : AgreeOn rs env env') : CorrespondOn Eq rs env env' where
  functions := h.functions
  steady := by
    rw [← h.context]
    exact .refl _ _
  answers := by
    intro r hr
    rw [← h.context]
    exact .of_eq (h.answers r hr)

/-- An expression that reads what the environments agree on has the same value in both, or the same
error. -/
theorem eval_eq (h : AgreeOn rs env env') {e : Expr} (reads : e.references ⊆ rs) :
    eval env e = eval env' e :=
  (h.correspondOn.corresponds_eval reads).eq

/-- An expression that reads what the environments agree on asks in both or in neither. -/
theorem cancels_eq (h : AgreeOn rs env env') {e : Expr} (reads : e.references ⊆ rs) :
    cancels env e = cancels env' e :=
  h.correspondOn.cancels_eq reads

end Environment.AgreeOn

end Rollforward
