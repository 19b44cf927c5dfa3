import Rollforward.Provider.Basic

/-!
# `Rollforward.Provider.Domain`: values from outside the statement

Values are given by code for the period at hand (`fixed`), or they are the results of another
domain: an income statement is read from a balance sheet as `pl:NET_INCOME`, in this period or
another (`domain`).
-/

set_option autoImplicit false

namespace Rollforward.Provider

open Formula (Namespace)

/-- The name of a provider of fixed values, unless it is given another. -/
def fixedName : String := "static"

/-- Fixed values, for bare codes in the period at hand. -/
def fixed (values : Snapshot) (name : String := fixedName) : Provider where
  name := name
  claims r := r.isUnqualified && r.offset == 0 && values.contains r.code
  resolve r _ :=
    match values.get? r.code with
    | some v => .ok v
    | none => .error (.unresolved r)

/-- The series of the domain that `written` names. -/
def domain (written : String) (series : Series) : Provider :=
  let space := Namespace.ofName written
  { name := space.name
    claims := fun r => r.source == some space
    resolve := fun r c =>
      match targetTime r c with
      | .error e => .error e
      | .ok t =>
        match series.value? t r.code with
        | some v => .ok v
        | none =>
          .error (if r.offset = 0 then .gap space.name r (.noValueAt t) else .unavailable r t) }

end Rollforward.Provider
