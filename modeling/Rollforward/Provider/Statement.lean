import Rollforward.Statement.Basic

/-!
# `Rollforward.Provider.Statement`: the items of the statement itself

At other times the items are read from the series. In the period at hand they are read from the
ledger while it is in progress (`statement`), and from its snapshot when it is closed (`snapshot`),
as the rules read them.
-/

set_option autoImplicit false

namespace Rollforward.Provider

/-- The items of a statement: at other times from the series, and in the period at hand from the
ledger, where only items with a formula are claimed. -/
def statement (s : Statement) (current : Ledger) (history : Series) : Provider where
  name := "statement"
  claims r :=
    r.isUnqualified &&
      match s.item? r.code with
      | some i => r.offset != 0 || i.isComputed
      | none => false
  resolve r c :=
    if r.offset = 0 then
      match (s.position? r.code).bind current.get? with
      | some v => .ok v
      | none => .error (.gap "statement" r .notYetComputed)
    else history.resolve r c

/-- A closed period, and the series for other times. -/
def snapshot (current : Snapshot) (history : Series) : Provider where
  name := "snapshot"
  claims r := r.isUnqualified && (r.offset != 0 || current.contains r.code)
  resolve r c :=
    if r.offset = 0 then
      match current.get? r.code with
      | some v => .ok v
      | none => .error (.unresolved r)
    else history.resolve r c

end Rollforward.Provider
