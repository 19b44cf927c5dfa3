import Rollforward.Text.Basic

/-!
# `Rollforward.Formula.Reference`: the quantities that formulas read

A reference names a code, perhaps in a namespace, perhaps at another time. `CASH[t-1]` is the cash
of the period before, `pl:NET` an item of the domain `pl`, `rawinput:PRICE` a raw input.
-/

set_option autoImplicit false

namespace Rollforward.Formula

/-- Where a prefixed reference is read from. -/
inductive Namespace where
  | rawInput
  | domain (name : String)
  deriving Repr, DecidableEq

namespace Namespace

/-- The namespace that a prefix names. Case is ignored for ASCII letters and blanks around the
prefix are dropped; `driver` is an older name for `rawinput`. -/
def ofName (written : String) : Namespace :=
  let name := (Text.trim written).toLower
  if name = "rawinput" ∨ name = "driver" then .rawInput else .domain name

/-- The one name under which the namespace is printed. -/
def name : Namespace → String
  | .rawInput => "rawinput"
  | .domain name => name

end Namespace

/-- A code to be read, `offset` periods from now. Without a namespace it may name an item of the
template at hand. -/
structure Reference where
  source : Option Namespace
  code : String
  offset : Int
  deriving Repr, DecidableEq

namespace Reference

/-- The code itself, in this period and without a namespace. -/
def bare (code : String) : Reference := ⟨none, code, 0⟩

/-- Whether the reference has no namespace. -/
def isUnqualified (r : Reference) : Bool := r.source.isNone

/-- The `[t±n]` after a code, left out when the offset is zero. -/
def offsetText (offset : Int) : String :=
  if offset = 0 then ""
  else if 0 < offset then "[t+" ++ toString offset.natAbs ++ "]"
  else "[t-" ++ toString offset.natAbs ++ "]"

/-- The reference as a formula writes it. -/
def text (r : Reference) : String :=
  (match r.source with
    | some space => space.name ++ ":"
    | none => "")
    ++ r.code ++ offsetText r.offset

/-- References without a namespace come first, then raw inputs, then the domains by name. -/
def sourceRank (r : Reference) : Nat :=
  match r.source with
  | none => 0
  | some .rawInput => 1
  | some (.domain _) => 2

/-- The name of the domain, empty for the other references. -/
def domainName (r : Reference) : String :=
  match r.source with
  | some (.domain name) => name
  | _ => ""

/-- By namespace, then by code, then by offset. -/
def order (a b : Reference) : Ordering :=
  (compare a.sourceRank b.sourceRank).then <|
    (compare a.domainName b.domainName).then <|
      (compare a.code b.code).then (compare a.offset b.offset)

instance : Ord Reference := ⟨order⟩

/-- The order compares one part after the other, so it is as good as the orders of the parts. -/
theorem order_eq_compareLex :
    order = compareLex (compareOn sourceRank) (compareLex (compareOn domainName)
      (compareLex (compareOn code) (compareOn offset))) := rfl

instance : Std.TransOrd Reference := by
  show Std.TransCmp order
  rw [order_eq_compareLex]
  infer_instance

/-- References that are not told apart are the same. -/
instance : Std.LawfulEqOrd Reference where
  eq_of_compare {a b} h := by
    obtain ⟨source, code, offset⟩ := a
    obtain ⟨source', code', offset'⟩ := b
    obtain ⟨rank, domain, sameCode, sameOffset⟩ :
        compare (sourceRank ⟨source, code, offset⟩) (sourceRank ⟨source', code', offset'⟩) = .eq ∧
          compare (domainName ⟨source, code, offset⟩) (domainName ⟨source', code', offset'⟩) = .eq ∧
          compare code code' = .eq ∧ compare offset offset' = .eq := by
      change order _ _ = .eq at h
      simpa only [order, Ordering.then_eq_eq] using h
    have sameSource : source = source' := by
      have rank := Std.LawfulEqOrd.eq_of_compare rank
      have domain := Std.LawfulEqOrd.eq_of_compare domain
      -- The rank tells the kinds of namespaces apart, the name tells two domains apart.
      rcases source with _ | _ | name <;> rcases source' with _ | _ | name' <;>
        simp_all [sourceRank, domainName]
    rw [sameSource, Std.LawfulEqOrd.eq_of_compare sameCode,
      Std.LawfulEqOrd.eq_of_compare sameOffset]

end Reference

end Rollforward.Formula
