import Rollforward.Provider.Domain
import Rollforward.Provider.RawInput

/-!
# `Rollforward.Proofs.Provider.Target`: what there is at the time that a reference looks at

A series, a calendar and another domain are read in the same way: the reference is followed to its
time, and what stands there is the answer. A time that the clock does not have and a time at which
nothing stands are one to the reader, and the error names the nearest time on the clock. So all that
counts of them is what they have on the clock (`Clock.read?`). `Context.lookUp` is the way in which
a series and a calendar are read (`Series.resolve_eq`, `Provider.rawPeriod_eq`). A domain has an
error of its own for the period at hand (`Provider.resolve_domain_of_read?_eq_none`).
-/

set_option autoImplicit false

namespace Rollforward

open Formula (Namespace Reference)

/-! ### Times -/

namespace Clock

/-- The clock has the time. -/
def Has (t : Int) : Prop := lowest ≤ t ∧ t ≤ highest

instance (t : Int) : Decidable (Has t) := inferInstanceAs (Decidable (_ ∧ _))

/-- A shift that stays on the clock is a sum. -/
theorem shift?_of_has {t offset : Int} (has : Has (t + offset)) :
    shift? t offset = some (t + offset) :=
  if_pos has

/-- A time that the clock has is the nearest to itself. -/
theorem clamp_of_has {t : Int} (has : Has t) : clamp t = t := by
  obtain ⟨low, high⟩ := has
  unfold clamp
  omega

/-- Two steps are one. -/
theorem shift?_add (t i offset : Int) : shift? (t + i) offset = shift? t (i + offset) := by
  unfold shift?
  rw [Int.add_assoc]

section Reading

variable {β γ : Type} {f : Int → Option β} {t : Int}

/-- What `f` has at a time, if the clock has the time. -/
def read? (f : Int → Option β) (t : Int) : Option β := if Has t then f t else none

/-- On the clock nothing is lost. -/
theorem read?_of_has (has : Has t) : read? f t = f t := if_pos has

/-- Off the clock there is nothing to find. -/
theorem read?_of_not_has (off : ¬Has t) : read? f t = none := if_neg off

/-- Only what is known of the time itself matters. -/
theorem read?_congr {g : Int → Option β} (h : f t = g t) : read? f t = read? g t := by
  rw [read?, read?, h]

/-- What is found was there, at a time on the clock. -/
theorem read?_eq_some_iff {v : β} : read? f t = some v ↔ Has t ∧ f t = some v := by
  unfold read?
  split <;> simp_all

/-- To follow an offset is to read at the time that it leads to. -/
theorem bind_shift? (t offset : Int) (f : Int → Option β) :
    (shift? t offset).bind f = read? f (t + offset) := by
  by_cases has : Has (t + offset)
  · rw [shift?_of_has has, Option.bind_some, read?_of_has has]
  · have off : shift? t offset = none := if_neg has
    rw [off, Option.bind_none, read?_of_not_has has]

/-- What is looked up in what was read might as well be looked up first. -/
theorem read?_bind (f : Int → Option β) (g : β → Option γ) (t : Int) :
    read? (fun u => (f u).bind g) t = (read? f t).bind g := by
  unfold read?
  split <;> rfl

end Reading

end Clock

/-! ### Reading at the time of a reference -/

/-- A reference whose time is on the clock is about that time. -/
theorem targetTime_of_has {r : Reference} {context : Context}
    (has : Clock.Has (context.time + r.offset)) :
    targetTime r context = .ok (context.time + r.offset) := by
  have shifted : context.shift? r.offset = some (context.time + r.offset) :=
    Clock.shift?_of_has has
  rw [targetTime, shifted]

/-- A reference whose time is off the clock fails with the time on it that comes nearest. -/
theorem targetTime_of_not_has {r : Reference} {context : Context}
    (off : ¬Clock.Has (context.time + r.offset)) :
    targetTime r context =
      .error (.unavailable r (Clock.clamp (context.time + r.offset))) := by
  have shifted : context.shift? r.offset = none := if_neg off
  rw [targetTime, shifted]

/-- What `f` has at the time that a reference looks at. -/
def Context.lookUp {β : Type} (context : Context) (f : Int → Option β) (r : Reference) :
    Except EvalError β :=
  match targetTime r context with
  | .error e => .error e
  | .ok t =>
    match f t with
    | some v => .ok v
    | none => .error (.unavailable r t)

namespace Context

variable {β : Type} {context : Context} {f : Int → Option β} {r : Reference}

/-- What is found is the answer. -/
theorem lookUp_of_read?_eq_some {v : β}
    (found : Clock.read? f (context.time + r.offset) = some v) :
    context.lookUp f r = .ok v := by
  obtain ⟨has, found⟩ := Clock.read?_eq_some_iff.1 found
  rw [lookUp, targetTime_of_has has]
  simp only [found]

/-- Whether the clock has the time or not, the nearest that it has is reported. -/
theorem lookUp_of_read?_eq_none (absent : Clock.read? f (context.time + r.offset) = none) :
    context.lookUp f r =
      .error (.unavailable r (Clock.clamp (context.time + r.offset))) := by
  by_cases has : Clock.Has (context.time + r.offset)
  · rw [Clock.read?_of_has has] at absent
    rw [lookUp, targetTime_of_has has, Clock.clamp_of_has has]
    simp only [absent]
  · rw [lookUp, targetTime_of_not_has has]

/-- Nothing but what there is at that time counts. -/
theorem lookUp_congr (context : Context) {g : Int → Option β} (h : f (context.time + r.offset) =
    g (context.time + r.offset)) : context.lookUp f r = context.lookUp g r := by
  have same := Clock.read?_congr h
  cases found : Clock.read? f (context.time + r.offset) with
  | none =>
      rw [lookUp_of_read?_eq_none found, lookUp_of_read?_eq_none (same.symm.trans found)]
  | some v =>
      rw [lookUp_of_read?_eq_some found, lookUp_of_read?_eq_some (same.symm.trans found)]

end Context

/-- The value of a code at a time is that of its snapshot. -/
theorem Series.value?_eq_bind (s : Series) (t : Int) (code : String) :
    s.value? t code = (s.get? t).bind fun values => values.get? code := by
  unfold value?
  cases s.get? t <;> rfl

/-- A series answers with what it has at the time that a reference looks at. -/
theorem Series.resolve_eq (s : Series) (r : Reference) (context : Context) :
    s.resolve r context = context.lookUp (fun t => s.value? t r.code) r := by
  unfold resolve Context.lookUp
  cases targetTime r context with
  | error e => rfl
  | ok t =>
      dsimp only
      cases s.value? t r.code <;> rfl

/-- A series is asked for one value at most. Series that agree there answer alike, on the clock or
off it. -/
theorem Series.resolve_congr {s s' : Series} {r : Reference} {context : Context}
    (h : s.value? (context.time + r.offset) r.code = s'.value? (context.time + r.offset) r.code) :
    s.resolve r context = s'.resolve r context := by
  rw [resolve_eq, resolve_eq]
  exact context.lookUp_congr h

namespace Provider

/-- Raw inputs are read in the period at hand, or in the one that the calendar has. -/
theorem rawPeriod_eq (calendar : Calendar) (r : Reference) (context : Context) :
    rawPeriod calendar r context =
      if r.offset = 0 then .ok context.period else context.lookUp calendar.get? r := by
  unfold rawPeriod Context.lookUp
  split
  · rfl
  · cases targetTime r context with
    | error e => rfl
    | ok t =>
        dsimp only
        cases calendar.get? t <;> rfl

/-- Calendars that agree at the time that a reference looks at give it the same period. A reference
to the period at hand does not look at the calendar. -/
theorem rawPeriod_congr {calendar calendar' : Calendar} {r : Reference} {context : Context}
    (agree : r.offset ≠ 0 → calendar'.get? (context.time + r.offset) =
      calendar.get? (context.time + r.offset)) :
    rawPeriod calendar' r context = rawPeriod calendar r context := by
  rw [rawPeriod_eq, rawPeriod_eq]
  by_cases now : r.offset = 0
  · rw [if_pos now, if_pos now]
  · rw [if_neg now, if_neg now, context.lookUp_congr (agree now)]

section Domain

variable {written : String} {series : Series} {r : Reference} {context : Context}

/-- Another domain answers with what it has at the time that a reference looks at. -/
theorem resolve_domain_of_read?_eq_some {v : Float}
    (found : Clock.read? (fun t => series.value? t r.code) (context.time + r.offset) = some v) :
    (domain written series).resolve r context = .ok v := by
  obtain ⟨has, found⟩ := Clock.read?_eq_some_iff.1 found
  simp only [domain, targetTime_of_has has, found]

/-- Where a domain has nothing, it is unavailable at another time and a gap in the period at
hand. -/
theorem resolve_domain_of_read?_eq_none (onClock : Clock.Has context.time)
    (absent : Clock.read? (fun t => series.value? t r.code) (context.time + r.offset) = none) :
    (domain written series).resolve r context =
      .error (if r.offset = 0 then
          .gap (Namespace.ofName written).name r (.noValueAt context.time)
        else .unavailable r (Clock.clamp (context.time + r.offset))) := by
  by_cases has : Clock.Has (context.time + r.offset)
  · rw [Clock.read?_of_has has] at absent
    simp only [domain, targetTime_of_has has, absent, Clock.clamp_of_has has]
    by_cases now : r.offset = 0
    · rw [if_pos now, if_pos now, now, Int.add_zero]
    · rw [if_neg now, if_neg now]
  · -- The clock has the time of the period, so it is another time that it does not have.
    have shifted : r.offset ≠ 0 := by
      intro now
      rw [now, Int.add_zero] at has
      exact has onClock
    simp only [domain, targetTime_of_not_has has, if_neg shifted]

end Domain

end Provider

end Rollforward
