/-
  INSTANTS: seconds counted from 1970-01-01T00:00:00Z, and nanoseconds.

  A leap second has no number of its own: it is the last second of its minute with a billion
  nanoseconds more, so that instants are still ordered by (seconds, nanoseconds).  Days outside the
  years -262143 to 262142 are not represented.  Both rules are part of the type.

  The first rule leaves something out: the calendar library also holds a leap second behind any other
  second of a minute, if the nanoseconds of an instant are set by hand.  No reader makes such an
  instant and no clock shows one.
-/
import Subledger.Instant.Calendar

namespace Subledger

/-- The nanoseconds of a second. -/
def nanosPerSecond : Nat := 1000000000

/-- A point in time, in UTC. -/
structure Instant where
  /-- Whole seconds since 1970-01-01T00:00:00Z. -/
  seconds : Int
  /-- Nanoseconds into the second; from a billion on they are inside a leap second. -/
  nanos : Nat
  nanos_lt : nanos < 2 * nanosPerSecond
  leap_at_minute_end : nanosPerSecond ≤ nanos → seconds % 60 = 59
  first_le : Date.dayNumber ⟨-262143, 1, 1⟩ * 86400 ≤ seconds
  lt_last : seconds < (Date.dayNumber ⟨262142, 12, 31⟩ + 1) * 86400
  deriving DecidableEq, Repr

namespace Instant

/-- The instant of these seconds and nanoseconds, if it is represented. -/
def make? (seconds : Int) (nanos : Nat) : Option Instant :=
  if h : nanos < 2 * nanosPerSecond ∧ (nanosPerSecond ≤ nanos → seconds % 60 = 59) ∧
      Date.dayNumber ⟨-262143, 1, 1⟩ * 86400 ≤ seconds ∧
      seconds < (Date.dayNumber ⟨262142, 12, 31⟩ + 1) * 86400 then
    some ⟨seconds, nanos, h.1, h.2.1, h.2.2.1, h.2.2.2⟩
  else none

/-- 1970-01-01T00:00:00Z. -/
def epoch : Instant := ⟨0, 0, by decide, by decide, by decide, by decide⟩

instance : Inhabited Instant := ⟨epoch⟩

/-- Is `a` strictly before `b`? -/
def isBefore (a b : Instant) : Bool :=
  a.seconds < b.seconds || (a.seconds == b.seconds && a.nanos < b.nanos)

/-- Is `a` before `b` or the same instant? -/
def notAfter (a b : Instant) : Bool := !b.isBefore a

/-- The later of two instants. -/
def latest (a b : Instant) : Instant := if a.isBefore b then b else a

/-- Brings nanoseconds that left their second back into one. -/
def carry (seconds nanos : Int) : Option Instant :=
  make? (seconds + nanos / nanosPerSecond) (nanos % nanosPerSecond).toNat

/-- The instant `millis` thousandths of a second later, or earlier if negative.

    A leap second counts as one second when it is left, forward or backward, and a move of less
    than a second that stays in it, or goes back from it, only changes the nanoseconds. -/
def advance? (t : Instant) (millis : Int) : Option Instant :=
  let whole := millis.tdiv 1000
  let part := millis.tmod 1000 * 1000000
  if t.nanos < nanosPerSecond then carry (t.seconds + whole) (t.nanos + part)
  else if 0 < whole ∨ (0 < part ∧ 2 * nanosPerSecond ≤ t.nanos + part) then
    carry (t.seconds + whole) (t.nanos - nanosPerSecond + part)
  else if whole < 0 then carry (t.seconds + 1 + whole) (t.nanos - nanosPerSecond + part)
  else make? t.seconds (t.nanos + part).toNat

/-- The order of instants is total. -/
theorem notAfter_total (a b : Instant) : a.notAfter b = true ∨ b.notAfter a = true := by
  simp only [notAfter, isBefore, Bool.not_eq_true', Bool.or_eq_false_iff, decide_eq_false_iff_not,
    Bool.and_eq_false_imp, beq_iff_eq]
  omega

/-- Two instants neither of which is before the other are the same. -/
theorem eq_of_notAfter {a b : Instant} (hab : a.notAfter b = true) (hba : b.notAfter a = true) :
    a = b := by
  simp only [notAfter, isBefore, Bool.not_eq_true', Bool.or_eq_false_iff, decide_eq_false_iff_not,
    Bool.and_eq_false_imp, beq_iff_eq] at hab hba
  cases a
  cases b
  simp only [Instant.mk.injEq] at *
  omega

theorem notAfter_trans {a b c : Instant} (hab : a.notAfter b = true) (hbc : b.notAfter c = true) :
    a.notAfter c = true := by
  simp only [notAfter, isBefore, Bool.not_eq_true', Bool.or_eq_false_iff, decide_eq_false_iff_not,
    Bool.and_eq_false_imp, beq_iff_eq] at *
  omega

end Instant
end Subledger
