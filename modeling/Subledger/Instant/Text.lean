/-
  THE TEXT OF AN INSTANT: `YYYY-MM-DDTHH:MM:SS.fffffffffZ`, in UTC.

  Years outside 0 to 9999 carry a sign, a leap second is second 60, and the fraction has as many
  of 0, 3, 6 or 9 digits as it needs (`text`) or always nine (`textNanos`).
-/
import Subledger.Instant.Basic
import Subledger.Text.Digits

namespace Subledger.Instant

open Subledger.Text

/-- A year of four digits, or a sign and at least four. -/
def yearChars (y : Int) : List Char :=
  if 0 ≤ y ∧ y ≤ 9999 then Digits.padded 4 y.toNat
  else (if y < 0 then '-' else '+') :: Digits.padded 4 y.natAbs

/-- `YYYY-MM-DD`. -/
def dateChars (d : Date) : List Char :=
  yearChars d.year ++ '-' :: Digits.padded 2 d.month ++ '-' :: Digits.padded 2 d.day

/-- `HH:MM:SS` of a second of the day, counting `extra` more seconds in the last place. -/
def clockChars (s extra : Nat) : List Char :=
  Digits.padded 2 (s / 3600) ++ ':' :: Digits.padded 2 (s / 60 % 60) ++
    ':' :: Digits.padded 2 (s % 60 + extra)

/-- The fraction with its point, in the fewest of 0, 3, 6 or 9 digits. -/
def shortFraction (n : Nat) : List Char :=
  if n = 0 then []
  else if n % 1000000 = 0 then '.' :: Digits.padded 3 (n / 1000000)
  else if n % 1000 = 0 then '.' :: Digits.padded 6 (n / 1000)
  else '.' :: Digits.padded 9 n

/-- The fraction with its point, in nine digits. -/
def longFraction (n : Nat) : List Char := '.' :: Digits.padded 9 n

/-- An instant written with a fraction of the given form. -/
def charsWith (fraction : Nat → List Char) (t : Instant) : List Char :=
  dateChars (Date.ofDayNumber (t.seconds / 86400)) ++
    'T' :: clockChars (t.seconds % 86400).toNat (t.nanos / nanosPerSecond) ++
    fraction (t.nanos % nanosPerSecond) ++ ['Z']

/-- The text that documents carry. -/
def text (t : Instant) : String := String.ofList (charsWith shortFraction t)

/-- The text with all nine digits of the fraction. -/
def textNanos (t : Instant) : String := String.ofList (charsWith longFraction t)

example : text epoch = "1970-01-01T00:00:00Z" := by decide +kernel
example : textNanos epoch = "1970-01-01T00:00:00.000000000Z" := by decide +kernel
example : (make? 1483228799 1500000000).map text = some "2016-12-31T23:59:60.500Z" := by
  decide +kernel

end Subledger.Instant
