/-
  READING AN INSTANT, in two ways.

  * `Instant.read` is lenient and serves documents: numbers may be short, white space may stand
    around the separators, the year may have a sign, and the offset may be the word UTC.
  * `Instant.readStrict` serves the command line and checkpoints: exactly the fixed form
    `YYYY-MM-DDTHH:MM:SS`, a fraction or none, and an offset.

  Both stop at the first error.  Texts are measured in bytes of UTF-8 where the form asks for a
  number of digits, so that too short a rest is told from a wrong one.
-/
import Subledger.Instant.Basic
import Subledger.Power
import Subledger.Text.Blank
import Subledger.Text.Digits
import Subledger.Text.Utf8

namespace Subledger.Instant

open Subledger.Text

/-- Why a text is no instant. -/
inductive ReadError where
  /-- A character that does not belong here. -/
  | invalid
  /-- The text ends too early. -/
  | short
  /-- Something follows the instant. -/
  | trailing
  /-- A number is too large or too small for its place, or there is no such day. -/
  | outOfRange
  /-- The day exists at its offset but not in UTC. -/
  | impossible
  deriving DecidableEq, Repr

/-- The wording of a reading error. -/
def ReadError.message : ReadError → String
  | .invalid => "input contains invalid characters"
  | .short => "premature end of input"
  | .trailing => "trailing input"
  | .outOfRange => "input is out of range"
  | .impossible => "no possible date and time matching input"

/-- A step reads something off the front of a text and hands on the rest. -/
abbrev Step (α : Type) := List Char → Except ReadError (α × List Char)

/-- The length of a text in bytes. -/
def byteCount (cs : List Char) : Nat := (Utf8.encode cs).length

/-! ## Steps that both ways share -/

/-- One given character. -/
def literal (c : Char) : Step Unit
  | [] => .error .short
  | d :: rest => if d == c then .ok ((), rest) else .error .invalid

/-- Two digits; fewer than two bytes are too short a rest. -/
def twoDigits (cs : List Char) : Except ReadError (Nat × List Char) :=
  if byteCount cs < 2 then .error .short
  else
    match cs with
    | a :: b :: rest =>
      if a.isDigit && b.isDigit then .ok (Digits.value [a, b], rest) else .error .invalid
    | _ => .error .invalid

/-- The sign of an offset: `+`, `-`, or the minus sign proper. -/
def offsetSign : Step Int
  | [] => .error .short
  | '+' :: rest => .ok (1, rest)
  | '-' :: rest => .ok (-1, rest)
  | '\u2212' :: rest => .ok (-1, rest)
  | _ => .error .invalid

/-- The minutes of an offset. -/
def offsetMinutes (cs : List Char) : Except ReadError (Nat × List Char) := do
  let (m, rest) ← twoDigits cs
  if m < 60 then .ok (m, rest) else .error .outOfRange

/-- An offset from UTC in seconds: `Z`, or a sign, hours, what `separator` takes off, minutes. -/
def offset (separator : Step Unit) (cs : List Char) : Except ReadError (Int × List Char) :=
  match cs with
  | 'Z' :: rest => .ok (0, rest)
  | 'z' :: rest => .ok (0, rest)
  | cs => do
    let (sign, cs) ← offsetSign cs
    let (hours, cs) ← twoDigits cs
    let ((), cs) ← separator cs
    let (minutes, cs) ← offsetMinutes cs
    .ok (sign * (hours * 3600 + minutes * 60 : Nat), cs)

/-- The nanoseconds of a fraction, behind its point: nine digits count, further ones are skipped. -/
def fractionDigits : Step Nat
  | [] => .error .short
  | cs =>
    let ds := (cs.takeWhile Char.isDigit).take 9
    if ds.isEmpty then .error .invalid
    else .ok (Digits.value ds * tenTo (9 - ds.length), cs.dropWhile Char.isDigit)

/-- A fraction with its point, or nothing. -/
def optionalFraction (cs : List Char) : Except ReadError (Nat × List Char) :=
  match cs with
  | '.' :: rest => fractionDigits rest
  | cs => .ok (0, cs)

/-- One in second 60, which is a leap second, and zero in any other. -/
def leapOf (second : Nat) : Nat := if second = 60 then 1 else 0

/-- The instant of these seconds and nanoseconds; not every day at an offset is one in UTC. -/
def represented (seconds : Int) (nanos : Nat) : Except ReadError Instant :=
  match make? seconds nanos with
  | some t => .ok t
  | none => .error .impossible

/-- The instant of a local date and time at an offset. -/
def assemble (date : Date) (hour minute second nanos : Nat) (offset : Int) :
    Except ReadError Instant :=
  represented
    (date.dayNumber * 86400
      + (hour * 3600 + minute * 60 + (second - leapOf second) : Nat) - offset)
    (nanos + leapOf second * nanosPerSecond)

/-! ## The lenient way -/

/-- A number of one to `width` digits, as many as there are; `none` stands for any width. -/
def digits (width : Option Nat) (cs : List Char) : Except ReadError (Nat × List Char) :=
  match cs with
  | [] => .error .short
  | cs =>
    let run := cs.takeWhile Char.isDigit
    let ds := match width with | some w => run.take w | none => run
    if ds.isEmpty then .error .invalid
    else if twoTo 63 ≤ Digits.value ds then .error .outOfRange
    else .ok (Digits.value ds, cs.drop ds.length)

/-- A number of one or two digits between `lo` and `hi`, white space before it skipped. -/
def field (lo hi : Nat) (cs : List Char) : Except ReadError (Nat × List Char) := do
  let (n, rest) ← digits (some 2) (trimLeft cs)
  if lo ≤ n ∧ n ≤ hi then .ok (n, rest) else .error .outOfRange

/-- A separator between fields, white space before it skipped. -/
def separator (c : Char) (cs : List Char) : Except ReadError (Unit × List Char) :=
  literal c (trimLeft cs)

/-- A year: up to four digits, or a sign and any number of them. -/
def year (cs : List Char) : Except ReadError (Int × List Char) := do
  let (y, rest) ← match trimLeft cs with
    | '-' :: rest => (digits none rest).map fun (n, rest) => (-(n : Int), rest)
    | '+' :: rest => (digits none rest).map fun (n, rest) => ((n : Int), rest)
    | rest => (digits (some 4) rest).map fun (n, rest) => ((n : Int), rest)
  if -twoTo 31 ≤ y ∧ y < twoTo 31 then .ok (y, rest) else .error .outOfRange

/-- What may stand between the date and the time. -/
def timeMarks : List Char := ['t', 'T', ' ']

/-- One of the marks between the date and the time.  White space of another kind is none of them,
    although the hour that follows skips it. -/
def timeMark : Step Unit
  | [] => .error .short
  | c :: rest => if timeMarks.contains c then .ok ((), rest) else .error .invalid

/-- Colons and white space between the hours and the minutes of an offset, or nothing. -/
def looseColon : Step Unit := fun cs => .ok ((), cs.dropWhile fun c => c == ':' || isSpace c)

/-- The word UTC in any case, or an offset. -/
def lenientOffset (cs : List Char) : Except ReadError (Int × List Char) :=
  match cs with
  | a :: b :: c :: rest =>
    if a.toLower == 'u' && b.toLower == 't' && c.toLower == 'c' then .ok (0, rest)
    else offset looseColon cs
  | _ => offset looseColon cs

/-- Does the calendar have this date, in a represented year? -/
def hasDate (d : Date) : Bool := d.isValid && -262143 ≤ d.year && d.year ≤ 262142

/-- Reads an instant leniently. -/
def read (cs : List Char) : Except ReadError Instant := do
  let (y, cs) ← year cs
  let ((), cs) ← separator '-' cs
  let (month, cs) ← field 1 12 cs
  let ((), cs) ← separator '-' cs
  let (day, cs) ← field 1 31 cs
  let ((), cs) ← timeMark cs
  let (hour, cs) ← field 0 23 cs
  let ((), cs) ← separator ':' cs
  let (minute, cs) ← field 0 59 cs
  let ((), cs) ← separator ':' cs
  let (second, cs) ← field 0 60 cs
  let (nanos, cs) ← optionalFraction cs
  let (off, cs) ← lenientOffset (trimLeft cs)
  if !(trimLeft cs).isEmpty then .error .trailing
  else if !hasDate ⟨y, month, day⟩ || 86400 ≤ off.natAbs then .error .outOfRange
  else assemble ⟨y, month, day⟩ hour minute second nanos off

/-- Reads an instant leniently from a text. -/
def ofText (s : String) : Except ReadError Instant := read s.toList

/-! ## The strict way -/

/-- A number of exactly `n` digits, where the text is known to be long enough. -/
def fixedDigits (n : Nat) (cs : List Char) : Except ReadError (Nat × List Char) :=
  let ds := cs.take n
  if ds.length = n && ds.all Char.isDigit then .ok (Digits.value ds, cs.drop n)
  else .error .invalid

/-- One of a few characters, where the text is known to be long enough. -/
def oneOf (allowed : List Char) : Step Unit
  | [] => .error .invalid
  | c :: rest => if allowed.contains c then .ok ((), rest) else .error .invalid

/-- Reads an instant strictly. -/
def readStrict (cs : List Char) : Except ReadError Instant := do
  if byteCount cs < 19 then .error .short
  let (y, cs) ← fixedDigits 4 cs
  let ((), cs) ← oneOf ['-'] cs
  let (month, cs) ← fixedDigits 2 cs
  let ((), cs) ← oneOf ['-'] cs
  let (day, cs) ← fixedDigits 2 cs
  if !(Date.mk y month day).isValid then .error .outOfRange
  let ((), cs) ← oneOf timeMarks cs
  let (hour, cs) ← fixedDigits 2 cs
  let ((), cs) ← oneOf [':'] cs
  let (minute, cs) ← fixedDigits 2 cs
  let ((), cs) ← oneOf [':'] cs
  let (second, cs) ← fixedDigits 2 cs
  let (nanos, cs) ← optionalFraction cs
  if 23 < hour || 59 < minute || 60 < second then .error .outOfRange
  let (off, cs) ← offset (literal ':') cs
  if !cs.isEmpty then .error .trailing
  if 86400 ≤ off.natAbs then .error .outOfRange
  assemble ⟨y, month, day⟩ hour minute second nanos off

/-- Reads an instant strictly from a text. -/
def ofStrictText (s : String) : Except ReadError Instant := readStrict s.toList

example : (ofText "2016-12-31 18:59:60.5 -05:00").toOption = make? 1483228799 1500000000 := by
  decide +kernel
example : (ofStrictText "1970-01-01T00:00:00Z").toOption = some epoch := by decide +kernel

end Subledger.Instant
