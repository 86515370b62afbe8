/-
  THE INDEX: the records of a journal, in the order in which they were added.

  A transaction is journalled once: adding an envelope of a name that is there already answers with
  the number it has.  Replay does not follow the order of adding: what was learned late but
  journalled early, or the other way round, is replayed where it was learned.

  Numbers are counted in sixty-four bits, and those of a file may be any that these hold.  Behind a
  record with the greatest of them no number is left: the program checks its arithmetic, and stops
  there.  Here such an addition fails and changes nothing.  What is found by a caller who catches
  the stop and goes on is left out, and so is a build that does not check and would go on from zero.
-/
import Subledger.Journal.Error
import Subledger.Journal.Record

namespace Subledger

/-- The answer to an addition. -/
inductive Ack where
  | appended (sequence : Nat)
  /-- The transaction is journalled under this number; nothing was added. -/
  | duplicate (sequence : Nat)
  deriving DecidableEq, Repr

/-- The number that an answer gives. -/
def Ack.sequence : Ack → Nat
  | .appended n => n
  | .duplicate n => n

/-- The records of a journal in the order of adding. -/
structure Index where
  records : List Record
  deriving DecidableEq, Repr

namespace Index

/-- No records. -/
def empty : Index := ⟨[]⟩

/-- The number under which a transaction is journalled. -/
def sequenceOf? (x : Index) (id : TransactionId) : Option Nat :=
  (x.records.find? fun r => r.id == id).map Record.sequence

/-- The number of the next record: one more than the last record has.  Sixty-four bits may not hold it,
    and then it is given to none. -/
def nextSequence (x : Index) : Nat :=
  match x.records.getLast? with
  | some r => r.sequence + 1
  | none => 1

/-- The records and one more. -/
def push (x : Index) (r : Record) : Index := ⟨x.records ++ [r]⟩

/-- Adds an envelope under the next number, if there is one left, unless its transaction is there. -/
def append (x : Index) (e : Envelope) : Except IoFailure (Ack × Index) :=
  match x.sequenceOf? e.id with
  | some n => .ok (.duplicate n, x)
  | none =>
    if x.nextSequence ≤ Json.Number.maxNatural then
      .ok (.appended x.nextSequence, x.push ⟨x.nextSequence, e⟩)
    else .error .noNumberLeft

/-- The records in the order of replay. -/
def replay (x : Index) : List Record := x.records.mergeSort Record.replaysBefore

/-- What was learned at `t` or later, in the order of replay. -/
def replaySince (x : Index) (t : Instant) : List Record :=
  x.replay.filter fun r => t.notAfter r.knowledgeTime

/-- What was known at `t`, in the order of replay. -/
def replayAsOf (x : Index) (t : Instant) : List Record :=
  x.replay.filter fun r => r.envelope.knownAt t

/-- Takes the lines of a file in, counted from `n`.  Blank lines are passed over, and of records of
    one transaction the first is kept. -/
def load (x : Index) (n : Nat) : List (List UInt8) → Except JournalError Index
  | [] => .ok x
  | line :: lines =>
    if line.all Text.isAsciiSpace then x.load (n + 1) lines
    else
      match (Json.parseBytes line : Except Json.Error Record) with
      | .error _ => .error (.corrupt n)
      | .ok r => if (x.sequenceOf? r.id).isSome then x.load (n + 1) lines
        else (x.push r).load (n + 1) lines

/-- The index of a file's lines. -/
def ofLines (lines : List (List UInt8)) : Except JournalError Index := empty.load 1 lines

end Index
end Subledger
