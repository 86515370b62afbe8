/-
  ENVELOPES AND RECORDS: what the journal is made of.

  An applied transaction is journalled with two times: when it took economic effect and when it
  became known.  The journal gives each envelope a number; an envelope with its number is a record.
-/
import Subledger.Ledger.Transaction

namespace Subledger

/-- A transaction with both its times. -/
structure Envelope where
  /-- When it took economic effect. -/
  eventTime : Instant
  /-- When it became known. -/
  knowledgeTime : Instant
  transaction : Transaction
  deriving DecidableEq, Repr

namespace Envelope

/-- The name of the transaction. -/
def id (e : Envelope) : TransactionId := e.transaction.id

/-- Was it known at `t`, `t` included? -/
def knownAt (e : Envelope) (t : Instant) : Bool := e.knowledgeTime.notAfter t

/-- Was it in effect at `t`, `t` included? -/
def effectiveAt (e : Envelope) (t : Instant) : Bool := e.eventTime.notAfter t

/-- The fields of an envelope's document. -/
def row : Json.Row (Instant × Instant × Transaction × Unit) :=
  .required "event_time" Json.Canonical.decode <|
  .required "knowledge_time" Json.Canonical.decode <|
  .required "payload" Json.Canonical.decode .done

instance : Json.Canonical Envelope where
  encode e := Json.ofFields [("event_time", Json.Canonical.encode e.eventTime),
    ("knowledge_time", Json.Canonical.encode e.knowledgeTime),
    ("payload", Json.Canonical.encode e.transaction)]
  decode v := (row.decode v).map fun (eventTime, knowledgeTime, transaction, ()) =>
    ⟨eventTime, knowledgeTime, transaction⟩

end Envelope

/-- An envelope with its number in the journal. -/
structure Record where
  sequence : Nat
  envelope : Envelope
  deriving DecidableEq, Repr

namespace Record

/-- The name of the transaction. -/
def id (r : Record) : TransactionId := r.envelope.id

/-- When the transaction became known. -/
def knowledgeTime (r : Record) : Instant := r.envelope.knowledgeTime

/-- Is `a` replayed before `b`, or in any order with it?  What was learned earlier comes first, and
    of what was learned at one instant the lower number. -/
def replaysBefore (a b : Record) : Bool :=
  a.knowledgeTime.isBefore b.knowledgeTime ||
    (a.knowledgeTime == b.knowledgeTime && a.sequence ≤ b.sequence)

/-- The fields of a record's document. -/
def row : Json.Row (Nat × Envelope × Unit) :=
  .required "sequence_number" Json.natural <|
  .required "envelope" Json.Canonical.decode .done

instance : Json.Canonical Record where
  encode r := Json.ofFields [("sequence_number", Json.ofNat r.sequence),
    ("envelope", Json.Canonical.encode r.envelope)]
  decode v := (row.decode v).map fun (sequence, envelope, ()) => ⟨sequence, envelope⟩

/-- The byte that ends a line. -/
def newline : UInt8 := 0x0A

/-- The line that a journal file holds for a record. -/
def line (r : Record) : List UInt8 := Json.canonicalBytes r ++ [newline]

end Record
end Subledger
