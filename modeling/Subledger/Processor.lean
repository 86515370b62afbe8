/-
  THE PROCESSOR: a transaction is applied, then journalled, then announced.

  The three steps can fail one by one.  A transaction that was applied but could not be journalled
  waits in `pending` with the times it got; submitting it again or `flush` tries it again.  Since
  the journal takes a transaction once, trying again is always safe.  An announcement that fails is
  told to the caller and not repeated.  Where the journal has no number left (`Index.append`) the
  program stops within the call; here the envelope waits, as after any other failure.

  What is out of order around a call is handed to it as an `Outage`, transaction by transaction, so
  that any pattern of failures is an argument like another.
-/
import Subledger.Bus
import Subledger.Journal.Basic
import Subledger.Ledger.Book
import Subledger.Text.Quoted

namespace Subledger

/-- What is out of order while a call runs. -/
structure Outage where
  /-- Why the envelope of a transaction cannot be journalled, if it cannot. -/
  journal : TransactionId → Option IoFailure
  /-- Can a transaction be announced? -/
  reachable : TransactionId → Bool

/-- Everything is in order. -/
def Outage.none : Outage := ⟨fun _ => Option.none, fun _ => true⟩

/-- Why a transaction did not get through. -/
inductive ProcessError where
  /-- The book refused it; nothing was applied or journalled. -/
  | ledger (cause : LedgerError)
  /-- It is applied but not journalled, and is pending. -/
  | persistence (id : TransactionId) (cause : JournalError)
  /-- It is journalled but not announced. -/
  | publish (id : TransactionId) (cause : BusError)
  deriving DecidableEq, Repr

/-- The wording of an error. -/
def ProcessError.message : ProcessError → String
  | .ledger cause => cause.message
  | .persistence id cause => s!"transaction {id.text} applied but not logged: {cause.message}"
  | .publish id cause =>
    s!"transaction {id.text} logged but not published: {Text.quoted cause.message}"

/-- What came of a submission. -/
structure Receipt where
  outcome : Outcome
  /-- The number in the journal, if this call put the transaction there. -/
  sequence : Option Nat
  deriving DecidableEq, Repr

/-- A book with its journal, its bus, and what waits for the journal. -/
structure Processor where
  book : Book
  journal : Journal
  bus : Bus
  /-- Applied transactions that are not journalled yet, by name. -/
  pending : Table TransactionId Envelope

/-- The topic of the announcements. -/
def transactionsTopic : String := "ledger.transactions"

namespace Processor

/-- A processor at its start. -/
def start (book : Book) (journal : Journal) : Processor := ⟨book, journal, .empty, .empty⟩

/-- The names of what waits, in order. -/
def pendingIds (p : Processor) : List TransactionId := p.pending.keys

/-- Journals an envelope, or puts it among what waits. -/
def appendOrPark (o : Outage) (p : Processor) (e : Envelope) :
    Except ProcessError Record × Processor :=
  match p.journal.appendUnder (o.journal e.id) e with
  | (.ok ack, j) => (.ok ⟨ack.sequence, e⟩, { p with journal := j })
  | (.error cause, j) =>
    (.error (.persistence e.id cause), { p with journal := j, pending := p.pending.insert e.id e })

/-- The announcement of a record: its canonical bytes under the name of its transaction. -/
def announcement (r : Record) : Message :=
  ⟨transactionsTopic, r.id.text, Json.canonicalBytes r⟩

/-- Announces a record. -/
def announce (o : Outage) (p : Processor) (r : Record) : Except ProcessError Processor :=
  match p.bus.publish (o.reachable r.id) (announcement r) with
  | .ok (_, bus) => .ok { p with bus := bus }
  | .error cause => .error (.publish r.id cause)

/-- Journals and announces an envelope whose transaction came to `outcome`. -/
def record (o : Outage) (p : Processor) (outcome : Outcome) (e : Envelope) :
    Except ProcessError Receipt × Processor :=
  match p.appendOrPark o e with
  | (.error err, p) => (.error err, p)
  | (.ok r, p) =>
    match p.announce o r with
    | .ok p => (.ok ⟨outcome, some r.sequence⟩, p)
    | .error err => (.error err, p)

/-- Submits a transaction.  One that is applied now gets the time `now`; one that was applied before
    is only journalled if it still waits, with the times it got then. -/
def submit (o : Outage) (now : Instant) (p : Processor) (t : Transaction) (eventTime : Instant) :
    Except ProcessError Receipt × Processor :=
  match p.book.execute t with
  | .error cause => (.error (.ledger cause), p)
  | .ok (.applied, book) => { p with book := book }.record o .applied ⟨eventTime, now, t⟩
  | .ok (.alreadyApplied, _) =>
    match p.pending.find? t.id with
    | none => (.ok ⟨.alreadyApplied, none⟩, p)
    | some e => { p with pending := p.pending.erase t.id }.record o .alreadyApplied e

/-- Journals envelopes one after the other, up to the first that fails; `done` counts them.
    An announcement that fails does not stop it. -/
def flushAll (o : Outage) (done : Nat) (p : Processor) :
    List Envelope → Except ProcessError Nat × Processor
  | [] => (.ok done, p)
  | e :: es =>
    match p.appendOrPark o e with
    | (.error err, p) => (.error err, p)
    | (.ok r, p) =>
      let p := { p with pending := p.pending.erase r.id }
      let p := match p.announce o r with
        | .ok p => p
        | .error _ => p
      p.flushAll o (done + 1) es

/-- Tries everything that waits again, in the order of the names; the answer is how many got
    through. -/
def flush (o : Outage) (p : Processor) : Except ProcessError Nat × Processor :=
  p.flushAll o 0 p.pending.values

end Processor
end Subledger
