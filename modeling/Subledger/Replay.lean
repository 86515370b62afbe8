/-
  REPLAY: a book made again from the journal.

  Replay is nothing but applying again: a book takes each transaction once, so history that
  overlaps does no harm, and any refusal means that journal and accounts do not belong together.
  `rebuild` starts from an empty book; `catchUp` goes on with a book from where its checkpoint
  says it was.
-/
import Subledger.Journal.Basic
import Subledger.Ledger.Book
import Subledger.StateStore

namespace Subledger

/-- Why a replay stops. -/
inductive ReplayError where
  | journal (cause : JournalError)
  /-- The book refused the transaction of a record. -/
  | ledger (sequence : Nat) (cause : LedgerError)
  | checkpoint (cause : StateStoreError)
  /-- What is kept under a checkpoint's key is no instant. -/
  | corruptCheckpoint (key reason : String)
  deriving DecidableEq, Repr

/-- The wording of an error. -/
def ReplayError.message : ReplayError → String
  | .journal cause => cause.message
  | .ledger sequence cause => s!"replay of log record {sequence} failed: {cause.message}"
  | .checkpoint cause => cause.message
  | .corruptCheckpoint key reason => s!"checkpoint {key} is unreadable: {reason}"

/-- What a replay did. -/
structure ReplayReport where
  applied : Nat
  /-- Records whose transaction had been applied before. -/
  skipped : Nat
  lastSequence : Option Nat
  /-- The latest knowledge time that was met. -/
  lastKnowledgeTime : Option Instant
  deriving DecidableEq, Repr

namespace ReplayReport

/-- Nothing done. -/
def empty : ReplayReport := ⟨0, 0, none, none⟩

/-- The report with one more record. -/
def add (r : ReplayReport) (record : Record) (outcome : Outcome) : ReplayReport where
  applied := match outcome with
    | .applied => r.applied + 1
    | .alreadyApplied => r.applied
  skipped := match outcome with
    | .applied => r.skipped
    | .alreadyApplied => r.skipped + 1
  lastSequence := some record.sequence
  lastKnowledgeTime := match r.lastKnowledgeTime with
    | none => some record.knowledgeTime
    | some t => some (t.latest record.knowledgeTime)

/-- The tree of a report. -/
def encode (r : ReplayReport) : Json.Value :=
  Json.ofFields [("applied", Json.ofNat r.applied), ("skipped", Json.ofNat r.skipped),
    ("last_sequence", match r.lastSequence with
      | some n => Json.ofNat n
      | none => .null),
    ("last_knowledge_time", match r.lastKnowledgeTime with
      | some t => Json.Canonical.encode t
      | none => .null)]

/-- The text of a report. -/
def text (r : ReplayReport) : String := Json.write r.encode

end ReplayReport

/-- Applies records in order, going on from `report`.  What was applied before a refusal stays. -/
def replayFrom (report : ReplayReport) (b : Book) :
    List Record → Except ReplayError ReplayReport × Book
  | [] => (.ok report, b)
  | r :: rs =>
    match b.execute r.envelope.transaction with
    | .ok (outcome, b) => replayFrom (report.add r outcome) b rs
    | .error cause => (.error (.ledger r.sequence cause), b)

/-- Applies records in order. -/
def replayInto (b : Book) (records : List Record) : Except ReplayError ReplayReport × Book :=
  replayFrom .empty b records

/-- A new book of some accounts with some records applied. -/
def rebuildFrom (registry : Registry) (records : List Record) :
    Except ReplayError (ReplayReport × Book) :=
  match replayInto (.ofRegistry registry) records with
  | (.ok report, b) => .ok (report, b)
  | (.error e, _) => .error e

/-- A new book with the whole journal applied. -/
def rebuild (registry : Registry) (x : Index) : Except ReplayError (ReplayReport × Book) :=
  rebuildFrom registry x.replay

/-- A new book with what was known at an instant. -/
def rebuildAsOf (registry : Registry) (x : Index) (asOf : Instant) :
    Except ReplayError (ReplayReport × Book) :=
  rebuildFrom registry (x.replayAsOf asOf)

/-! ## Catching up from a checkpoint -/

/-- The key under which the checkpoint of a follower is kept. -/
def checkpointKey (name : String) : String := s!"replay.checkpoint.{name}"

/-- The bytes of a checkpoint. -/
def checkpointBytes (t : Instant) : List UInt8 := Text.Utf8.encode t.textNanos.toList

/-- The instant that a checkpoint's bytes spell. -/
def readCheckpoint (key : String) (bytes : List UInt8) : Except ReplayError Instant :=
  match Text.Utf8.decode bytes with
  | .ok cs => (Instant.readStrict cs).mapError fun e => .corruptCheckpoint key e.message
  | .error fault => .error (.corruptCheckpoint key fault.message)

/-- What is out of order while a follower catches up. -/
structure CatchUpOutage where
  replay : Option IoFailure
  store : StoreOutage
  deriving DecidableEq, Repr

/-- A book and the store that holds its checkpoint. -/
structure Follower where
  book : Book
  store : StateStore

/-- Where a follower was: the instant of its checkpoint, if it has one. -/
def Follower.checkpoint (o : CatchUpOutage) (f : Follower) (name : String) :
    Except ReplayError (Option Instant) := do
  let found ← (f.store.getUnder o.store (checkpointKey name)).mapError .checkpoint
  match found with
  | none => return none
  | some bytes => return some (← readCheckpoint (checkpointKey name) bytes)

/-- What a follower has still to apply: everything, or what was learned from its checkpoint on. -/
def Follower.outstanding (o : CatchUpOutage) (f : Follower) (x : Index) (name : String) :
    Except ReplayError (List Record) := do
  let since ← f.checkpoint o name
  let records := match since with
    | some t => x.replaySince t
    | none => x.replay
  (Journal.readUnder o.replay records).mapError .journal

/-- Applies what a follower has not seen, and moves its checkpoint to the latest knowledge time of
    this pass. -/
def Follower.catchUp (o : CatchUpOutage) (f : Follower) (x : Index) (name : String) :
    Except ReplayError ReplayReport × Follower :=
  match f.outstanding o x name with
  | .error e => (.error e, f)
  | .ok records =>
    match replayInto f.book records with
    | (.error e, b) => (.error e, { f with book := b })
    | (.ok report, b) =>
      match report.lastKnowledgeTime with
      | none => (.ok report, { f with book := b })
      | some t =>
        match f.store.putUnder o.store (checkpointKey name) (checkpointBytes t) with
        | .ok store => (.ok report, ⟨b, store⟩)
        | .error e => (.error (.checkpoint e), { f with book := b })

end Subledger
