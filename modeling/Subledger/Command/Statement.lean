/-
  THE STATEMENT: what the program prints.

  The journal is replayed over the accounts of the configuration, the book must pass its
  reconciliation, and its balances are projected onto the general ledger.  A report that does not
  balance, over everything and unit by unit, is not printed.
-/
import Subledger.Attestation
import Subledger.Command.Request
import Subledger.Config
import Subledger.GeneralLedger.Projection
import Subledger.Replay

namespace Subledger.Command

/-- Why there is no statement. -/
inductive Failure where
  | config (cause : ConfigError)
  | opening (path : String) (cause : JournalError)
  | replay (cause : ReplayError)
  | conservation (cause : LedgerError)
  | projection (cause : GlError)
  | trialBalance (cause : GlError)
  | trialBalanceByUnit (cause : GlError)
  deriving DecidableEq, Repr

/-- What lies behind a journal's error. -/
def journalCauses : JournalError → List String
  | .io cause => [cause.message]
  | .corrupt _ => []

/-- What lies behind a configuration's error. -/
def configCauses : ConfigError → List String
  | .read _ cause => [cause.message]
  | .parse cause => [cause.message]
  | _ => []

/-- What lies behind a replay's error. -/
def replayCauses : ReplayError → List String
  | .ledger _ cause => [cause.message]
  | .journal cause => journalCauses cause
  | _ => []

/-- The wording of a failure, the most general part first. -/
def Failure.chain : Failure → List String
  | .config cause => cause.message :: configCauses cause
  | .opening path cause => s!"opening log {path}" :: cause.message :: journalCauses cause
  | .replay cause => cause.message :: replayCauses cause
  | .conservation cause => ["replayed state violates conservation", cause.message]
  | .projection cause => [cause.message]
  | .trialBalance cause => ["trial balance", cause.message]
  | .trialBalanceByUnit cause => ["trial balance by unit", cause.message]

/-- A balanced report, the hash of its canonical bytes, and how the journal was replayed. -/
structure Statement where
  replay : ReplayReport
  report : GlReport
  hash : ContentHash
  deriving DecidableEq, Repr

namespace Statement

/-- The printed statement: the report's canonical text on one line, its hash on the next. -/
def text (s : Statement) : String := Json.canonical s.report ++ "\n" ++ s.hash.text ++ "\n"

/-- Replays what a request asks for. -/
def replayed (registry : Registry) (x : Index) (asOf : Option Instant) :
    Except ReplayError (ReplayReport × Book) :=
  match asOf with
  | some t => rebuildAsOf registry x t
  | none => rebuild registry x

/-- The date of a report: the one that was asked for, else the last knowledge time that was met,
    else the epoch. -/
def date (asOf : Option Instant) (r : ReplayReport) : Instant :=
  (asOf <|> r.lastKnowledgeTime).getD .epoch

/-- The statement of an opened journal. -/
def ofIndex (c : Config) (x : Index) (asOf : Option Instant) : Except Failure Statement := do
  let registry ← c.registry.mapError .config
  let (replay, book) ← (replayed registry x asOf).mapError .replay
  book.verifyConservation.mapError .conservation
  let mappings ← c.glMappings.mapError .config
  let report ← (GlReport.ofSnapshot book.snapshot mappings (date asOf replay)).mapError .projection
  let _ ← report.trialBalance.mapError .trialBalance
  report.trialBalanceByUnit.mapError .trialBalanceByUnit
  return ⟨replay, report, contentHash report⟩

/-- The statement of a request, from what its two paths lead to, and the journal's file afterwards:
    opening it cuts off a torn last line. -/
def ofFiles (r : Request) (config : Except IoFailure (List UInt8)) (log : JournalFile) :
    Except Failure Statement × JournalFile :=
  match Config.ofFile r.configPath config with
  | .error cause => (.error (.config cause), log)
  | .ok c =>
    match log.load with
    | (.error cause, log) => (.error (.opening r.logPath cause), log)
    | (.ok x, log) => (ofIndex c x r.asOf, log)

end Statement
end Subledger.Command
