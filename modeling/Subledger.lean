import Subledger.Account
import Subledger.Attestation
import Subledger.Bus
import Subledger.Command.LogFormat
import Subledger.Command.Request
import Subledger.Command.Statement
import Subledger.Config
import Subledger.Decimal.Arithmetic
import Subledger.Decimal.Basic
import Subledger.Decimal.Binary64
import Subledger.Decimal.Reader
import Subledger.Decimal.Text
import Subledger.Digest
import Subledger.GeneralLedger.Mapping
import Subledger.GeneralLedger.Projection
import Subledger.GeneralLedger.Report
import Subledger.Ident
import Subledger.Instant.Basic
import Subledger.Instant.Calendar
import Subledger.Instant.Reader
import Subledger.Instant.Text
import Subledger.Instrument.Basic
import Subledger.Instrument.Cds
import Subledger.Instrument.Collateral
import Subledger.Instrument.Equity
import Subledger.Instrument.Fx
import Subledger.Instrument.Swaption
import Subledger.Journal.Basic
import Subledger.Journal.Error
import Subledger.Journal.File
import Subledger.Journal.Index
import Subledger.Journal.Record
import Subledger.Json.Basic
import Subledger.Json.Decode
import Subledger.Json.Leaves
import Subledger.Json.Reader
import Subledger.Json.Writer
import Subledger.Ledger.Book
import Subledger.Ledger.Error
import Subledger.Ledger.Registry
import Subledger.Ledger.Snapshot
import Subledger.Ledger.Transaction
import Subledger.Main
import Subledger.Movement
import Subledger.Power
import Subledger.Processor
import Subledger.Replay
import Subledger.StateStore
import Subledger.Table
import Subledger.Text.Blank
import Subledger.Text.Digits
import Subledger.Text.Hex
import Subledger.Text.Quoted
import Subledger.Text.Unseen
import Subledger.Text.Utf8
import Subledger.Uuid
import Subledger.ValueError
import Subledger.Proofs.Decimal.Fit
import Subledger.Proofs.Decimal.Value
import Subledger.Proofs.Decimal.RoundTrip
import Subledger.Proofs.Table
import Subledger.Proofs.Ledger.Posting
import Subledger.Proofs.Ledger.Run
import Subledger.Proofs.Ledger.Conservation
import Subledger.Proofs.Ledger.Reconciliation
import Subledger.Proofs.Ledger.BoundedVolume
import Subledger.Proofs.Ledger.Arrival
import Subledger.Proofs.Ledger.Erasure
import Subledger.Proofs.Journal.Replay
import Subledger.Proofs.Processor.Run
import Subledger.Proofs.Ledger.History
import Subledger.Proofs.Replay.AsOf
import Subledger.Proofs.Text.Digits
import Subledger.Proofs.Text.Utf8
import Subledger.Proofs.Instant.RoundTrip
import Subledger.Proofs.Instant.Document
import Subledger.Proofs.Json.RoundTrip
import Subledger.Proofs.Json.Rows
import Subledger.Proofs.Canonical
import Subledger.Proofs.Bus
import Subledger.Proofs.Bus.ExactlyOnce
import Subledger.Proofs.Bus.History
import Subledger.Proofs.Bus.Round
import Subledger.Proofs.Bus.RoundRobin
import Subledger.Proofs.Bus.Turn
import Subledger.Proofs.Journal.Lines
import Subledger.Proofs.Journal.Reopening
import Subledger.Proofs.Journal.Recovery
import Subledger.Proofs.Replay.CatchUp
import Subledger.Proofs.Replay.Checkpoint
import Subledger.Proofs.Processor.Delivery
import Subledger.Proofs.Processor.Announcements
import Subledger.Proofs.Processor.Publication
import Subledger.Proofs.Replay.Belated
import Subledger.Proofs.Replay.Incremental
import Subledger.Proofs.Processor.Retry
import Subledger.Proofs.Instrument.Naming
import Subledger.Proofs.GeneralLedger.Totals
import Subledger.Proofs.GeneralLedger.Projection
import Subledger.Proofs.GeneralLedger.TrialBalance
import Subledger.Proofs.Command.Statement
import Subledger.Proofs.Journal.Legible
import Subledger.Proofs.Journal.Forgetting
import Subledger.Proofs.Command.AsOf
import Subledger.Proofs.Processor.File
import Subledger.Proofs.Command.Live
import Subledger.Proofs.Json.Checked
import Subledger.Proofs.Construction
import Subledger.Proofs.Unguarded
import Subledger.Proofs.Firsts
import Subledger.Proofs.Ledger.Atomic
import Subledger.Proofs.Replay.Repetition
import Subledger.Proofs.Replay.Cut
import Subledger.Proofs.Journal.Numbering
import Subledger.Proofs.Journal.Ascent
import Subledger.Proofs.Processor.Flush
import Subledger.Proofs.GeneralLedger.Entries
import Subledger.Proofs.Config
import Subledger.Proofs.GeneralLedger.Aggregation
import Subledger.Proofs.GeneralLedger.Position
import Subledger.Proofs.Decimal.Rounding
import Subledger.Proofs.Decimal.Twice
import Subledger.Proofs.Ledger.Snapshot
import Subledger.Proofs.Instrument.Cash
import Subledger.Proofs.Instrument.Acceptance
import Subledger.Proofs.GeneralLedger.Answers
import Subledger.Proofs.Ledger.Registry
import Subledger.Proofs.Ledger.Reversal
import Subledger.Proofs.Instrument.Token
import Subledger.Proofs.Command.Reporting
import Subledger.Proofs.Attestation
import Subledger.Proofs.Amount
