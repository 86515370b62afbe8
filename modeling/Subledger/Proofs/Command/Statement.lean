/-
  THE STATEMENT, stage by stage.

  1. **Files** (`ofFiles_of_load`) — once the journal is opened, its file plays no part any more.
  2. **The journal** (`ofIndex_eq`) — what is replayed and the date of the report are all that the
     statement takes from journal and request.
  3. **The book** (`ofBook_eq_ok_iff`) — a book gives a statement exactly if it is reconciled and its
     report balances (`Balances`), and the statement is that report with its hash.
-/
import Subledger.Command.Statement
import Subledger.Proofs.Except
import Subledger.Proofs.Text.Utf8

namespace Subledger

namespace Config

/-- A configuration's file holds its text. -/
theorem ofFile_encode (path text : String) :
    ofFile path (.ok (Text.Utf8.encode text.toList)) = ofText text := by
  simp only [ofFile, Except.mapError, bind, Except.bind, Text.Utf8.decode_encode,
    String.ofList_toList]

end Config

namespace Command.Statement

/-- The statement of a request whose journal is opened. -/
theorem ofFiles_of_load (r : Request) (config : Except IoFailure (List UInt8))
    {log : JournalFile} {x : Index} (h : log.load.1 = .ok x) :
    (ofFiles r config log).1
      = ((Config.ofFile r.configPath config).mapError Failure.config >>= fun c =>
        ofIndex c x r.asOf) := by
  rw [ofFiles]
  cases Config.ofFile r.configPath config with
  | error cause => rfl
  | ok c =>
    rcases hload : log.load with ⟨answer, after⟩
    rw [hload] at h
    obtain rfl : answer = .ok x := h
    rfl

/-- The statement of a book at a date. -/
def ofBook (c : Config) (replay : ReplayReport) (book : Book) (date : Instant) :
    Except Failure Statement := do
  book.verifyConservation.mapError .conservation
  let mappings ← c.glMappings.mapError .config
  let report ← (GlReport.ofSnapshot book.snapshot mappings date).mapError .projection
  let _ ← report.trialBalance.mapError .trialBalance
  report.trialBalanceByUnit.mapError .trialBalanceByUnit
  return ⟨replay, report, contentHash report⟩

/-- The statement of a journal is that of the book which is replayed from it. -/
theorem ofIndex_eq (c : Config) (x : Index) (asOf : Option Instant) :
    ofIndex c x asOf = (c.registry.mapError Failure.config >>= fun R =>
      (replayed R x asOf).mapError Failure.replay >>= fun answer =>
        ofBook c answer.1 answer.2 (date asOf answer.1)) := rfl

/-- A book is reconciled, and its report at a date, with the mappings of a configuration, balances:
    over everything and unit by unit. -/
structure Balances (c : Config) (book : Book) (date : Instant) (report : GlReport) : Prop where
  conserved : book.verifyConservation = .ok ()
  projected : ∃ mappings, c.glMappings = .ok mappings ∧
    GlReport.ofSnapshot book.snapshot mappings date = .ok report
  balanced : ∃ difference, report.trialBalance = .ok difference
  balancedByUnit : report.trialBalanceByUnit = .ok ()

/-- **A book gives a statement** exactly if it is reconciled and its report balances. -/
theorem ofBook_eq_ok_iff {c : Config} {replay : ReplayReport} {book : Book} {date : Instant}
    {s : Statement} : ofBook c replay book date = .ok s ↔
      ∃ report, Balances c book date report ∧ s = ⟨replay, report, contentHash report⟩ := by
  constructor
  · intro h
    obtain ⟨⟨⟩, hconserved, h⟩ := bind_eq_ok.mp h
    obtain ⟨mappings, hmappings, h⟩ := bind_eq_ok.mp h
    obtain ⟨report, hreport, h⟩ := bind_eq_ok.mp h
    obtain ⟨difference, hbalanced, h⟩ := bind_eq_ok.mp h
    obtain ⟨⟨⟩, hunits, h⟩ := bind_eq_ok.mp h
    rw [mapError_eq_ok] at hconserved hmappings hreport hbalanced hunits
    exact ⟨report, ⟨hconserved, ⟨mappings, hmappings, hreport⟩, ⟨difference, hbalanced⟩, hunits⟩,
      (Except.ok.inj h).symm⟩
  · rintro ⟨report, ⟨hconserved, ⟨mappings, hmappings, hreport⟩, ⟨difference, hbalanced⟩, hunits⟩,
      rfl⟩
    rw [ofBook, hconserved, hmappings]
    show ((GlReport.ofSnapshot book.snapshot mappings date).mapError Failure.projection >>= _) = _
    rw [hreport]
    show (report.trialBalance.mapError Failure.trialBalance >>= _) = _
    rw [hbalanced, hunits]
    rfl

end Command.Statement
end Subledger
