/-
  LIVE AND REPLAYED: the statement of a file is that of the book that wrote it.

  1. **The journal** (`replay_run`) — once nothing waits, the journal of a processor is replayed as the
     book that the processor has, and the last reading of the clock is the date of the replay.
  2. **The result** (`statement_eq_live`) — with the file opened as the journal that it is
     (`Processor.load_run`), the statement that is made from the two files is the one that the book
     would give on the spot, and there is none exactly if the book gives none.
-/
import Subledger.Proofs.Command.AsOf
import Subledger.Proofs.Journal.Recovery
import Subledger.Proofs.Processor.File
import Subledger.Proofs.Replay.AsOf

namespace Subledger

/-- Of strictly increasing instants the last is the latest. -/
theorem Instant.isLatest_getLast {ts : List Instant} {t : Instant}
    (hstrict : ts.Pairwise fun s t => s.isBefore t = true) (ht : ts.getLast? = some t) :
    IsLatest (some t) ts :=
  ⟨List.mem_of_getLast? ht, fun _ hs => notAfter_getLast hstrict ht hs⟩

/-- The journal of a processor is replayed as its book, and dated with the last reading. -/
theorem Processor.replay_run {r : Registry} {p : Processor} (h : Fresh r p) {cs : List Call}
    (hstrict : (p.readings cs).Pairwise fun s t => s.isBefore t = true)
    (hpending : (p.run cs).pendingIds = []) {last : Instant}
    (hlast : (p.readings cs).getLast? = some last) :
    ∃ report, rebuild (p.run cs).book.registry (p.run cs).journal.index
        = .ok (report, (p.run cs).book) ∧ report.lastKnowledgeTime = some last := by
  obtain ⟨report, hrebuild⟩ := rebuild_run h hstrict hpending
  refine ⟨report, hrebuild, ?_⟩
  have htimes : (p.run cs).journal.index.replay.map Record.knowledgeTime = p.readings cs := by
    rw [readings, ← replay_eq_learned h hstrict hpending, List.map_map]
    rfl
  exact (isLatest_of_rebuildFrom hrebuild).unique (Instant.isLatest_getLast hstrict hlast)
    (List.Perm.of_eq htimes)

namespace Command.Statement

/-- **The statement of a file is that of the book that wrote it.**  Take a configuration's text, and a
    processor with the accounts of it and a journal in a file that does not exist yet.  Let it run
    through any submissions and flushes, whatever is out of order around them, such that the clock
    never shows one instant twice nor goes back, something is applied, and nothing waits in the
    end.  Then the statement made from the two files, as of no moment in particular, is the report of
    the book at the last reading of the clock, with its hash, if the book is reconciled and this
    report balances; and otherwise there is none.  The journal's file stays as it is. -/
theorem statement_eq_live {text : String} {c : Config} {R : Registry} {p : Processor}
    {f : JournalFile} {cs : List Processor.Call} {last : Instant} (hconfig : Config.ofText text = .ok c)
    (hregistry : c.registry = .ok R) (hfresh : Processor.Fresh R p)
    (hfile : p.journal.medium = .file f) (habsent : f.state = .absent)
    (hroutine : ∀ call ∈ cs, call.Routine)
    (hstrict : (p.readings cs).Pairwise fun s t => s.isBefore t = true)
    (hlast : (p.readings cs).getLast? = some last) (hpending : (p.run cs).pendingIds = [])
    (configPath logPath : String) :
    ∃ g replay, (p.run cs).journal.medium = .file g ∧
      (ofFiles ⟨configPath, logPath, none⟩ (.ok (Text.Utf8.encode text.toList)) g).2 = g ∧
      ∀ s, (ofFiles ⟨configPath, logPath, none⟩ (.ok (Text.Utf8.encode text.toList)) g).1 = .ok s ↔
        ∃ report, Balances c (p.run cs).book last report ∧
          s = ⟨replay, report, contentHash report⟩ := by
  obtain ⟨g, hg, hload⟩ := Processor.load_run hfresh hfile habsent hroutine
  obtain ⟨replay, hrebuild, htime⟩ := Processor.replay_run hfresh hstrict hpending hlast
  rw [Processor.registry_run hroutine, hfresh.book] at hrebuild
  refine ⟨g, replay, hg, ?_, ?_⟩
  · rw [ofFiles, Config.ofFile_encode, hconfig]
    dsimp only
    rw [hload]
  · intro s
    have hdate : date none replay = last := by
      rw [date, htime]
      rfl
    have hreplayed : replayed R (p.run cs).journal.index none = .ok (replay, (p.run cs).book) :=
      hrebuild
    rw [ofFiles_of_load _ _ (congrArg Prod.fst hload), Config.ofFile_encode, hconfig]
    show ofIndex c (p.run cs).journal.index none = .ok s ↔ _
    rw [ofIndex_eq, hregistry]
    show ((replayed R (p.run cs).journal.index none).mapError Failure.replay >>= _) = .ok s ↔ _
    rw [hreplayed]
    show ofBook c replay (p.run cs).book (date none replay) = .ok s ↔ _
    rw [hdate, ofBook_eq_ok_iff]

end Command.Statement

/-! ## A sample run -/

namespace Sample

/-- A new processor of the four accounts, with a file. -/
def filedProcessor : Processor := .start (.ofRegistry registry) .ofNewFile

/-- At noon a transfer that cannot be journalled; in the evening two at once that can be; then what
    waits is journalled. -/
def filedRun : List Processor.Call :=
  [.submit diskFull noon (transfer firstId alice bob threeTenths) .epoch,
    .submit .none evening passingOn .epoch,
    .flush .none]

end Sample

namespace Command.Statement

open Sample

/-- The journal has the two transactions in the wrong order; its statement is that of the evening. -/
theorem statement_eq_live_filed :
    ∃ g s, (filedProcessor.run filedRun).journal.medium = .file g ∧
      (ofFiles ⟨"config", "journal", none⟩
        (.ok (Text.Utf8.encode (Json.canonical config).toList)) g).1 = .ok s ∧
      Balances config (filedProcessor.run filedRun).book evening s.report ∧
      s.hash = contentHash s.report := by
  have hroutine : ∀ call ∈ filedRun, call.Routine := by
    intro call hcall
    rcases List.mem_cons.mp hcall with rfl | hcall
    · trivial
    rcases List.mem_cons.mp hcall with rfl | hcall
    · trivial
    rw [List.mem_singleton.mp hcall]
    trivial
  have hreadings : filedProcessor.readings filedRun = [noon, evening] := by decide
  have hstrict : (filedProcessor.readings filedRun).Pairwise fun s t => s.isBefore t = true := by
    rw [hreadings]
    decide
  obtain ⟨g, replay, hg, -, hlive⟩ := statement_eq_live ofText_config (by decide)
    (p := filedProcessor) ⟨rfl, rfl, rfl⟩ rfl rfl hroutine hstrict (congrArg List.getLast? hreadings)
    (by decide) "config" "journal"
  -- the book gives a statement
  have hbook : (ofBook config .empty (filedProcessor.run filedRun).book evening).toOption.isSome
      = true := by decide +kernel
  cases hs : ofBook config .empty (filedProcessor.run filedRun).book evening with
  | error cause =>
    rw [hs] at hbook
    cases hbook
  | ok s =>
    obtain ⟨report, hbalances, -⟩ := ofBook_eq_ok_iff.mp hs
    exact ⟨g, _, hg, (hlive _).mpr ⟨report, hbalances, rfl⟩, hbalances, rfl⟩

end Command.Statement
end Subledger
