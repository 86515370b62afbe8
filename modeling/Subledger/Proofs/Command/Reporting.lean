/-
  REPORTING: what the program does to the journal that it reports on.

  The program adds nothing to a journal, but it opens it like a journal that is to be added to, and
  opening cuts off what follows the last newline.

  1. **Opening** (`JournalFile.load_of_bytes`) — what is left are the whole lines.  They are all of
     the file if it ends with a newline or is empty, and only then.
  2. **Opening again** (`JournalFile.load_load`) — what is cut off is not read either, so it makes
     no difference to anybody who opens the file later.
  3. **The result** (`report_keeps_whole_lines`) — a report keeps the whole lines, whatever comes of
     it.  The line of a record to which the newline is still missing is not whole
     (`report_cuts_last_record`).
-/
import Subledger.Proofs.Command.AsOf
import Subledger.Proofs.Journal.Legible

namespace Subledger

open Record (newline)

/-! ## Whole lines -/

/-- Bytes that end with a newline, if there are any. -/
def EndsLine (bs : List UInt8) : Prop := ∀ b ∈ bs.getLast?, b = newline

theorem endsLine_joinLines (lines : List (List UInt8)) : EndsLine (joinLines lines) := by
  intro b hb
  rcases List.eq_nil_or_concat' lines with rfl | ⟨lines, line, rfl⟩
  · cases hb
  · rw [joinLines_append, joinLines_singleton, ← List.append_assoc, List.getLast?_concat] at hb
    exact (Option.some.inj hb).symm

/-- Nothing is cut off exactly if the last line is whole. -/
theorem joinLines_cutLines_eq_iff {bs : List UInt8} :
    joinLines (cutLines bs).1 = bs ↔ EndsLine bs := by
  constructor
  · intro h
    rw [← h]
    exact endsLine_joinLines _
  · intro h
    have hcut := joinLines_cutLines bs
    cases htorn : (cutLines bs).2.getLast? with
    | none => rwa [List.getLast?_eq_none_iff.mp htorn, List.append_nil] at hcut
    | some b =>
      -- the last byte of the torn rest is that of all bytes, which is no newline
      have hlast : bs.getLast? = some b := by
        rw [← hcut, List.getLast?_append, htorn]
        rfl
      have hmem := List.mem_of_getLast? htorn
      rw [h b hlast] at hmem
      exact absurd hmem (newline_not_mem_cutLines bs).2

/-- The lines that are left are cut once more as they were. -/
theorem cutLines_joinLines_cutLines (bs : List UInt8) :
    cutLines (joinLines (cutLines bs).1) = ((cutLines bs).1, []) := by
  have hcut := cutLines_joinLines (newline_not_mem_cutLines bs).1 (List.not_mem_nil : newline ∉ [])
  rwa [List.append_nil] at hcut

/-! ## Opening -/

namespace JournalFile

/-- **Opening a file leaves its whole lines.** -/
theorem load_of_bytes {f : JournalFile} {bs : List UInt8} (h : f.bytes? = some bs) :
    f.load.2 = { f with state := .regular (joinLines (cutLines bs).1) } := by
  obtain ⟨state, limit⟩ := f
  cases state with
  | absent => cases h
  | unusable cause => cases h
  | regular bs' =>
    obtain rfl : bs' = bs := Option.some.inj h
    rfl

/-- So its bytes stay exactly if nothing follows the last newline. -/
theorem bytes_load_iff {f : JournalFile} {bs : List UInt8} (h : f.bytes? = some bs) :
    f.load.2.bytes? = some bs ↔ EndsLine bs := by
  rw [load_of_bytes h, ← joinLines_cutLines_eq_iff]
  exact Option.some_inj

/-- What is no regular file is left alone. -/
theorem load_of_no_bytes {f : JournalFile} (h : f.bytes? = none) : f.load.2 = f := by
  obtain ⟨state, limit⟩ := f
  cases state with
  | absent => rfl
  | unusable cause => rfl
  | regular bs => cases h

/-- **To open a file twice is to open it once.** -/
theorem load_load (f : JournalFile) : f.load.2.load = f.load := by
  obtain ⟨state, limit⟩ := f
  cases state with
  | absent => rfl
  | unusable cause => rfl
  | regular bs =>
    rw [load_of_bytes rfl, load, load]
    dsimp only
    rw [cutLines_joinLines_cutLines]

/-- Opening a file takes no record off its lines. -/
theorem recorded_load (f : JournalFile) : f.load.2.recorded = f.recorded := by
  obtain ⟨state, limit⟩ := f
  cases state with
  | absent => rfl
  | unusable cause => rfl
  | regular bs =>
    show (cutLines (joinLines (cutLines bs).1)).1.filterMap recordOfLine? = _
    rw [cutLines_joinLines_cutLines]
    rfl

end JournalFile

/-! ## The result -/

namespace Command.Statement

/-- The journal's file after a report: it is opened if there is a configuration, and else left
    alone. -/
theorem file_ofFiles (r : Request) (config : Except IoFailure (List UInt8)) (log : JournalFile) :
    (ofFiles r config log).2 = match Config.ofFile r.configPath config with
      | .error _ => log
      | .ok _ => log.load.2 := by
  rw [ofFiles]
  cases Config.ofFile r.configPath config with
  | error cause => rfl
  | ok c =>
    rcases log.load with ⟨_ | _, after⟩ <;> rfl

/-- In both cases it is opened as before, and tells the same records. -/
theorem load_file_ofFiles (r : Request) (config : Except IoFailure (List UInt8))
    (log : JournalFile) : (ofFiles r config log).2.load = log.load ∧
      (ofFiles r config log).2.recorded = log.recorded := by
  rw [file_ofFiles]
  cases Config.ofFile r.configPath config with
  | error cause => exact ⟨rfl, rfl⟩
  | ok c => exact ⟨log.load_load, log.recorded_load⟩

/-- A report depends on nothing of the journal's file but what opening it gives. -/
theorem ofFiles_congr {log log' : JournalFile} (h : log'.load = log.load) (r : Request)
    (config : Except IoFailure (List UInt8)) :
    (ofFiles r config log').1 = (ofFiles r config log).1 := by
  rw [ofFiles, ofFiles, h]
  cases Config.ofFile r.configPath config with
  | error cause => rfl
  | ok c => rfl

/-- **A report keeps the whole lines of the journal.**  Let a report be asked for, with any
    configuration and any journal, and let it succeed or fail.

    * If the configuration cannot be used, the file is left as it is.
    * If it can, the bytes up to the last newline are left, and what follows the last newline is cut
      off, also where it is all of a record.  Nothing else is changed, and no file is made.
    * So the file is left as it is exactly if the configuration cannot be used, or the file is empty
      or ends with a newline.
    * The file tells the same records as before, and whoever opens it or asks for a report gets the
      same answer as without the first report. -/
theorem report_keeps_whole_lines (r : Request) (config : Except IoFailure (List UInt8))
    (log : JournalFile) :
    let after := (ofFiles r config log).2
    (∀ cause, Config.ofFile r.configPath config = .error cause → after = log) ∧
    (∀ c bs, Config.ofFile r.configPath config = .ok c → log.bytes? = some bs →
      ∃ whole torn, bs = whole ++ torn ∧ EndsLine whole ∧ newline ∉ torn ∧
        after = { log with state := .regular whole }) ∧
    (∀ bs, log.bytes? = some bs → (after.bytes? = some bs ↔
      (∃ cause, Config.ofFile r.configPath config = .error cause) ∨ EndsLine bs)) ∧
    (log.bytes? = none → after = log) ∧
    (after.recorded = log.recorded ∧ after.load = log.load) ∧
    ∀ r' config', (ofFiles r' config' after).1 = (ofFiles r' config' log).1 := by
  obtain ⟨hload, hrecorded⟩ := load_file_ofFiles r config log
  have hafter := file_ofFiles r config log
  intro after
  refine ⟨fun cause herror => ?_, fun c bs hok hbytes => ?_, fun bs hbytes => ?_, fun hnone => ?_,
    ⟨hrecorded, hload⟩, ofFiles_congr hload⟩
  · rw [herror] at hafter
    exact hafter
  · rw [hok] at hafter
    exact ⟨_, _, (joinLines_cutLines bs).symm, endsLine_joinLines _,
      (newline_not_mem_cutLines bs).2, hafter.trans (JournalFile.load_of_bytes hbytes)⟩
  · show (ofFiles r config log).2.bytes? = some bs ↔ _
    rw [hafter]
    cases Config.ofFile r.configPath config with
    | error cause => exact iff_of_true hbytes (Or.inl ⟨cause, rfl⟩)
    | ok c =>
      rw [or_iff_right (by rintro ⟨cause, ⟨⟩⟩)]
      exact JournalFile.bytes_load_iff hbytes
  · refine hafter.trans ?_
    cases Config.ofFile r.configPath config with
    | error cause => rfl
    | ok c => exact JournalFile.load_of_no_bytes hnone

end Command.Statement

namespace Sample

/-- The whole journal is reported on. -/
def wholeReport : Command.Request := ⟨"config.json", "log.jsonl", none⟩

/-- A record, all of it, to which the newline is still missing. -/
def unfinished : JournalFile := ⟨.regular (Record.body ⟨1, news⟩), 0⟩

end Sample

open Command.Statement Sample in
/-- Not every report leaves the journal as it is: the record is gone afterwards. -/
theorem Command.Statement.report_cuts_last_record :
    unfinished.bytes?.map Json.parseBytes = some (.ok (⟨1, news⟩ : Record)) ∧
    (ofFiles wholeReport configBytes unfinished).2 = ⟨.regular [], 0⟩ ∧
    ¬ ∀ (r : Request) (config : Except IoFailure (List UInt8)) (log : JournalFile),
      (ofFiles r config log).2.bytes? = log.bytes? := by
  have hheld : Record.Held ⟨1, news⟩ := by decide
  have hconfig : Config.ofFile wholeReport.configPath configBytes = .ok config :=
    (Config.ofFile_encode _ _).trans ofText_config
  have hafter : (ofFiles wholeReport configBytes unfinished).2 = ⟨.regular [], 0⟩ := by
    rw [file_ofFiles, hconfig]
    show unfinished.load.2 = _
    rw [JournalFile.load_of_bytes rfl, cutLines_torn (Record.newline_not_mem_body hheld)]
    rfl
  refine ⟨congrArg some (Record.parseBytes_body hheld), hafter, fun h => ?_⟩
  have hsame := h wholeReport configBytes unfinished
  rw [hafter] at hsame
  have hblank : (Record.body ⟨1, news⟩).all Text.isAsciiSpace = false := Record.body_not_blank
  rw [← Option.some.inj hsame] at hblank
  cases hblank

end Subledger
