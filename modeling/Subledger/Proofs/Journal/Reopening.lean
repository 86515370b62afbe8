/-
  REOPENING A JOURNAL: the file and the index say the same, at every moment.

  A journal in a file is used like one in memory, and opened again now and then.

  1. **Files** (`JournalFile.Tells`) — a file tells an index if it consists of whole lines from which
     that index is loaded.  Loading makes a file do so, and an addition keeps it so: the line of a
     record is read back as that record, and an addition that fails leaves the lines that were there.
  2. **Runs** (`Tells.after`) — so after any use of a journal its file tells its index, and to open it
     again changes nothing.
  3. **In memory** (`Mirrors`) — a journal of a file without limit and one in memory that hold the same
     answer the same, so the file only adds that the journal survives.

  All of it holds for whatever file is opened, also for one whose numbers end where sixty-four bits do:
  a number that a line could not hold is not given (`append_of_full`).
-/
import Subledger.Proofs.Journal.Lines
import Subledger.Proofs.Ledger.Run

namespace Subledger

open Record (newline)

/-! ## Files

  A file tells an index if it consists of whole lines from which that index is loaded.  The line of
  a record that is written behind the others is read as that record, so additions keep this. -/

namespace JournalFile

/-- The bytes of a file, none if it does not exist. -/
def content (f : JournalFile) : List UInt8 := f.bytes?.getD []

theorem regular_usable (bytes : List UInt8) :
    ∀ cause, FileState.regular bytes ≠ .unusable cause := by
  intro cause h
  cases h

theorem absent_usable : ∀ cause, FileState.absent ≠ .unusable cause := by
  intro cause h
  cases h

/-- A usable file of whole lines, from which the index is loaded. -/
structure Tells (f : JournalFile) (x : Index) : Prop where
  usable : ∀ cause, f.state ≠ .unusable cause
  lines : ∃ lines, (∀ line ∈ lines, newline ∉ line) ∧ f.content = joinLines lines ∧
    Index.ofLines lines = .ok x

variable {f : JournalFile} {x : Index}

/-- Loading such a file gives the index and leaves the file as it is. -/
theorem Tells.load (h : f.Tells x) : f.load = (.ok x, f) := by
  obtain ⟨lines, hlines, hcontent, hload⟩ := h.lines
  obtain ⟨state, limit⟩ := f
  cases state with
  | absent =>
    have hnone : lines = [] := by
      cases lines with
      | nil => rfl
      | cons line lines =>
        rw [joinLines_cons] at hcontent
        exact absurd hcontent.symm (by simp [content, bytes?])
    subst hnone
    obtain rfl := Except.ok.inj hload
    rfl
  | regular bytes =>
    obtain rfl : bytes = joinLines lines := hcontent
    have hcut := cutLines_joinLines hlines (List.not_mem_nil : newline ∉ [])
    rw [List.append_nil] at hcut
    rw [JournalFile.load]
    dsimp only
    rw [hcut, hload]
  | unusable cause => exact absurd rfl (h.usable cause)

/-- Whatever is loaded, the file tells it from then on. -/
theorem tells_of_load {f' : JournalFile} (h : f.load = (.ok x, f')) : f'.Tells x := by
  unfold JournalFile.load at h
  split at h
  · rename_i habsent
    obtain ⟨hempty, rfl⟩ := Prod.mk.inj h
    refine ⟨?_, [], List.forall_mem_nil _, ?_, hempty⟩
    · rw [habsent]
      exact absent_usable
    · rw [content, bytes?, habsent]
      rfl
  · rename_i bytes hbytes
    obtain ⟨hload, rfl⟩ := Prod.mk.inj h
    exact ⟨regular_usable _, _, (newline_not_mem_cutLines bytes).1, rfl, hload⟩
  · cases (Prod.mk.inj h).1

/-- The records of whole lines are loaded; what is torn is cut off. -/
theorem load_records {rs : List Record} (hheld : ∀ r ∈ rs, r.Held)
    (hdistinct : (rs.map Record.id).Nodup) {torn : List UInt8} (htorn : newline ∉ torn)
    (limit : Nat) : (⟨.regular (rs.flatMap Record.line ++ torn), limit⟩ : JournalFile).load
      = (.ok ⟨rs⟩, ⟨.regular (rs.flatMap Record.line), limit⟩) := by
  have hload : Index.ofLines (rs.map Record.body) = .ok ⟨rs⟩ :=
    Index.load_records (x := .empty) hheld hdistinct 1
  rw [JournalFile.load, ← Record.joinLines_bodies]
  dsimp only
  rw [cutLines_joinLines (Record.newline_not_mem_bodies hheld) htorn, hload]

/-- An addition to a usable file extends its bytes, or leaves them if they would be too many. -/
theorem append_of_usable (h : ∀ cause, f.state ≠ .unusable cause) (line : List UInt8) :
    f.append line = f.extend f.content line := by
  obtain ⟨state, limit⟩ := f
  cases state with
  | absent => rfl
  | regular bytes => rfl
  | unusable cause => exact absurd rfl (h cause)

/-- The bytes stay when nothing is added to them. -/
theorem Tells.keep (h : f.Tells x) :
    ({ f with state := .regular f.content } : JournalFile).Tells x :=
  ⟨regular_usable _, h.lines⟩

/-- The line of a record of another transaction adds that record. -/
theorem Tells.extend (h : f.Tells x) {r : Record} (hheld : r.Held)
    (hnew : r.id ∉ x.envelopes.map Envelope.id) :
    ({ f with state := .regular (f.content ++ r.line) } : JournalFile).Tells (x.push r) := by
  obtain ⟨lines, hlines, hcontent, hload⟩ := h.lines
  refine ⟨regular_usable _, lines ++ [r.body], ?_, ?_, ?_⟩
  · intro line hline
    rcases List.mem_append.mp hline with hold | hlast
    · exact hlines line hold
    · rw [List.mem_singleton.mp hlast]
      exact Record.newline_not_mem_body hheld
  · show f.content ++ r.line = _
    rw [hcontent, joinLines_append, joinLines_singleton, Record.line_eq]
  · rw [Index.ofLines] at hload ⊢
    rw [Index.load_append, hload, Except.bind, Index.load_body hheld hnew]

end JournalFile

namespace Journal

/-! ## Runs

  The journal in use and its file are kept in step by every use, so reopening finds what was there.
  -/

/-- What is done with a journal. -/
inductive Use where
  | add (e : Envelope)
  | replay
  | since (t : Instant)
  | asOf (t : Instant)
  | reopen

/-- What a journal answers. -/
inductive Answer where
  | added (result : Except JournalError Ack)
  | listed (records : List Record)
  | reopened (result : Except JournalError Unit)

/-- One use of a journal. -/
def use (j : Journal) : Use → Answer × Journal
  | .add e => (.added (j.append e).1, (j.append e).2)
  | .replay => (.listed j.index.replay, j)
  | .since t => (.listed (j.index.replaySince t), j)
  | .asOf t => (.listed (j.index.replayAsOf t), j)
  | .reopen => (.reopened j.reopen.1, j.reopen.2)

/-- The journal after some uses. -/
def after (j : Journal) : List Use → Journal
  | [] => j
  | u :: us => (j.use u).2.after us

/-- The answers of a journal, one for each use. -/
def answers (j : Journal) : List Use → List Answer
  | [] => []
  | u :: us => (j.use u).1 :: (j.use u).2.answers us

/-- The file, if there is one, tells the index. -/
def Tells (j : Journal) : Prop := ∀ f, j.medium = .file f → f.Tells j.index

/-- A journal that was opened from a file is told by it. -/
theorem tells_ofFile {f f' : JournalFile} {j : Journal} (h : ofFile f = (.ok j, f')) : j.Tells := by
  unfold ofFile at h
  split at h
  · rename_i x f₁ hload
    obtain ⟨hj, rfl⟩ := Prod.mk.inj h
    obtain rfl := Except.ok.inj hj
    intro f hf
    obtain rfl := Medium.file.inj hf
    exact JournalFile.tells_of_load hload
  · cases (Prod.mk.inj h).1

/-- The records of a file's whole lines are opened; what is torn is cut off. -/
theorem ofFile_records {rs : List Record} (hheld : ∀ r ∈ rs, r.Held)
    (hdistinct : (rs.map Record.id).Nodup) {torn : List UInt8} (htorn : newline ∉ torn)
    (limit : Nat) : ofFile ⟨.regular (rs.flatMap Record.line ++ torn), limit⟩
      = (.ok ⟨⟨rs⟩, .file ⟨.regular (rs.flatMap Record.line), limit⟩⟩,
        ⟨.regular (rs.flatMap Record.line), limit⟩) := by
  rw [ofFile, JournalFile.load_records hheld hdistinct htorn]

/-- In memory there is nothing to open again. -/
theorem reopen_memory {m : Journal} (h : m.medium = .memory) : m.reopen = (.ok (), m) := by
  rw [reopen, h]

/-- **Opening the file of a journal again changes nothing.** -/
theorem Tells.reopen {j : Journal} (h : j.Tells) : j.reopen = (.ok (), j) := by
  obtain ⟨index, medium⟩ := j
  cases medium with
  | memory => exact reopen_memory rfl
  | file f =>
    rw [Journal.reopen]
    dsimp only
    rw [(h f rfl).load]

/-! ## Additions

  Appending by its cases: a known name, all numbers given, and a new name, in memory and to a file
  that takes it or not. -/

/-- A name that is in the journal is answered with its number, and nothing changes. -/
theorem append_of_journalled {j : Journal} {e : Envelope} {n : Nat}
    (h : j.index.sequenceOf? e.id = some n) : j.append e = (.ok (.duplicate n), j) := by
  rw [append, Index.append, h]

/-- Where no number is left a new envelope is refused, and neither the records nor the file change. -/
theorem append_of_full {j : Journal} {e : Envelope} (h : j.index.sequenceOf? e.id = none)
    (hfull : Json.Number.maxNatural < j.index.nextSequence) :
    j.append e = (.error (.io .noNumberLeft), j) := by
  rw [append, Index.append, h]
  dsimp only
  rw [if_neg hfull.not_ge]

section Room

variable {x : Index} {e : Envelope} (h : x.sequenceOf? e.id = none)
  (hroom : x.nextSequence ≤ Json.Number.maxNatural)
include h hroom

/-- In memory an addition always succeeds while there is a number for it. -/
theorem append_memory : append ⟨x, .memory⟩ e
    = (.ok (.appended x.nextSequence), ⟨x.push ⟨x.nextSequence, e⟩, .memory⟩) := by
  rw [append, Index.append, h]
  dsimp only
  rw [if_pos hroom]

/-- An addition to a usable file takes place if the file may be as long, and fails otherwise. -/
theorem append_file {f : JournalFile} (husable : ∀ cause, f.state ≠ .unusable cause) :
    append ⟨x, .file f⟩ e =
      if f.allows (f.content.length + (Record.line ⟨x.nextSequence, e⟩).length) then
        (.ok (.appended x.nextSequence), ⟨x.push ⟨x.nextSequence, e⟩,
          .file { f with state := .regular (f.content ++ Record.line ⟨x.nextSequence, e⟩) }⟩)
      else (.error (.io .fileTooLarge), ⟨x, .file { f with state := .regular f.content }⟩) := by
  rw [append, Index.append, h]
  dsimp only
  rw [if_pos hroom]
  dsimp only
  rw [JournalFile.append_of_usable husable, JournalFile.extend]
  generalize f.allows _ = allowed
  cases allowed <;> rfl

/-- So it does to a file that can be used and is not limited. -/
theorem append_unlimited {f : JournalFile} (husable : ∀ cause, f.state ≠ .unusable cause)
    (hlimit : f.limit = 0) :
    append ⟨x, .file f⟩ e = (.ok (.appended x.nextSequence), ⟨x.push ⟨x.nextSequence, e⟩,
      .file { f with state := .regular (f.content ++ Record.line ⟨x.nextSequence, e⟩) }⟩) := by
  have hallowed : ∀ n, f.allows n = true := by
    intro n
    rw [JournalFile.allows, hlimit]
    rfl
  rw [append_file h hroom husable, if_pos (hallowed _)]

end Room

/-- An addition, failed or not, leaves a file that tells the index. -/
theorem Tells.append {j : Journal} (h : j.Tells) (e : Envelope) : (j.append e).2.Tells := by
  obtain ⟨x, medium⟩ := j
  rcases x.append_cases e with ⟨n, hseq, -⟩ | ⟨hseq, hroom, -⟩ | ⟨hseq, hfull, -⟩
  · rw [append_of_journalled hseq]
    exact h
  · cases medium with
    | memory =>
      rw [append_memory hseq hroom]
      exact fun f hf => by cases hf
    | file f =>
      have htells : f.Tells x := h f rfl
      rw [append_file hseq hroom htells.usable]
      split
      · rintro f' hf'
        obtain rfl := Medium.file.inj hf'
        -- there was a number left, so the new line can be read again
        exact htells.extend hroom (Index.sequenceOf?_eq_none_iff.mp hseq)
      · rintro f' hf'
        obtain rfl := Medium.file.inj hf'
        exact htells.keep
  · rw [append_of_full hseq hfull]
    exact h

/-- Whatever a journal is used for, its file goes on telling its index. -/
theorem Tells.use {j : Journal} (h : j.Tells) (u : Use) : (j.use u).2.Tells := by
  cases u with
  | add e => exact h.append e
  | replay => exact h
  | since t => exact h
  | asOf t => exact h
  | reopen =>
    show j.reopen.2.Tells
    rw [h.reopen]
    exact h

/-- After any uses, the file still tells the journal. -/
theorem Tells.after {j : Journal} (h : j.Tells) (uses : List Use) : (j.after uses).Tells := by
  induction uses generalizing j with
  | nil => exact h
  | cons u us ih => exact ih (h.use u)

/-! ## A file and a memory

  The two journals answer alike as long as they hold the same records, and what they answer changes
  both in the same way. -/

/-- A journal of a file without limit, and one in memory that holds the same. -/
structure Mirrors (j m : Journal) : Prop where
  index : j.index = m.index
  memory : m.medium = .memory
  file : ∃ f, j.medium = .file f ∧ f.limit = 0
  tells : j.Tells

/-- Both answer an addition alike, and hold the same after it. -/
theorem Mirrors.append {j m : Journal} (h : Mirrors j m) (e : Envelope) :
    (j.append e).1 = (m.append e).1 ∧ Mirrors (j.append e).2 (m.append e).2 := by
  obtain ⟨x, medium⟩ := j
  obtain ⟨y, medium'⟩ := m
  obtain ⟨hindex, hmemory, ⟨f, hfile, hlimit⟩, htells⟩ := h
  obtain rfl : x = y := hindex
  obtain rfl : medium' = .memory := hmemory
  obtain rfl : medium = .file f := hfile
  rcases x.append_cases e with ⟨n, hseq, -⟩ | ⟨hseq, hroom, -⟩ | ⟨hseq, hfull, -⟩
  · rw [append_of_journalled hseq, append_of_journalled hseq]
    exact ⟨rfl, rfl, rfl, ⟨f, rfl, hlimit⟩, htells⟩
  · have hfile := append_unlimited hseq hroom (htells f rfl).usable hlimit
    have hafter := htells.append e
    rw [append_memory hseq hroom]
    rw [hfile] at hafter ⊢
    exact ⟨rfl, rfl, rfl, ⟨_, rfl, hlimit⟩, hafter⟩
  · rw [append_of_full hseq hfull, append_of_full hseq hfull]
    exact ⟨rfl, rfl, rfl, ⟨f, rfl, hlimit⟩, htells⟩

/-- Both answer alike, whatever they are used for. -/
theorem Mirrors.use {j m : Journal} (h : Mirrors j m) (u : Use) :
    (j.use u).1 = (m.use u).1 ∧ Mirrors (j.use u).2 (m.use u).2 := by
  cases u with
  | add e =>
    obtain ⟨hanswer, hmirrors⟩ := h.append e
    exact ⟨congrArg Answer.added hanswer, hmirrors⟩
  | replay => exact ⟨congrArg (fun x : Index => Answer.listed x.replay) h.index, h⟩
  | since t => exact ⟨congrArg (fun x : Index => Answer.listed (x.replaySince t)) h.index, h⟩
  | asOf t => exact ⟨congrArg (fun x : Index => Answer.listed (x.replayAsOf t)) h.index, h⟩
  | reopen =>
    show Answer.reopened j.reopen.1 = .reopened m.reopen.1 ∧ Mirrors j.reopen.2 m.reopen.2
    rw [h.tells.reopen, reopen_memory h.memory]
    exact ⟨rfl, h⟩

/-- They answer all uses alike and stay in step. -/
theorem Mirrors.answers {j m : Journal} (h : Mirrors j m) (uses : List Use) :
    j.answers uses = m.answers uses ∧ Mirrors (j.after uses) (m.after uses) := by
  induction uses generalizing j m with
  | nil => exact ⟨rfl, h⟩
  | cons u us ih =>
    obtain ⟨hanswer, hmirrors⟩ := h.use u
    obtain ⟨hanswers, hafter⟩ := ih hmirrors
    exact ⟨List.cons_eq_cons.mpr ⟨hanswer, hanswers⟩, hafter⟩

end Journal

/-! ## Two sample files

  What became known first is journalled last, and the journal is opened again in between.  In the
  second file the first record has the greatest number that there is, so nothing can be added. -/

namespace Sample

/-- A transfer that becomes known a minute after the epoch. -/
def news : Envelope :=
  ⟨.epoch, ⟨60, 0, Instant.epoch.nanos_lt, by decide, by decide, by decide⟩,
    transfer firstId alice bob threeTenths⟩

/-- Two transfers that became known at the epoch. -/
def oldNews : Envelope := ⟨.epoch, .epoch, passingOn⟩

end Sample

end Subledger
