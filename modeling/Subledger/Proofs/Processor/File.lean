/-
  THE FILE OF A PROCESSOR: what it journals can be opened at any moment.

  1. **Additions** (`Intact`) — a journal is in a file that tells its index, and additions keep it so.
  2. **Runs** (`load_run`) — so it is after every run that leaves the file's bytes to the journal, and
     the file is loaded as the index that the processor has.
-/
import Subledger.Proofs.Journal.Reopening
import Subledger.Proofs.Ledger.History
import Subledger.Proofs.Processor.Delivery

namespace Subledger

/-! ## Additions

  The only way from a processor to the bytes of a file is an addition.  So what additions keep holds
  after any run, provided that nothing else writes the file. -/

/-- Only the bytes of a file count, not how many more there may be. -/
theorem JournalFile.Tells.of_state {f g : JournalFile} {x : Index} (h : f.Tells x)
    (hstate : g.state = f.state) : g.Tells x := by
  obtain ⟨state, limit⟩ := g
  obtain rfl : state = f.state := hstate
  exact ⟨h.usable, h.lines⟩

namespace Journal

/-- A journal in a file that tells its index. -/
structure Intact (j : Journal) : Prop where
  filed : ∃ f, j.medium = .file f
  tells : j.Tells

/-- A journal in a file stays in a file. -/
theorem filed_append {j : Journal} (h : ∃ f, j.medium = .file f) (e : Envelope) :
    ∃ f, (j.append e).2.medium = .file f := by
  obtain ⟨x, medium⟩ := j
  obtain ⟨f, hf⟩ := h
  obtain rfl : medium = .file f := hf
  unfold append
  rcases x.append e with cause | ⟨n | n, x'⟩
  · exact ⟨f, rfl⟩
  · dsimp only
    rcases f.append (Record.line ⟨n, e⟩) with ⟨cause | u, f'⟩
    · exact ⟨f', rfl⟩
    · exact ⟨f', rfl⟩
  · exact ⟨f, rfl⟩

/-- An addition leaves a file that tells the new index, and one that fails leaves one that tells the
    old. -/
theorem keptByAdding_intact : Processor.KeptByAdding Intact := by
  intro outage j e h
  cases outage with
  | some cause => exact h
  | none => exact ⟨filed_append h.filed e, h.tells.append e⟩

/-- A new file is told by the journal that is opened from it. -/
theorem intact_of_absent {j : Journal} {f : JournalFile} (hindex : j.index = .empty)
    (hfile : j.medium = .file f) (habsent : f.state = .absent) : j.Intact := by
  refine ⟨⟨f, hfile⟩, ?_⟩
  intro g hg
  obtain rfl := Medium.file.inj (hfile.symm.trans hg)
  have hload : f.load = (.ok .empty, f) := by
    rw [JournalFile.load, habsent]
  exact hindex ▸ JournalFile.tells_of_load hload

end Journal

/-! ## Runs

  The invariant of a run is the one of additions; what happens around the file may stop it from
  being written, but leaves its bytes. -/

namespace Processor

/-- A submission, a flush, or a change from outside that leaves the bytes of the file alone. -/
def Call.Routine : Call → Prop
  | .register _ => False
  | .submit _ _ _ _ => True
  | .flush _ => True
  | .disturb _ file => ∀ f, (file f).state = f.state

/-- Routine calls do not touch the register. -/
theorem registry_step {p : Processor} {c : Call} (h : c.Routine) :
    (p.step c).book.registry = p.book.registry := by
  rw [book_step]
  cases c with
  | register a => exact h.elim
  | submit o now t eventTime => exact p.book.registry_step_execute t
  | flush o => rfl
  | disturb bus file => rfl

/-- The accounts in the end are those from the start. -/
theorem registry_run {p : Processor} {cs : List Call} (h : ∀ c ∈ cs, c.Routine) :
    (p.run cs).book.registry = p.book.registry :=
  run_preserves (fun q => q.book.registry = p.book.registry)
    (fun hc hq => (registry_step hc).trans hq) h rfl

/-- A routine call keeps the file in step with the journal. -/
theorem intact_step {p : Processor} {c : Call} (hc : c.Routine) (h : p.journal.Intact) :
    (p.step c).journal.Intact := by
  apply Journal.keptByAdding_intact.step h
  rintro bus file rfl
  obtain ⟨⟨f, hfile⟩, htells⟩ := h
  have hmapped : p.journal.mapFile file = ⟨p.journal.index, .file (file f)⟩ := by
    rw [Journal.mapFile, hfile]
  rw [hmapped]
  refine ⟨⟨file f, rfl⟩, ?_⟩
  intro g hg
  obtain rfl := Medium.file.inj hg
  exact (htells f hfile).of_state (hc f)

/-- So do any number of them. -/
theorem intact_run {p : Processor} {cs : List Call} (hcs : ∀ c ∈ cs, c.Routine)
    (h : p.journal.Intact) : (p.run cs).journal.Intact :=
  run_preserves (fun q => q.journal.Intact) intact_step hcs h

/-- **The file of a processor is loaded as the index that it has**, after any routine calls. -/
theorem load_run {r : Registry} {p : Processor} (h : Fresh r p) {f : JournalFile}
    (hfile : p.journal.medium = .file f) (habsent : f.state = .absent) {cs : List Call}
    (hroutine : ∀ c ∈ cs, c.Routine) :
    ∃ g, (p.run cs).journal.medium = .file g ∧ g.load = (.ok (p.run cs).journal.index, g) := by
  have hintact := intact_run hroutine (Journal.intact_of_absent h.index hfile habsent)
  obtain ⟨g, hg⟩ := hintact.filed
  exact ⟨g, hg, (hintact.tells g hg).load⟩

end Processor
end Subledger
