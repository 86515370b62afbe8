/-
  RECOVERY: a journal file that was cut off at any byte.

  Additions to a new file write one line after the other, and a crash leaves some first part of these
  bytes, perhaps with a character or a number cut in two.

  1. **What is written** (`Written`) — the file holds the lines of the records, numbered from one on.
     These are the records that were acknowledged (`acknowledged`), in the order of adding.
  2. **What is found again** (`crash_recovery`) — the records whose lines are whole, newline included:
     no line holds a newline inside, so a torn line is never taken for a record.  The torn rest is
     cut off, and additions go on behind the last record.
-/
import Subledger.Proofs.Journal.Reopening

namespace Subledger

open Record (newline)

/-! ## Numbers

  A journal that was new numbers its records from one on, and the first of them are numbered so,
  too. -/

namespace Index

/-- The records are numbered from one on. -/
def Numbered (x : Index) : Prop := x.records.map Record.sequence = List.range' 1 x.records.length

/-- The next number is one more than there are records. -/
theorem Numbered.nextSequence_eq {x : Index} (h : x.Numbered) :
    x.nextSequence = x.records.length + 1 := by
  have hnext : x.nextSequence = 1 + x.records.length := nextSequence_append (x := .empty) h
  rw [hnext, Nat.add_comm]

/-- A record under the next number continues the count. -/
theorem Numbered.push {x : Index} (h : x.Numbered) (e : Envelope) :
    (x.push ⟨x.nextSequence, e⟩).Numbered := by
  rw [Numbered, Index.push, List.map_append, h, List.length_append, List.length_singleton,
    List.range'_concat, h.nextSequence_eq, Nat.one_mul, Nat.add_comm]
  rfl

/-- The first records are numbered from one on, too. -/
theorem Numbered.take {x : Index} (h : x.Numbered) {n : Nat} (hn : n ≤ x.records.length) :
    (⟨x.records.take n⟩ : Index).Numbered := by
  show (x.records.take n).map Record.sequence = List.range' 1 (x.records.take n).length
  rw [List.map_take, h, List.length_take, Nat.min_eq_left hn, List.take_range'_of_length_ge hn]

/-- The numbers of so few records are ones that sixty-four bits hold. -/
theorem Numbered.held {x : Index} (h : x.Numbered)
    (hfew : x.records.length ≤ Json.Number.maxNatural) : ∀ r ∈ x.records, r.Held := by
  intro r hr
  have hmem := List.mem_map_of_mem (f := Record.sequence) hr
  rw [h, List.mem_range'_1] at hmem
  exact (Nat.lt_succ_iff.mp (by omega)).trans hfew

end Index

namespace Journal

/-! ## What is written

  The file of such a journal is determined by its records, byte for byte. -/

/-- The bytes of the journal's file. -/
def bytes (j : Journal) : List UInt8 := (j.file?.map JournalFile.content).getD []

/-- The record that an addition is acknowledged for. -/
def recordOf (e : Envelope) : Except JournalError Ack → List Record
  | .ok (.appended n) => [⟨n, e⟩]
  | _ => []

/-- The records that additions are acknowledged for, in the order of adding. -/
def acknowledged (j : Journal) : List Envelope → List Record
  | [] => []
  | e :: es => recordOf e (j.append e).1 ++ (j.append e).2.acknowledged es

/-- The journal of a new file. -/
def ofNewFile : Journal := ⟨.empty, .file .fresh⟩

/-- A journal whose file, without limit, holds the lines of its records. -/
structure Written (j : Journal) : Prop where
  file : ∃ f, j.medium = .file f ∧ f.limit = 0 ∧ (∀ cause, f.state ≠ .unusable cause) ∧
    f.content = j.index.records.flatMap Record.line
  orderly : j.index.Orderly
  numbered : j.index.Numbered
  few : j.index.records.length ≤ Json.Number.maxNatural

/-- Nothing is written to a new file. -/
theorem written_ofNewFile : Written ofNewFile :=
  ⟨⟨.fresh, rfl, rfl, JournalFile.absent_usable, rfl⟩, Index.orderly_empty, rfl, Nat.zero_le _⟩

/-- What is in the file are the lines of the records. -/
theorem Written.bytes_eq {j : Journal} (h : j.Written) :
    j.bytes = j.index.records.flatMap Record.line := by
  obtain ⟨f, hfile, -, -, hcontent⟩ := h.file
  rw [bytes, file?, hfile]
  exact hcontent

/-- An addition is written down, and acknowledged for what is written. -/
theorem Written.append {j : Journal} (h : j.Written) (e : Envelope) : (j.append e).2.Written ∧
    (j.append e).2.index.records = j.index.records ++ recordOf e (j.append e).1 := by
  obtain ⟨x, medium⟩ := j
  obtain ⟨⟨f, hfile, hlimit, husable, hcontent⟩, horderly, hnumbered, hfew⟩ := h
  obtain rfl : medium = .file f := hfile
  rcases x.append_cases e with ⟨n, hseq, -⟩ | ⟨hseq, hroom, -⟩ | ⟨hseq, hfull, -⟩
  · rw [append_of_journalled hseq]
    exact ⟨⟨⟨f, rfl, hlimit, husable, hcontent⟩, horderly, hnumbered, hfew⟩,
      (List.append_nil _).symm⟩
  · rw [append_unlimited hseq hroom husable hlimit]
    refine ⟨⟨⟨_, rfl, hlimit, JournalFile.regular_usable _, ?_⟩, horderly.push hseq,
      hnumbered.push e, ?_⟩, rfl⟩
    · show f.content ++ _ = (x.records ++ [Record.mk x.nextSequence e]).flatMap Record.line
      rw [List.flatMap_append, List.flatMap_singleton, hcontent]
    · show (x.records ++ [Record.mk x.nextSequence e]).length ≤ _
      rw [List.length_append, List.length_singleton, ← hnumbered.nextSequence_eq]
      exact hroom
  · rw [append_of_full hseq hfull]
    exact ⟨⟨⟨f, rfl, hlimit, husable, hcontent⟩, horderly, hnumbered, hfew⟩,
      (List.append_nil _).symm⟩

/-- After some additions the file holds what was acknowledged. -/
theorem Written.after {j : Journal} (h : j.Written) (es : List Envelope) :
    (j.after (es.map .add)).Written ∧
      (j.after (es.map .add)).index.records = j.index.records ++ j.acknowledged es := by
  induction es generalizing j with
  | nil => exact ⟨h, (List.append_nil _).symm⟩
  | cons e es ih =>
    obtain ⟨hwritten, hrecords⟩ := h.append e
    obtain ⟨hall, hmore⟩ := ih hwritten
    refine ⟨hall, ?_⟩
    show ((j.append e).2.after (es.map .add)).index.records = _
    rw [hmore, hrecords, acknowledged, List.append_assoc]

/-! ## What is found again

  A crash leaves a prefix of the bytes; which records it has depends on how many newlines it has,
  and on nothing else. -/

/-- The journal of a file that holds the lines of these records. -/
def ofRecords (rs : List Record) : Journal :=
  ⟨⟨rs⟩, .file ⟨.regular (rs.flatMap Record.line), 0⟩⟩

/-- The next addition of another transaction gets the number behind the last record. -/
theorem append_ofRecords {rs : List Record} (h : (⟨rs⟩ : Index).Numbered)
    (hroom : rs.length < Json.Number.maxNatural) {e : Envelope}
    (hnew : e.id ∉ (ofRecords rs).envelopes.map Envelope.id) :
    ((ofRecords rs).append e).1 = .ok (.appended (rs.length + 1)) := by
  have hfound : (⟨rs⟩ : Index).sequenceOf? e.id = none := Index.sequenceOf?_eq_none_iff.mpr hnew
  have hnext := h.nextSequence_eq
  rw [ofRecords, append_unlimited hfound (hnext.trans_le hroom) (JournalFile.regular_usable _) rfl,
    hnext]

/-- A file of records that was cut off is opened with those whose lines are whole. -/
theorem ofFile_cut {rs : List Record} (hheld : ∀ r ∈ rs, r.Held)
    (hdistinct : (rs.map Record.id).Nodup) {left : List UInt8}
    (hleft : left <+: rs.flatMap Record.line) :
    ∃ n ≤ rs.length, (∀ i < rs.length, i < n ↔ (rs.take (i + 1)).flatMap Record.line <+: left) ∧
      ∃ f, f = ⟨.regular ((rs.take n).flatMap Record.line), 0⟩ ∧
        ofFile ⟨.regular left, 0⟩ = (.ok (ofRecords (rs.take n)), f) ∧
        ofFile f = (.ok (ofRecords (rs.take n)), f) := by
  rw [← Record.joinLines_bodies] at hleft
  obtain ⟨n, hn, ⟨torn, rfl, htorn⟩, hwhole⟩ :=
    prefix_joinLines (Record.newline_not_mem_bodies hheld) hleft
  rw [List.length_map] at hn hwhole
  rw [← List.map_take, Record.joinLines_bodies] at hwhole ⊢
  -- what is left of the records is as the records were
  have hheldLeft : ∀ r ∈ rs.take n, r.Held := fun r hr => hheld r (List.mem_of_mem_take hr)
  have hdistinctLeft : ((rs.take n).map Record.id).Nodup :=
    hdistinct.sublist ((List.take_sublist n rs).map _)
  refine ⟨n, hn, ?_, _, rfl, ofFile_records hheldLeft hdistinctLeft htorn 0, ?_⟩
  · intro i hi
    rw [hwhole i hi, ← List.map_take, Record.joinLines_bodies]
  · have hagain := ofFile_records hheldLeft hdistinctLeft (List.not_mem_nil : newline ∉ []) 0
    rwa [List.append_nil] at hagain

/-- **A journal file that was cut off at any byte is opened**, and has the acknowledged records whose
    lines are whole, newline included.  The file is left with exactly these lines, opening it again
    changes nothing, and what is added next gets the number behind the last of them, if there is one
    left. -/
theorem crash_recovery (es : List Envelope) {left : List UInt8}
    (hleft : left <+: (ofNewFile.after (es.map .add)).bytes) :
    ∃ n ≤ (ofNewFile.acknowledged es).length,
      (∀ i < (ofNewFile.acknowledged es).length,
        i < n ↔ ((ofNewFile.acknowledged es).take (i + 1)).flatMap Record.line <+: left) ∧
      ∃ j f, ofFile ⟨.regular left, 0⟩ = (.ok j, f) ∧
        j.index.records = (ofNewFile.acknowledged es).take n ∧
        f = ⟨.regular (j.index.records.flatMap Record.line), 0⟩ ∧
        ofFile f = (.ok j, f) ∧
        j.index.records.map Record.sequence = List.range' 1 n ∧
        (n < Json.Number.maxNatural →
          ∀ e, e.id ∉ j.envelopes.map Envelope.id → (j.append e).1 = .ok (.appended (n + 1))) := by
  obtain ⟨hwritten, hrecords⟩ := written_ofNewFile.after es
  have hleft' := hwritten.bytes_eq ▸ hleft
  have hnumbered := hwritten.numbered
  have hfew := hwritten.few
  have hdistinct := hwritten.orderly.distinct
  rw [Index.envelopes, List.map_map] at hdistinct
  -- the records of the index are those that were acknowledged
  generalize (ofNewFile.after (es.map .add)).index = x at *
  obtain ⟨rs⟩ := x
  obtain rfl : rs = ofNewFile.acknowledged es := hrecords
  obtain ⟨n, hn, hwhole, f, hf, hopened, hagain⟩ :=
    ofFile_cut (hnumbered.held hfew) hdistinct hleft'
  have hnumberedLeft := hnumbered.take hn
  have hlength : ((ofNewFile.acknowledged es).take n).length = n := by
    rw [List.length_take, Nat.min_eq_left hn]
  refine ⟨n, hn, hwhole, ofRecords ((ofNewFile.acknowledged es).take n), f, hopened, rfl, hf,
    hagain, ?_, ?_⟩
  · exact hnumberedLeft.trans (by rw [hlength])
  · intro hroom e hnew
    rw [append_ofRecords hnumberedLeft (hlength.trans_lt hroom) hnew, hlength]

/-- Two additions, and a crash in the middle of the second line. -/
theorem crash_recovery_second_line :
    ∃ j f, ofFile ⟨.regular ((ofNewFile.after
        ([Sample.news, Sample.oldNews].map .add)).bytes.take 400), 0⟩ = (.ok j, f) ∧
      ofFile f = (.ok j, f) := by
  obtain ⟨n, -, -, j, f, hopened, -, -, hagain, -⟩ :=
    crash_recovery [Sample.news, Sample.oldNews] (List.take_prefix 400 _)
  exact ⟨j, f, hopened, hagain⟩

end Journal

end Subledger
