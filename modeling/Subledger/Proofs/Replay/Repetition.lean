/-
  REPETITION: what comes twice counts once, wherever a replay stops.

  Records may repeat what the book knows already, or each other, and a repeated name may come with
  other contents.  Only the first record of each new name counts (`firsts`); the others might as well
  not be there.

  1. **The records that count** (`replayFrom_firsts`) — without the others a replay leads to the same
     book, and stops at the same record for the same reason if it stops.
  2. **The report** (`Reports`) — what it tells of the books before and after.  One record keeps it
     (`Reports.add`), so a replay that gets through does (`Reports.of_replayFrom`).
  3. **Getting through** (`replayFrom_of_takes`) — a replay gets through if no transaction is refused,
     and known transactions are not (`Takes.of_known`).
-/
import Subledger.Proofs.Firsts
import Subledger.Proofs.Replay.CatchUp

namespace Subledger

/-! ## The records that count -/

/-- Without the records of known names, and of names that came before, a replay leads to the same
    book and stops at the same record. -/
theorem replayFrom_firsts (b : Book) (rs : List Record) (report report' : ReplayReport) :
    (replayFrom report b (firsts Record.id b.applied rs)).2 = (replayFrom report' b rs).2 ∧
      (replayFrom report b (firsts Record.id b.applied rs)).1.map (fun _ => ())
        = (replayFrom report' b rs).1.map fun _ => () := by
  induction rs generalizing b report report' with
  | nil => exact ⟨rfl, rfl⟩
  | cons r rs ih =>
    by_cases hid : r.id ∈ b.applied
    · have hexec : b.execute r.envelope.transaction = .ok (.alreadyApplied, b) :=
        Book.execute_of_mem hid
      rw [firsts, if_pos hid, replayFrom, hexec]
      exact ih b report _
    · rw [firsts, if_neg hid, replayFrom, replayFrom]
      cases hexec : b.execute r.envelope.transaction with
      | error cause => exact ⟨rfl, rfl⟩
      | ok result =>
        obtain ⟨outcome, m⟩ := result
        cases outcome with
        | alreadyApplied =>
          obtain ⟨hknown, -⟩ := Book.execute_alreadyApplied_iff.mp hexec
          exact absurd (Book.isApplied_iff.mp hknown) hid
        | applied =>
          -- the names that the book knows now are those that were met
          obtain ⟨-, -, balances, -, rfl⟩ := Book.execute_applied_iff.mp hexec
          exact ih ⟨b.registry, balances, r.id :: b.applied⟩ _ _

/-! ## The report -/

/-- What a report tells after records were replayed, of the book before and after. -/
structure ReplayReport.Reports (report : ReplayReport) (b : Book) (rs : List Record) (b' : Book) :
    Prop where
  /-- The book knows the new names besides. -/
  names : b'.applied = ((firsts Record.id b.applied rs).map Record.id).reverse ++ b.applied
  applied : report.applied = (firsts Record.id b.applied rs).length
  total : report.applied + report.skipped = rs.length
  lastSequence : report.lastSequence = rs.getLast?.map Record.sequence
  lastKnowledgeTime : Instant.IsLatest report.lastKnowledgeTime (rs.map Record.knowledgeTime)

namespace ReplayReport.Reports

variable {report report' : ReplayReport} {b m b' : Book} {rs more : List Record}

/-- An empty report is one of no records. -/
theorem empty (b : Book) : ReplayReport.empty.Reports b [] b := ⟨rfl, rfl, rfl, rfl, rfl⟩

/-- The book knows the names of the records that are reported on. -/
theorem mem_applied (h : report.Reports b rs m) (id : TransactionId) :
    id ∈ m.applied ↔ id ∈ b.applied ∨ id ∈ rs.map Record.id := by
  rw [h.names, List.mem_append, List.mem_reverse, mem_keys_firsts]
  tauto

/-- **One more record.** -/
theorem add (h : report.Reports b rs m) {r : Record} {outcome : Outcome}
    (hexec : m.execute r.transaction = .ok (outcome, b')) :
    (report.add r outcome).Reports b (rs ++ [r]) b' := by
  have hlatest := report.isLatest_add h.lastKnowledgeTime r outcome
  have htotal := h.total
  have hknown := h.mem_applied r.id
  cases outcome with
  | applied =>
    obtain ⟨hnew, -, balances, -, rfl⟩ := Book.execute_applied_iff.mp hexec
    rw [Book.isApplied_eq_false_iff] at hnew
    have hfirsts : firsts Record.id b.applied (rs ++ [r])
        = firsts Record.id b.applied rs ++ [r] := by
      rw [firsts_concat, if_neg fun hold => hnew (hknown.mpr hold)]
    refine ⟨?_, ?_, ?_, ?_, ?_⟩
    · rw [hfirsts, List.map_append, List.reverse_append]
      show r.id :: m.applied = _
      rw [h.names]
      rfl
    · rw [hfirsts, List.length_append, ← h.applied]
      rfl
    · show report.applied + 1 + report.skipped = _
      rw [List.length_append, List.length_singleton]
      omega
    · rw [List.getLast?_concat]
      rfl
    · rw [List.map_append]
      exact hlatest
  | alreadyApplied =>
    obtain ⟨hold, rfl⟩ := Book.execute_alreadyApplied_iff.mp hexec
    rw [Book.isApplied_iff] at hold
    have hfirsts : firsts Record.id b.applied (rs ++ [r]) = firsts Record.id b.applied rs := by
      rw [firsts_concat, if_pos (hknown.mp hold), List.append_nil]
    refine ⟨?_, ?_, ?_, ?_, ?_⟩
    · rw [hfirsts]
      exact h.names
    · rw [hfirsts]
      exact h.applied
    · show report.applied + (report.skipped + 1) = _
      rw [List.length_append, List.length_singleton]
      omega
    · rw [List.getLast?_concat]
      rfl
    · rw [List.map_append]
      exact hlatest

/-- **A replay that gets through**, going on from a report. -/
theorem of_replayFrom (h : report.Reports b rs m)
    (hreplay : replayFrom report m more = (.ok report', b')) :
    report'.Reports b (rs ++ more) b' := by
  induction more generalizing report m rs with
  | nil =>
    obtain ⟨hreport, rfl⟩ := Prod.mk.inj hreplay
    obtain rfl := Except.ok.inj hreport
    rwa [List.append_nil]
  | cons r more ih =>
    rw [replayFrom] at hreplay
    cases hexec : m.execute r.envelope.transaction with
    | error cause =>
      rw [hexec] at hreplay
      cases (Prod.mk.inj hreplay).1
    | ok result =>
      obtain ⟨outcome, m'⟩ := result
      rw [hexec] at hreplay
      have hall := ih (h.add hexec) hreplay
      rwa [List.append_assoc, List.singleton_append] at hall

/-- What a replay reports is so. -/
theorem of_replayInto (h : replayInto b rs = (.ok report, b')) : report.Reports b rs b' :=
  (empty b).of_replayFrom h

/-- What is counted as applied are the names that came to the book, each once. -/
theorem exists_new (h : report.Reports b rs b') :
    ∃ new, b'.applied = new ++ b.applied ∧ new.Nodup ∧ (∀ id ∈ new, id ∉ b.applied) ∧
      report.applied = new.length := by
  refine ⟨_, h.names, List.nodup_reverse.mpr (nodup_keys_firsts b.applied rs), ?_, ?_⟩
  · intro id hid
    exact (mem_keys_firsts.mp (List.mem_reverse.mp hid)).1
  · rw [h.applied, List.length_reverse, List.length_map]

/-- Where all names are known, all records are passed over. -/
theorem applied_eq_zero (h : report.Reports b rs b') (hknown : ∀ r ∈ rs, r.id ∈ b.applied) :
    report.applied = 0 := by
  rw [h.applied, firsts_of_known hknown]
  rfl

end ReplayReport.Reports

/-! ## Getting through -/

/-- Known transactions are not refused, and change nothing. -/
theorem Book.Takes.of_known {b : Book} {ts : List Transaction}
    (h : ∀ t ∈ ts, t.id ∈ b.applied) : b.Takes ts b := by
  induction ts with
  | nil => rfl
  | cons t ts ih =>
    obtain ⟨ht, hrest⟩ := List.forall_mem_cons.mp h
    exact ⟨.alreadyApplied, b, Book.execute_of_mem ht, ih hrest⟩

/-- Where the transactions can be gone through, the records are replayed without an error. -/
theorem replayFrom_of_takes {b b' : Book} {rs : List Record}
    (h : b.Takes (rs.map Record.transaction) b') (report : ReplayReport) :
    ∃ report', replayFrom report b rs = (.ok report', b') := by
  induction rs generalizing b report with
  | nil =>
    obtain rfl := h
    exact ⟨report, rfl⟩
  | cons r rs ih =>
    obtain ⟨outcome, m, hexec, hrest⟩ := h
    have hexec' : b.execute r.envelope.transaction = .ok (outcome, m) := hexec
    rw [replayFrom, hexec']
    exact ih hrest (report.add r outcome)

/-- A replay gets through, or goes through the records before the first that is refused. -/
theorem replayInto_cases (b : Book) (rs : List Record) :
    (∃ report b', replayInto b rs = (.ok report, b') ∧ b.Takes (rs.map Record.transaction) b') ∨
      ∃ taken r rest cause report b', rs = taken ++ r :: rest ∧
        replayInto b rs = (.error (.ledger r.sequence cause), b') ∧
        replayInto b taken = (.ok report, b') ∧ b'.execute r.transaction = .error cause := by
  have hnothing : Instant.IsLatest ReplayReport.empty.lastKnowledgeTime [] := rfl
  rcases replayFrom_cases .empty b rs hnothing with
    ⟨report, b', hok, htakes, -⟩ | ⟨taken, r, rest, cause, b', herr, hrs, htakes, hrefused⟩
  · exact Or.inl ⟨report, b', hok, htakes⟩
  · obtain ⟨report, hbefore⟩ := replayFrom_of_takes htakes .empty
    exact Or.inr ⟨taken, r, rest, cause, report, b', hrs, herr, hbefore, hrefused⟩

/-- A replay gets through exactly if the book takes the transactions. -/
theorem replayInto_eq_ok_iff {b b' : Book} {rs : List Record} :
    (∃ report, replayInto b rs = (.ok report, b')) ↔ b.Takes (rs.map Record.transaction) b' := by
  refine ⟨?_, fun h => replayFrom_of_takes h .empty⟩
  rintro ⟨report, hreplay⟩
  rcases replayInto_cases b rs with
    ⟨_, m, hok, htakes⟩ | ⟨_, _, _, _, _, m, -, herr, -⟩
  · rw [hok] at hreplay
    obtain ⟨-, rfl⟩ := Prod.mk.inj hreplay
    exact htakes
  · rw [herr] at hreplay
    cases (Prod.mk.inj hreplay).1

/-- A rebuild is a replay that gets through in a new book. -/
theorem rebuildFrom_eq_ok_iff {R : Registry} {rs : List Record} {report : ReplayReport}
    {b : Book} : rebuildFrom R rs = .ok (report, b) ↔
      replayInto (.ofRegistry R) rs = (.ok report, b) := by
  unfold rebuildFrom
  rcases replayInto (.ofRegistry R) rs with ⟨result, m⟩
  cases result with
  | error e => exact iff_of_false (by rintro ⟨⟩) (by rintro ⟨⟩)
  | ok found => simp

/-- **Repetition does not show in a replay, and a replay stops cleanly.**  Leave out of any records
    those whose transactions the book has applied, or that repeat a name: the replay of the others
    leads to the same book, and stops at the same record for the same reason if it stops.

    If it gets through, the report counts the names that came to the book and the records in all, and
    gives the number of the last record and the latest knowledge time; and the same replay once more
    applies nothing and changes nothing.  If it stops, the book is as the replay of the records
    before has left it. -/
theorem repetition_does_not_show (b : Book) (rs : List Record) :
    ((replayInto b (firsts Record.id b.applied rs)).2 = (replayInto b rs).2 ∧
      (replayInto b (firsts Record.id b.applied rs)).1.map (fun _ => ())
        = (replayInto b rs).1.map fun _ => ()) ∧
    (∀ report b', replayInto b rs = (.ok report, b') →
      (∃ new, b'.applied = new ++ b.applied ∧ new.Nodup ∧ (∀ id ∈ new, id ∉ b.applied) ∧
        report.applied = new.length) ∧
      report.applied + report.skipped = rs.length ∧
      report.lastSequence = rs.getLast?.map Record.sequence ∧
      Instant.IsLatest report.lastKnowledgeTime (rs.map Record.knowledgeTime) ∧
      ∃ again, replayInto b' rs = (.ok again, b') ∧ again.applied = 0) ∧
    ∀ e b', replayInto b rs = (.error e, b') →
      ∃ taken r rest cause report, rs = taken ++ r :: rest ∧ e = .ledger r.sequence cause ∧
        replayInto b taken = (.ok report, b') ∧ b'.execute r.transaction = .error cause := by
  refine ⟨replayFrom_firsts b rs .empty .empty, ?_, ?_⟩
  · intro report b' hreplay
    have hreports := ReplayReport.Reports.of_replayInto hreplay
    have hknown : ∀ r ∈ rs, r.id ∈ b'.applied :=
      fun r hr => (hreports.mem_applied r.id).mpr (Or.inr (List.mem_map_of_mem hr))
    have htakes : b'.Takes (rs.map Record.transaction) b' :=
      .of_known (List.forall_mem_map.mpr hknown)
    obtain ⟨again, hagain⟩ := replayInto_eq_ok_iff.mpr htakes
    exact ⟨hreports.exists_new, hreports.total, hreports.lastSequence, hreports.lastKnowledgeTime,
      again, hagain, (ReplayReport.Reports.of_replayInto hagain).applied_eq_zero hknown⟩
  · intro e b' hreplay
    rcases replayInto_cases b rs with
      ⟨report, m, hok, -⟩ | ⟨taken, r, rest, cause, report, m, hrs, herr, hbefore, hrefused⟩
    · rw [hok] at hreplay
      cases (Prod.mk.inj hreplay).1
    · rw [herr] at hreplay
      obtain ⟨hcause, rfl⟩ := Prod.mk.inj hreplay
      exact ⟨taken, r, rest, cause, report, hrs, (Except.error.inj hcause).symm, hbefore, hrefused⟩

open Sample in
/-- The second record repeats the name of the first, and the third was learned before both. -/
example : (replayInto (.ofRegistry registry)
      [⟨1, ⟨.epoch, noon, transfer firstId alice bob two⟩⟩,
        ⟨2, ⟨.epoch, noon, transfer firstId bob alice two⟩⟩,
        ⟨3, ⟨.epoch, .epoch, passingOn⟩⟩]).1
    = .ok ⟨2, 1, some 3, some noon⟩ := by decide

end Subledger
