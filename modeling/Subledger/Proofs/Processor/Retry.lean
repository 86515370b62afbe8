/-
  RETRY: what was journalled while the bus was down is lost to it.

  Submitting a transaction again, and flushing, try the journal again.  They come to the bus only
  behind an addition to the journal; for a transaction that is journalled there is nothing left to
  try.

  1. **Offered once** (`Agreed.run_records`) — the records that the journal gains are those offered to
     the bus, in order and each once.
  2. **Lost** (`lost`) — the records that were offered while the bus did not take them.  Published and
     lost records together are what was offered (`publications_lost_perm`).
  3. **The result** (`published_or_lost`) — so the records of the journal are those published and those
     lost, and no retry makes a lost one published.
-/
import Subledger.Proofs.Processor.Publication

namespace Subledger.Processor

variable {p q : Processor} {o : Outage} {history : List Envelope} {e : Envelope} {r : Record}

/-! ## What is journalled is offered, and once -/

/-- An envelope in hands is journalled and offered, or neither. -/
theorem Holding.record_records (h : Holding history p.journal.envelopes p.pending e) (o : Outage)
    (outcome : Outcome) :
    (p.record o outcome e).2.journal.index.records
      = p.journal.index.records ++ p.offer o e := by
  rcases h.appendOrPark_index o with ⟨j, hp, hpushed⟩ | ⟨cause, j, hp, hsame⟩
  · rw [record_of_ok hp, offer_of_ok hp, journal_announced]
    exact congrArg Index.records hpushed
  · rw [record_of_error hp, offer_of_error hp, List.append_nil]
    exact congrArg Index.records hsame

theorem Settled.flushAll_records {es : List Envelope}
    (h : Settled history p.journal.envelopes p.pending) (hes : p.pending.values = es) (o : Outage)
    (done : Nat) :
    (p.flushAll o done es).2.journal.index.records
      = p.journal.index.records ++ p.offerAll o es := by
  induction es generalizing p done with
  | nil =>
    rw [offerAll, List.append_nil]
    rfl
  | cons e es ih =>
    obtain ⟨hhold, hvalues⟩ := h.take_first hes
    rcases hhold.appendOrPark_index o with ⟨j, hp, hpushed⟩ | ⟨cause, j, hp, hsame⟩
    · obtain ⟨bus, hbus⟩ := announced_eq o
        { p with journal := j, pending := p.pending.erase e.id } ⟨p.journal.index.nextSequence, e⟩
      have hrest := ih (p := { p with
        journal := j, pending := p.pending.erase e.id, bus := bus })
        (hhold.log_pushed hpushed) hvalues (done + 1)
      have hrecords : j.index.records
          = p.journal.index.records ++ [⟨p.journal.index.nextSequence, e⟩] :=
        congrArg Index.records hpushed
      rw [← hbus, journal_announced, hrecords, List.append_assoc, List.singleton_append] at hrest
      rw [flushAll_of_ok hp, offerAll_of_ok hp]
      exact hrest
    · rw [flushAll_of_error hp, offerAll_of_error hp, List.append_nil]
      exact congrArg Index.records hsame

theorem Settled.submit_records (h : Settled history p.journal.envelopes p.pending) {now : Instant}
    {t : Transaction} {eventTime : Instant}
    (hnew : ((history ++ (p.learns (.submit o now t eventTime)).toList).map Envelope.id).Nodup) :
    (p.submit o now t eventTime).2.journal.index.records
      = p.journal.index.records ++ p.offerSubmitted o now t eventTime := by
  unfold Processor.submit offerSubmitted
  cases hexec : p.book.execute t with
  | error cause => exact (List.append_nil _).symm
  | ok answer =>
    obtain ⟨outcome, b⟩ := answer
    cases outcome with
    | applied =>
      rw [learns_of_applied hexec, Option.toList_some] at hnew
      exact Holding.record_records (p := { p with book := b }) (h.learn hnew) o _
    | alreadyApplied =>
      dsimp only
      cases hwaits : p.pending.find? t.id with
      | none => exact (List.append_nil _).symm
      | some e =>
        have hname : e.id = t.id := h.named _ e hwaits
        rw [← hname] at hwaits ⊢
        exact Holding.record_records (p := { p with pending := p.pending.erase e.id })
          (h.take_erase hwaits) o _

/-- A call adds to the journal what it offers to the bus. -/
theorem Settled.step_records (h : Settled history p.journal.envelopes p.pending) {c : Call}
    (hnew : ((history ++ (p.learns c).toList).map Envelope.id).Nodup) :
    (p.step c).journal.index.records = p.journal.index.records ++ p.offers c := by
  cases c with
  | register a => exact (List.append_nil _).symm
  | submit o now t eventTime => exact h.submit_records hnew
  | flush o => exact h.flushAll_records rfl o 0
  | disturb bus file =>
    rw [offers, List.append_nil]
    exact congrArg Index.records (Journal.index_mapFile _ _)

/-- **A run offers to the bus what the journal gains**, in order and each record once. -/
theorem Agreed.run_records (h : Agreed p) (cs : List Call) :
    (p.run cs).journal.index.records = p.journal.index.records ++ p.offered cs := by
  induction cs using List.reverseRecOn with
  | nil => exact (List.append_nil _).symm
  | append_singleton cs c ih =>
    rw [run_append, offered, trace_append, trace, trace, List.append_nil, ← List.append_assoc]
    rw [← offered, ← ih]
    exact (settled_of_agreed h cs).step_records (h.learns_new cs c)

/-- No record is twice in the journal. -/
theorem Agreed.nodup_records (h : Agreed p) (cs : List Call) :
    (p.run cs).journal.index.records.Nodup := by
  have hsettled := settled_of_agreed h cs
  have hnames : ((p.run cs).journal.envelopes.map Envelope.id).Nodup := by
    have hall := (hsettled.places.map Envelope.id).nodup_iff.mpr hsettled.distinct
    rw [List.map_append] at hall
    exact (List.nodup_append.mp hall).1
  exact (hnames.of_map _).of_map _

/-! ## Published or lost -/

/-- The records of a call that the bus does not take, in order. -/
def missed (p : Processor) (c : Call) : List Record := (p.offers c).filter fun r => !p.carries r c

/-- The records of some calls that the bus does not take, in order. -/
def lost (p : Processor) (cs : List Call) : List Record := p.trace missed cs

/-- What is offered is published or lost. -/
theorem publications_lost_perm (p : Processor) (cs : List Call) :
    (p.publications cs ++ p.lost cs).Perm (p.offered cs) := by
  induction cs generalizing p with
  | nil => exact List.Perm.refl _
  | cons c cs ih =>
    have hcall : (p.published c ++ p.missed c).Perm (p.offers c) :=
      List.filter_append_perm _ (p.offers c)
    -- what this call published and missed is brought together, and what the others did
    have hmiddle : (p.published c ++ (p.step c).publications cs
        ++ (p.missed c ++ (p.step c).lost cs)).Perm
        (p.published c ++ p.missed c ++ ((p.step c).publications cs ++ (p.step c).lost cs)) := by
      simp only [List.append_assoc]
      exact (List.perm_append_comm_assoc _ _ _).append_left _
    exact hmiddle.trans (hcall.append (ih (p.step c)))

/-- A call loses the records that it puts into the journal while the bus does not take them. -/
theorem Agreed.mem_missed_iff (h : Agreed p) {pre : List Call} {c : Call} :
    r ∈ (p.run pre).missed c ↔ r ∉ (p.run pre).journal.index.records ∧
      r ∈ (p.run (pre ++ [c])).journal.index.records ∧ (p.run pre).carries r c = false := by
  have hgrown : (p.run (pre ++ [c])).journal.index.records
      = (p.run pre).journal.index.records ++ (p.run pre).offers c := by
    rw [run_append]
    exact (settled_of_agreed h pre).step_records (h.learns_new pre c)
  have hdistinct := h.nodup_records (pre ++ [c])
  rw [hgrown, List.nodup_append] at hdistinct
  rw [missed, List.mem_filter, Bool.not_eq_true', hgrown, List.mem_append]
  constructor
  · rintro ⟨hoffered, hmissed⟩
    exact ⟨fun hold => hdistinct.2.2 r hold r hoffered rfl, Or.inr hoffered, hmissed⟩
  · rintro ⟨hnew, hold | hoffered, hmissed⟩
    · exact absurd hold hnew
    · exact ⟨hoffered, hmissed⟩

/-- Where announcements get through, a call misses none. -/
theorem missed_of_audible {c : Call} (hc : c.Audible) (hopen : p.bus.closed = false) :
    p.missed c = [] := by
  rw [missed, List.filter_eq_nil_iff]
  intro r hr
  have htaken : ∀ o : Outage, o.Audible → o.carries p.bus r = true := by
    intro o ho
    rw [Outage.carries, ho, hopen]
    rfl
  cases c with
  | register a => exact absurd hr List.not_mem_nil
  | disturb bus file => exact absurd hr List.not_mem_nil
  | submit o now t eventTime => simp [carries, htaken o hc]
  | flush o => simp [carries, htaken o hc]

theorem Call.Audible.leavesBus {c : Call} (hc : c.Audible) : c.LeavesBus := by
  cases c with
  | disturb bus file => exact hc
  | register a => trivial
  | submit o now t eventTime => trivial
  | flush o => trivial

/-- Where announcements get through, nothing is lost. -/
theorem lost_of_audible {cs : List Call} (hcs : ∀ c ∈ cs, c.Audible)
    (hopen : p.bus.closed = false) : p.lost cs = [] := by
  induction cs generalizing p with
  | nil => rfl
  | cons c cs ih =>
    obtain ⟨hc, hcs⟩ := List.forall_mem_cons.mp hcs
    have hstays : (p.step c).bus.closed = false := by
      rw [bus_step p (Call.Audible.leavesBus hc), Bus.closed_publishAll]
      exact hopen
    rw [lost, trace, missed_of_audible hc hopen, List.nil_append]
    exact ih hcs hstays

/-- **A record that is journalled while the bus is down is never published.**  Let a new processor
    run through any calls, whatever is out of order around them.  Then let it run through any others
    with an open bus and announcements that get through: whatever was applied is submitted again,
    and what waits is flushed.

    * The journal then holds the records that were published and those that the first calls lost,
      each once and in one of the two.
    * So a record of the journal is published, before or in the retry, exactly if it was not lost.
    * Lost is what one of the first calls put into the journal while the bus did not take it. -/
theorem published_or_lost {reg : Registry} (h : Fresh reg p) (cs : List Call) {again : List Call}
    (hopen : (p.run cs).bus.closed = false) (hagain : ∀ c ∈ again, c.Audible) :
    (p.publications (cs ++ again) ++ p.lost cs).Perm
        (p.run (cs ++ again)).journal.index.records ∧
      (∀ r ∈ (p.run (cs ++ again)).journal.index.records,
        r ∈ p.publications (cs ++ again) ↔ r ∉ p.lost cs) ∧
      ∀ r, r ∈ p.lost cs ↔ ∃ pre c post, cs = pre ++ c :: post ∧
        r ∉ (p.run pre).journal.index.records ∧
        r ∈ (p.run (pre ++ [c])).journal.index.records ∧ (p.run pre).carries r c = false := by
  have hlost : p.lost (cs ++ again) = p.lost cs := by
    rw [lost, trace_append, ← lost, ← lost, lost_of_audible hagain hopen, List.append_nil]
  have hall : (p.publications (cs ++ again) ++ p.lost cs).Perm
      (p.run (cs ++ again)).journal.index.records := by
    rw [h.agreed.run_records, h.index, ← hlost]
    exact publications_lost_perm p (cs ++ again)
  have hdistinct : (p.publications (cs ++ again) ++ p.lost cs).Nodup :=
    hall.nodup_iff.mpr (h.agreed.nodup_records _)
  refine ⟨hall, ?_, ?_⟩
  · intro r hr
    rcases List.mem_append.mp (hall.symm.subset hr) with hpublished | hmissed
    · exact iff_of_true hpublished fun hmissed =>
        (List.nodup_append.mp hdistinct).2.2 r hpublished r hmissed rfl
    · exact iff_of_false (fun hpublished =>
        (List.nodup_append.mp hdistinct).2.2 r hpublished r hmissed rfl) (not_not.mpr hmissed)
  · intro r
    rw [lost, mem_trace_iff]
    simp only [h.agreed.mem_missed_iff]

/-- Transactions are submitted again, and what waits is flushed, with everything in order. -/
def retry (ts : List Transaction) (now eventTime : Instant) : List Call :=
  ts.map (fun t => .submit .none now t eventTime) ++ [.flush .none]

theorem audible_retry (ts : List Transaction) (now eventTime : Instant) :
    ∀ c ∈ retry ts now eventTime, c.Audible := by
  intro c hc
  rcases List.mem_append.mp hc with hsubmitted | hflushed
  · obtain ⟨t, -, rfl⟩ := List.mem_map.mp hsubmitted
    exact Outage.audible_none
  · rw [List.mem_singleton.mp hflushed]
    exact Outage.audible_none

end Subledger.Processor

/-! ## A retry that is in vain -/

namespace Subledger

namespace Sample

/-- Everything can be journalled, but nobody hears of it. -/
def unheard : Outage := ⟨Outage.none.journal, fun _ => false⟩

/-- At noon a transfer that is journalled and not announced. -/
def unheardRun : List Processor.Call :=
  [.submit unheard noon (transfer firstId alice bob threeTenths) .epoch]

/-- Its record. -/
def unheardRecord : Record := ⟨1, ⟨.epoch, noon, transfer firstId alice bob threeTenths⟩⟩

/-- In the evening it is submitted again. -/
def unheardRetry : List Processor.Call :=
  Processor.retry [transfer firstId alice bob threeTenths] evening .epoch

end Sample

/-- The transfer is journalled, and is not published when it is submitted again. -/
theorem Processor.published_or_lost_unheard :
    Sample.unheardRecord ∈
        (Sample.processor.run (Sample.unheardRun ++ Sample.unheardRetry)).journal.index.records ∧
      Sample.unheardRecord ∉
        Sample.processor.publications (Sample.unheardRun ++ Sample.unheardRetry) := by
  have hjournalled : Sample.unheardRecord ∈
      (Sample.processor.run (Sample.unheardRun ++ Sample.unheardRetry)).journal.index.records := by
    decide
  obtain ⟨-, hpublished, hlost⟩ :=
    published_or_lost (fresh_start Sample.registry) Sample.unheardRun rfl
      (audible_retry _ _ _)
  have hmissed : Sample.unheardRecord ∈ Sample.processor.lost Sample.unheardRun :=
    (hlost _).mpr ⟨[], _, [], rfl, by decide, by decide, by decide⟩
  exact ⟨hjournalled, fun h => (hpublished _ hjournalled).mp h hmissed⟩

/-- Submitting every applied transaction again and flushing does not bring every record of the
    journal to the bus. -/
theorem Processor.retry_in_vain :
    ¬ ∀ (reg : Registry) (cs : List Processor.Call) (ts : List Transaction)
      (now eventTime : Instant),
      let p : Processor := start (.ofRegistry reg) .inMemory
      (p.run cs).bus.closed = false →
      (ts.map Transaction.id).Perm (p.run cs).book.applied →
      ∀ r ∈ (p.run (cs ++ retry ts now eventTime)).journal.index.records,
        r ∈ p.publications (cs ++ retry ts now eventTime) := by
  intro h
  have hpublished := h Sample.registry Sample.unheardRun
    [Sample.transfer Sample.firstId Sample.alice Sample.bob Sample.threeTenths] Sample.evening
    .epoch rfl (by decide) Sample.unheardRecord (by decide)
  exact absurd hpublished (by decide)

end Subledger
