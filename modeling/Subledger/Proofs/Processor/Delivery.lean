/-
  DELIVERY: an applied transaction reaches the journal, and reaches it once.

  1. **The journal grows** (`prefix_run`) — a call touches the journal by additions only, so it
     preserves what they do (`KeptByAdding.step`): envelopes are put at the end, and nothing is ever
     taken out or changed.
  2. **The envelopes** (`mem_learned_iff`) — what a run learns is, for each submission that applied
     its transaction, that transaction with the times of that submission.  Whatever is submitted
     under its name later does not touch it.
  3. **The result** (`delivery`) — so the applied transactions are those journalled and those that
     wait, and none is in both places or twice in one.
-/
import Subledger.Proofs.Processor.Run

namespace Subledger.Processor

/-! ## What additions preserve

  A submission and a flush touch the journal by additions only, one for each envelope in hand.  A
  property that no addition breaks holds after every call, and none of the proofs that use this look
  into the calls again. -/

/-- No addition breaks a property of journals, whatever is out of order. -/
def KeptByAdding (P : Journal → Prop) : Prop :=
  ∀ outage j e, P j → P (j.appendUnder outage e).2

/-- Adding or parking does one addition. -/
theorem journal_appendOrPark (o : Outage) (p : Processor) (e : Envelope) :
    (p.appendOrPark o e).2.journal = (p.journal.appendUnder (o.journal e.id) e).2 := by
  rw [appendOrPark]
  rcases p.journal.appendUnder (o.journal e.id) e with ⟨cause | ack, j⟩
  · rfl
  · rfl

/-- Announcing leaves the journal alone. -/
theorem journal_announced (o : Outage) (p : Processor) (r : Record) :
    (p.announced o r).journal = p.journal := by
  obtain ⟨bus, hbus⟩ := announced_eq o p r
  rw [hbus]

namespace KeptByAdding

variable {P : Journal → Prop}

/-- Adding or parking keeps what additions keep. -/
theorem appendOrPark (h : KeptByAdding P) {p : Processor} (hp : P p.journal) (o : Outage)
    (e : Envelope) : P (p.appendOrPark o e).2.journal := by
  rw [journal_appendOrPark]
  exact h _ _ _ hp

/-- Recording adds once, and announces what was added. -/
theorem record (h : KeptByAdding P) {p : Processor} (hp : P p.journal) (o : Outage)
    (outcome : Outcome) (e : Envelope) : P (p.record o outcome e).2.journal := by
  have hadd := h.appendOrPark hp o e
  rcases hq : p.appendOrPark o e with ⟨cause | r, q⟩
  · rw [hq] at hadd
    rw [record_of_error hq]
    exact hadd
  · rw [hq] at hadd
    rw [record_of_ok hq, journal_announced]
    exact hadd

/-- A flush adds again and again; it may end early. -/
theorem flushAll (h : KeptByAdding P) {p : Processor} (hp : P p.journal) (o : Outage) (done : Nat)
    (es : List Envelope) : P (p.flushAll o done es).2.journal := by
  induction es generalizing p done with
  | nil => exact hp
  | cons e es ih =>
    have hadd := h.appendOrPark hp o e
    rcases hq : p.appendOrPark o e with ⟨cause | r, q⟩
    · rw [hq] at hadd
      rw [flushAll_of_error hq]
      exact hadd
    · rw [hq] at hadd
      rw [flushAll_of_ok hq]
      apply ih
      rw [journal_announced]
      exact hadd

/-- A submission records, or does nothing to the journal. -/
theorem submit (h : KeptByAdding P) {p : Processor} (hp : P p.journal) (o : Outage)
    (now : Instant) (t : Transaction) (eventTime : Instant) :
    P (p.submit o now t eventTime).2.journal := by
  unfold Processor.submit
  cases p.book.execute t with
  | error cause => exact hp
  | ok answer =>
    obtain ⟨outcome, b⟩ := answer
    cases outcome with
    | applied => exact h.record (p := { p with book := b }) hp o _ _
    | alreadyApplied =>
      dsimp only
      cases p.pending.find? t.id with
      | none => exact hp
      | some e => exact h.record (p := { p with pending := p.pending.erase t.id }) hp o _ _

/-- A call preserves what additions do, if a change of the file from outside preserves it. -/
theorem step (h : KeptByAdding P) {p : Processor} (hp : P p.journal) {c : Call}
    (hfile : ∀ bus file, c = .disturb bus file → P (p.journal.mapFile file)) :
    P (p.step c).journal := by
  cases c with
  | register a => exact hp
  | submit o now t eventTime => exact h.submit hp o now t eventTime
  | flush o => exact h.flushAll hp o 0 _
  | disturb bus file => exact hfile bus file rfl

end KeptByAdding

/-! ## The journal grows

  Nothing is taken out of a journal or put in between. -/

/-- An addition puts its envelope at the end of the journal, or leaves it alone. -/
theorem keptByAdding_grows (es : List Envelope) :
    KeptByAdding fun j => es <+: j.envelopes := by
  intro outage j e hj
  apply hj.trans
  rcases j.appendUnder_cases outage e with
    ⟨n, j', hj', -, hadded⟩ | ⟨n, hj', -⟩ | ⟨cause, j', hj', hsame⟩
  · rw [hj']
    exact ⟨[e], hadded.symm⟩
  · rw [hj']
  · rw [hj', hsame]

/-- A call puts envelopes at the end of the journal, or leaves it alone. -/
theorem prefix_step (p : Processor) (c : Call) :
    p.journal.envelopes <+: (p.step c).journal.envelopes := by
  apply (keptByAdding_grows p.journal.envelopes).step List.prefix_rfl
  rintro bus file rfl
  show p.journal.index.envelopes <+: (p.journal.mapFile file).index.envelopes
  rw [Journal.index_mapFile]

/-- After a run the journal begins as it did before. -/
theorem prefix_run (p : Processor) (cs : List Call) :
    p.journal.envelopes <+: (p.run cs).journal.envelopes := by
  apply run_preserves (Q := fun _ => True) (fun q => p.journal.envelopes <+: q.journal.envelopes)
  · intro q c _ hq
    exact hq.trans (prefix_step q c)
  · intro _ _
    trivial
  · exact List.prefix_rfl

/-! ## Which envelopes there are

  What is learned is in one of two places, the journal or the pending envelopes, and nothing else
  is. -/

/-- A call learns an envelope if it is a submission that applies its transaction; the envelope has
    the times of that submission. -/
theorem learns_eq_some_iff {p : Processor} {c : Call} {e : Envelope} :
    p.learns c = some e ↔ ∃ o now t eventTime b, c = .submit o now t eventTime ∧
      p.book.execute t = .ok (.applied, b) ∧ e = ⟨eventTime, now, t⟩ := by
  cases c with
  | submit o now t eventTime =>
    rw [learns, Option.map_eq_some_iff]
    constructor
    · rintro ⟨t', ht, rfl⟩
      obtain ⟨hcall, hexec⟩ := Book.accepts_eq_some_iff.mp ht
      obtain rfl := Book.Call.execute.inj hcall
      exact ⟨o, now, t, eventTime, _, rfl, hexec, rfl⟩
    · rintro ⟨_, _, _, _, b, ⟨⟩, hexec, rfl⟩
      refine ⟨t, ?_, rfl⟩
      rw [Book.accepts, hexec]
  | register a =>
    refine iff_of_false ?_ ?_
    · rintro ⟨⟩
    · rintro ⟨_, _, _, _, _, ⟨⟩, -⟩
  | flush o =>
    refine iff_of_false ?_ ?_
    · rintro ⟨⟩
    · rintro ⟨_, _, _, _, _, ⟨⟩, -⟩
  | disturb bus file =>
    refine iff_of_false ?_ ?_
    · rintro ⟨⟩
    · rintro ⟨_, _, _, _, _, ⟨⟩, -⟩

/-- What a run learns, it learns at some call. -/
theorem mem_learned_iff {p : Processor} {cs : List Call} {e : Envelope} :
    e ∈ p.learned cs ↔ ∃ pre c post, cs = pre ++ c :: post ∧ (p.run pre).learns c = some e := by
  simp only [learned_eq_trace, mem_trace_iff, Option.mem_toList]

/-- What waits is listed under its own names. -/
theorem Settled.pendingIds_eq {p : Processor} {history logged : List Envelope}
    (h : Settled history logged p.pending) :
    p.pendingIds = p.pending.values.map Envelope.id := by
  rw [pendingIds, Table.keys, Table.values, List.map_map]
  refine List.map_congr_left ?_
  rintro ⟨id, e⟩ hrow
  exact (h.named id e (Table.mem_rows_iff.mp hrow)).symm

/-! ## Refusals

  A refusal is an answer of the book, and the book is asked before anything is done. -/

/-- The bus has errors of its own, and none of them is a refusal. -/
theorem announce_ne_refusal (o : Outage) (p : Processor) (r : Record) (cause : LedgerError) :
    p.announce o r ≠ .error (.ledger cause) := by
  rw [announce]
  cases p.bus.publish (o.reachable r.id) (announcement r) with
  | error busCause => rintro ⟨⟩
  | ok answer => rintro ⟨⟩

/-- Journalling and announcing fail with errors of their own. -/
theorem record_ne_refusal (o : Outage) (p : Processor) (outcome : Outcome) (e : Envelope)
    (cause : LedgerError) : (p.record o outcome e).1 ≠ .error (.ledger cause) := by
  have hjournalled : ∀ r q, p.appendOrPark o e = (.ok r, q) →
      (p.record o outcome e).1 ≠ .error (.ledger cause) := by
    intro r q hp
    rw [record, hp]
    dsimp only
    cases hannounce : q.announce o r with
    | ok q' => rintro ⟨⟩
    | error err =>
      intro h
      obtain rfl := Except.error.inj h
      exact announce_ne_refusal o q r cause hannounce
  rcases appendOrPark_cases o p e with ⟨n, j, hp, -⟩ | ⟨n, hp, -⟩ | ⟨_, j, hp, -⟩
  · exact hjournalled _ _ hp
  · exact hjournalled _ _ hp
  · rw [record, hp]
    rintro ⟨⟩

/-- A submission is refused exactly if the book refuses its transaction; then nothing is done. -/
theorem submit_refused_iff (o : Outage) (now : Instant) (p : Processor) (t : Transaction)
    (eventTime : Instant) (cause : LedgerError) :
    ((p.submit o now t eventTime).1 = .error (.ledger cause) ↔
        p.book.execute t = .error cause) ∧
      ((p.submit o now t eventTime).1 = .error (.ledger cause) →
        (p.submit o now t eventTime).2 = p) := by
  unfold submit
  cases hexec : p.book.execute t with
  | error cause' =>
    refine ⟨⟨?_, ?_⟩, fun _ => rfl⟩
    · rintro ⟨⟩
      rfl
    · rintro ⟨⟩
      rfl
  | ok answer =>
    obtain ⟨outcome, b⟩ := answer
    have hnot : ∀ x : Except ProcessError Receipt × Processor, x.1 ≠ .error (.ledger cause) →
        (x.1 = .error (.ledger cause) ↔
          (Except.ok (outcome, b) : Except LedgerError (Outcome × Book)) = .error cause) ∧
        (x.1 = .error (.ledger cause) → x.2 = p) :=
      fun x hx => ⟨iff_of_false hx (fun h => nomatch h), fun h => absurd h hx⟩
    cases outcome with
    | applied => exact hnot _ (record_ne_refusal _ _ _ _ _)
    | alreadyApplied =>
      dsimp only
      cases p.pending.find? t.id with
      | none => exact hnot _ (fun h => nomatch h)
      | some e => exact hnot _ (record_ne_refusal _ _ _ _ _)

/-! ## The result -/

/-- **No applied transaction is lost or journalled twice.**  Start a processor with book and journal
    in agreement, and let it run through any calls, whatever is out of order around them.  The
    applied transactions are those journalled and those that wait, each in one of the two places
    and there once.  The journal is the one at the start with envelopes added; those added and
    those that wait are, for each submission that applied its transaction, this transaction with
    the event time of that submission and the reading that the clock gave then.  And a submission
    that the book refuses changes nothing. -/
theorem delivery {p : Processor} (h : Agreed p) (cs : List Call) :
    (p.run cs).book.applied.Perm
        ((p.run cs).journal.envelopes.map Envelope.id ++ (p.run cs).pendingIds) ∧
      ((p.run cs).journal.envelopes.map Envelope.id ++ (p.run cs).pendingIds).Nodup ∧
      (∃ added, (p.run cs).journal.envelopes = p.journal.envelopes ++ added ∧
        ∀ e, e ∈ added ++ (p.run cs).pending.values ↔
          ∃ pre o now t eventTime post b, cs = pre ++ .submit o now t eventTime :: post ∧
            (p.run pre).book.execute t = .ok (.applied, b) ∧ e = ⟨eventTime, now, t⟩) ∧
      ∀ o now t eventTime cause,
        (((p.run cs).submit o now t eventTime).1 = .error (.ledger cause) ↔
          (p.run cs).book.execute t = .error cause) ∧
        (((p.run cs).submit o now t eventTime).1 = .error (.ledger cause) →
          ((p.run cs).submit o now t eventTime).2 = p.run cs) := by
  have hsettled := settled_of_agreed h cs
  -- where the envelopes are, by name
  have hplaces : ((p.run cs).journal.envelopes.map Envelope.id ++ (p.run cs).pendingIds).Perm
      ((p.journal.envelopes ++ p.learned cs).map Envelope.id) := by
    rw [hsettled.pendingIds_eq, ← List.map_append]
    exact hsettled.places.map _
  refine ⟨(applied_perm_history h cs).trans hplaces.symm,
    hplaces.nodup_iff.mpr hsettled.distinct, ?_,
    fun o now t eventTime cause => submit_refused_iff o now _ t eventTime cause⟩
  obtain ⟨added, hadded⟩ := prefix_run p cs
  refine ⟨added, hadded.symm, ?_⟩
  have hnew : (added ++ (p.run cs).pending.values).Perm (p.learned cs) := by
    have hall := hsettled.places
    rw [← hadded, List.append_assoc] at hall
    exact (List.perm_append_left_iff _).mp hall
  intro e
  rw [hnew.mem_iff, mem_learned_iff]
  constructor
  · rintro ⟨pre, c, post, rfl, hlearns⟩
    obtain ⟨o, now, t, eventTime, b, rfl, hexec, rfl⟩ := learns_eq_some_iff.mp hlearns
    exact ⟨pre, o, now, t, eventTime, post, b, rfl, hexec, rfl⟩
  · rintro ⟨pre, o, now, t, eventTime, post, b, rfl, hexec, rfl⟩
    exact ⟨pre, _, post, rfl, learns_eq_some_iff.mpr ⟨o, now, t, eventTime, b, rfl, hexec, rfl⟩⟩

end Subledger.Processor

/-! ## A sample run

  A transfer that cannot be journalled, submitted again with other contents. -/

namespace Subledger

/-- At noon a transfer that cannot be journalled; in the evening another under its name. -/
def Sample.resubmission : List Processor.Call :=
  [.submit diskFull noon (transfer firstId alice bob threeTenths) .epoch,
    .submit .none evening (transfer firstId bob alice two) afternoon]

/-- What is journalled is what was applied, with the times of that submission. -/
theorem Processor.delivery_resubmission :
    (Sample.processor.run Sample.resubmission).book.applied.Perm [Sample.firstId] ∧
      ∀ e, e ∈ (Sample.processor.run Sample.resubmission).journal.envelopes ↔
        e = ⟨.epoch, Sample.noon,
          Sample.transfer Sample.firstId Sample.alice Sample.bob Sample.threeTenths⟩ := by
  have hlogged : (Sample.processor.run Sample.resubmission).journal.envelopes
      = [⟨.epoch, Sample.noon,
        Sample.transfer Sample.firstId Sample.alice Sample.bob Sample.threeTenths⟩] := by decide
  have hwaits : (Sample.processor.run Sample.resubmission).pendingIds = [] := by decide
  have hagreed : Agreed Sample.processor := (fresh_start Sample.registry).agreed
  obtain ⟨hplaces, -⟩ := delivery hagreed Sample.resubmission
  rw [hlogged, hwaits] at hplaces
  refine ⟨hplaces, ?_⟩
  intro e
  rw [hlogged]
  exact List.mem_singleton

end Subledger
