/-
  PUBLICATION: which records the bus carries, and which of them the journal holds.

  A record is offered to the bus once the journal has acknowledged its envelope.  It is put together
  from the number that the journal answers and the envelope that the call has in its hands.  A
  journal that was there before the processor may know the transaction already; then it answers
  with the number of the envelope that it has, and the bus is offered another.

  1. **The trace** — `offers` lists the records that a call offers to the bus and `published` those
     that the bus takes.  The bus is then as if these had been published one after the other, and
     nothing else (`bus_run`), so a sole listener hears them.
  2. **The invariant** (`Traced`) — the journal grows by envelopes of the history, of names that are
     new to it; and what was offered is an envelope of the history under the number that the
     journal has for its name.  The crux is `Traced.mem_iff`: an envelope of that name that came
     into the journal later is the one that was offered, since no name is learned twice.
  3. **The result** (`published_held_iff`) — a published record is in the journal unless its
     transaction was journalled before the processor was there, and otherwise.
-/
import Subledger.Proofs.Processor.Announcements
import Subledger.Proofs.Processor.Delivery

namespace Subledger

/-- Does the bus take a record?  It does if it can be reached and is open. -/
def Outage.carries (o : Outage) (b : Bus) (r : Record) : Bool := o.reachable r.id && !b.closed

namespace Processor

/-! ## What is offered to the bus, and what it takes

  A record is offered once its envelope is journalled, by a submission or by a flush, and also when
  the journal answers that it knew the name.  Which of the offered records the bus takes is up to
  the outage. -/

/-- The record that is offered once an envelope is journalled; none if it cannot be. -/
def offer (o : Outage) (p : Processor) (e : Envelope) : List Record :=
  match p.appendOrPark o e with
  | (.ok r, _) => [r]
  | (.error _, _) => []

/-- The records that are offered when envelopes are journalled one after the other, up to the first
    that cannot be. -/
def offerAll (o : Outage) (p : Processor) : List Envelope → List Record
  | [] => []
  | e :: es =>
    match p.appendOrPark o e with
    | (.ok r, p) => r :: ({ p with pending := p.pending.erase r.id }.announced o r).offerAll o es
    | (.error _, _) => []

/-- The record that is offered when a transaction is submitted. -/
def offerSubmitted (o : Outage) (now : Instant) (p : Processor) (t : Transaction)
    (eventTime : Instant) : List Record :=
  match p.book.execute t with
  | .error _ => []
  | .ok (.applied, book) => { p with book := book }.offer o ⟨eventTime, now, t⟩
  | .ok (.alreadyApplied, _) =>
    match p.pending.find? t.id with
    | none => []
    | some e => { p with pending := p.pending.erase t.id }.offer o e

/-- The records that a call offers to the bus, in order. -/
def offers (p : Processor) : Call → List Record
  | .register _ => []
  | .submit o now t eventTime => p.offerSubmitted o now t eventTime
  | .flush o => p.offerAll o p.pending.values
  | .disturb _ _ => []

/-- Does the bus take this record if a call offers it? -/
def carries (p : Processor) (r : Record) : Call → Bool
  | .register _ => false
  | .submit o _ _ _ => o.carries p.bus r
  | .flush o => o.carries p.bus r
  | .disturb _ _ => false

/-- The records of a call that the bus takes, in order. -/
def published (p : Processor) (c : Call) : List Record := (p.offers c).filter fun r => p.carries r c

/-- The records that some calls offer to the bus, in order. -/
def offered (p : Processor) (cs : List Call) : List Record := p.trace offers cs

/-- The records of some calls that the bus takes, in order. -/
def publications (p : Processor) (cs : List Call) : List Record := p.trace published cs

variable {p q : Processor} {o : Outage} {e : Envelope} {r : Record}

/-- A journalled envelope is offered under the number of the answer. -/
theorem offer_of_ok (h : p.appendOrPark o e = (.ok r, q)) : p.offer o e = [r] := by
  rw [offer, h]

/-- What cannot be journalled is not offered: it waits. -/
theorem offer_of_error {cause : ProcessError} (h : p.appendOrPark o e = (.error cause, q)) :
    p.offer o e = [] := by
  rw [offer, h]

/-- A flush offers one record after the other, and goes on with the rest of what waits. -/
theorem offerAll_of_ok (h : p.appendOrPark o e = (.ok r, q)) (es : List Envelope) :
    p.offerAll o (e :: es)
      = r :: ({ q with pending := q.pending.erase r.id }.announced o r).offerAll o es := by
  rw [offerAll, h]

/-- At the first envelope that cannot be journalled a flush ends, and offers no more. -/
theorem offerAll_of_error {cause : ProcessError} (h : p.appendOrPark o e = (.error cause, q))
    (es : List Envelope) : p.offerAll o (e :: es) = [] := by
  rw [offerAll, h]

/-- What the bus takes was offered. -/
theorem publications_subset_offered (p : Processor) (cs : List Call) :
    p.publications cs ⊆ p.offered cs := by
  intro r hr
  obtain ⟨pre, c, post, hcs, hpublished⟩ := mem_trace_iff.mp hr
  exact mem_trace_iff.mpr ⟨pre, c, post, hcs, (List.mem_filter.mp hpublished).1⟩

/-! ## The bus goes by the trace

  What is done to the bus is publishing, and what is published is on the trace.  So the bus is a
  function of the trace, call by call. -/

/-- The bus takes a record exactly if publishing its announcement succeeds. -/
theorem carries_iff {b : Bus} : o.carries b r = true ↔
    ∃ answer, b.publish (o.reachable r.id) (announcement r) = .ok answer := by
  rw [Outage.carries, Bus.publish]
  cases o.reachable r.id with
  | false => simp
  | true => cases b.closed <;> simp

/-- An announcement puts its record on the bus if the bus takes it. -/
theorem bus_announced (o : Outage) (p : Processor) (r : Record) :
    (p.announced o r).bus
      = p.bus.publishAll (([r].filter (o.carries p.bus)).map announcement) := by
  rw [announced, announce]
  cases hpublish : p.bus.publish (o.reachable r.id) (announcement r) with
  | error cause =>
    have hlost : ¬ o.carries p.bus r = true := by
      rw [carries_iff, hpublish]
      rintro ⟨answer, ⟨⟩⟩
    rw [List.filter_cons_of_neg hlost]
    rfl
  | ok answer =>
    have htaken : o.carries p.bus r = true := carries_iff.mpr ⟨answer, hpublish⟩
    have hreach : o.reachable r.id = true := (Bool.and_eq_true_iff.mp htaken).1
    rw [List.filter_cons_of_pos htaken]
    show answer.2 = p.bus.afterMessage (announcement r)
    rw [hreach] at hpublish
    rw [Bus.afterMessage, hpublish]

/-- An announcement neither closes nor opens the bus. -/
theorem carries_announced (o o' : Outage) (p : Processor) (r : Record) :
    o'.carries (p.announced o r).bus = o'.carries p.bus := by
  funext r'
  rw [Outage.carries, Outage.carries, bus_announced, Bus.closed_publishAll]

/-- Recording publishes what it offers, if the bus takes it. -/
theorem bus_record (o : Outage) (p : Processor) (outcome : Outcome) (e : Envelope) :
    (p.record o outcome e).2.bus
      = p.bus.publishAll (((p.offer o e).filter (o.carries p.bus)).map announcement) := by
  rcases appendOrPark_cases o p e with ⟨n, j, hp, -⟩ | ⟨n, hp, -⟩ | ⟨cause, j, hp, -⟩
  · rw [record_of_ok hp, offer_of_ok hp, bus_announced]
  · rw [record_of_ok hp, offer_of_ok hp, bus_announced]
  · rw [record_of_error hp, offer_of_error hp]
    rfl

/-- So does a flush, in the order of what waits. -/
theorem bus_flushAll (o : Outage) (done : Nat) (p : Processor) (es : List Envelope) :
    (p.flushAll o done es).2.bus
      = p.bus.publishAll (((p.offerAll o es).filter (o.carries p.bus)).map announcement) := by
  induction es generalizing p done with
  | nil => rfl
  | cons e es ih =>
    -- the first record, and then the others on the bus that it leaves
    have hfirst : ∀ r q, p.appendOrPark o e = (.ok r, q) → q.bus = p.bus →
        (p.flushAll o done (e :: es)).2.bus = p.bus.publishAll
          (((p.offerAll o (e :: es)).filter (o.carries p.bus)).map announcement) := by
      intro r q hp hbus
      rw [flushAll_of_ok hp, offerAll_of_ok hp, ih, carries_announced, bus_announced, hbus,
        ← Bus.publishAll_append, ← List.map_append, ← List.filter_append, List.singleton_append]
    rcases appendOrPark_cases o p e with ⟨n, j, hp, -⟩ | ⟨n, hp, -⟩ | ⟨cause, j, hp, -⟩
    · exact hfirst _ _ hp rfl
    · exact hfirst _ _ hp rfl
    · rw [flushAll_of_error hp, offerAll_of_error hp]
      rfl

/-- So does a submission; one that is refused offers nothing. -/
theorem bus_submit (o : Outage) (now : Instant) (p : Processor) (t : Transaction)
    (eventTime : Instant) : (p.submit o now t eventTime).2.bus = p.bus.publishAll
      (((p.offerSubmitted o now t eventTime).filter (o.carries p.bus)).map announcement) := by
  unfold submit offerSubmitted
  cases p.book.execute t with
  | error cause => rfl
  | ok answer =>
    obtain ⟨outcome, b⟩ := answer
    cases outcome with
    | applied => exact bus_record o { p with book := b } _ _
    | alreadyApplied =>
      dsimp only
      cases p.pending.find? t.id with
      | none => rfl
      | some e => exact bus_record o { p with pending := p.pending.erase t.id } _ _

/-- A call that leaves the bus alone, but for what it publishes. -/
def Call.LeavesBus : Call → Prop
  | .disturb bus _ => ∀ b, bus b = b
  | _ => True

/-- The same for any call that is not a change of the bus itself. -/
theorem bus_step (p : Processor) {c : Call} (hc : c.LeavesBus) :
    (p.step c).bus = p.bus.publishAll ((p.published c).map announcement) := by
  cases c with
  | register a => rfl
  | disturb bus file => exact hc p.bus
  | flush o => exact bus_flushAll o 0 p p.pending.values
  | submit o now t eventTime => exact bus_submit o now p t eventTime

/-- **The bus carries the publications of a run** and nothing else, unless it is changed from
    outside. -/
theorem bus_run (p : Processor) {cs : List Call} (hcs : ∀ c ∈ cs, c.LeavesBus) :
    (p.run cs).bus = p.bus.publishAll ((p.publications cs).map announcement) := by
  induction cs generalizing p with
  | nil => rfl
  | cons c cs ih =>
    obtain ⟨hc, hcs⟩ := List.forall_mem_cons.mp hcs
    rw [publications, trace, List.map_append, Bus.publishAll_append, ← bus_step p hc]
    exact ih (p.step c) hcs

/-! ## Where the offered records come from

  An offered record has two parts of different origin: the envelope is from the history, the number
  from the journal.  The invariant keeps both, and that the journal has grown under new names only.
  -/

/-- What a run makes of a journal that had the records of `former`, if nothing waited.  The journal
    has grown by envelopes of the history under names that it did not have; what waits is of the
    history and under its own name; and each record that was offered is an envelope of the history
    with the number that the journal has for its name. -/
structure Traced (former : Index) (history : List Envelope) (x : Index)
    (pending : Table TransactionId Envelope) (offered : List Record) : Prop where
  grown : ∃ added, x.records = former.records ++ added ∧
    ∀ r ∈ added, former.sequenceOf? r.id = none ∧ r.envelope ∈ history
  waiting : ∀ id e, pending.find? id = some e → e.id = id ∧ e ∈ history
  numbered : ∀ r ∈ offered, r.envelope ∈ history ∧ x.sequenceOf? r.id = some r.sequence

variable {former x : Index} {history : List Envelope} {pending : Table TransactionId Envelope}
  {before : List Record}

/-- At the start nothing has been offered and nothing waits. -/
theorem traced_start (former : Index) : Traced former [] former .empty [] := by
  refine ⟨⟨[], (List.append_nil _).symm, fun r hr => absurd hr List.not_mem_nil⟩, ?_, ?_⟩
  · intro id e he
    exact nomatch he
  · intro r hr
    exact absurd hr List.not_mem_nil

/-- What is learned later does not take anything back. -/
theorem Traced.learn (h : Traced former history x pending before) (later : List Envelope) :
    Traced former (history ++ later) x pending before := by
  obtain ⟨added, hx, hadded⟩ := h.grown
  refine ⟨⟨added, hx, ?_⟩, ?_, ?_⟩
  · intro r hr
    exact ⟨(hadded r hr).1, List.mem_append_left _ (hadded r hr).2⟩
  · intro id e he
    exact ⟨(h.waiting id e he).1, List.mem_append_left _ (h.waiting id e he).2⟩
  · intro r hr
    exact ⟨List.mem_append_left _ (h.numbered r hr).1, (h.numbered r hr).2⟩

/-- What no longer waits puts no new demand on the rest. -/
theorem Traced.erase (h : Traced former history x pending before) (k : TransactionId) :
    Traced former history x (pending.erase k) before := by
  refine ⟨h.grown, ?_, h.numbered⟩
  intro id e he
  by_cases hid : id = k
  · rw [hid, Table.find?_erase_self] at he
    exact nomatch he
  · rw [Table.find?_erase_of_ne _ hid] at he
    exact h.waiting id e he

/-- An envelope of the history may be parked. -/
theorem Traced.park (h : Traced former history x pending before) (he : e ∈ history) :
    Traced former history x (pending.insert e.id e) before := by
  refine ⟨h.grown, ?_, h.numbered⟩
  intro id f hf
  by_cases hid : id = e.id
  · rw [hid, Table.find?_insert_self] at hf
    obtain rfl := Option.some.inj hf
    exact ⟨hid.symm, he⟩
  · rw [Table.find?_insert_of_ne _ _ hid] at hf
    exact h.waiting id f hf

/-- An envelope of the history that is found journalled. -/
theorem Traced.found (h : Traced former history x pending before) (he : e ∈ history) {n : Nat}
    (hfound : x.sequenceOf? e.id = some n) :
    Traced former history x pending (before ++ [⟨n, e⟩]) := by
  refine ⟨h.grown, h.waiting, ?_⟩
  intro r hr
  rcases List.mem_append.mp hr with hold | hlast
  · exact h.numbered r hold
  · rw [List.mem_singleton.mp hlast]
    exact ⟨he, hfound⟩

/-- An envelope of the history that is new to the journal. -/
theorem Traced.log (h : Traced former history x pending before) (he : e ∈ history)
    (hnew : x.sequenceOf? e.id = none) :
    Traced former history (x.push ⟨x.nextSequence, e⟩) pending
      (before ++ [⟨x.nextSequence, e⟩]) := by
  obtain ⟨added, hx, hadded⟩ := h.grown
  have hformer : former.sequenceOf? e.id = none := by
    rw [Option.eq_none_iff_forall_ne_some]
    intro n hn
    rw [Index.sequenceOf?_of_append hx hn] at hnew
    exact nomatch hnew
  have hgrown : Traced former history (x.push ⟨x.nextSequence, e⟩) pending before := by
    refine ⟨⟨added ++ [⟨x.nextSequence, e⟩], ?_, ?_⟩, h.waiting, ?_⟩
    · rw [Index.push, hx, List.append_assoc]
    · intro r hr
      rcases List.mem_append.mp hr with hold | hlast
      · exact hadded r hold
      · rw [List.mem_singleton.mp hlast]
        exact ⟨hformer, he⟩
    · intro r hr
      exact ⟨(h.numbered r hr).1, Index.sequenceOf?_of_append rfl (h.numbered r hr).2⟩
  exact hgrown.found he (Index.sequenceOf?_push hnew)

/-- An attempt to journal an envelope of the history: the bus is offered a record, or the envelope
    waits. -/
theorem Traced.appendOrPark (h : Traced former history p.journal.index p.pending before)
    (he : e ∈ history) (o : Outage) :
    (∃ n j, p.appendOrPark o e = (.ok ⟨n, e⟩, { p with journal := j }) ∧
      Traced former history j.index p.pending (before ++ [⟨n, e⟩])) ∨
    ∃ cause j, p.appendOrPark o e = (.error cause,
        { p with journal := j, pending := p.pending.insert e.id e }) ∧
      Traced former history j.index (p.pending.insert e.id e) before := by
  unfold Processor.appendOrPark
  rcases p.journal.appendUnder_index (o.journal e.id) e with
    ⟨j, hj, hnew, hpushed⟩ | ⟨n, hj, hfound⟩ | ⟨cause, j, hj, hsame⟩
  · exact Or.inl ⟨p.journal.index.nextSequence, j, by rw [hj]; rfl, hpushed ▸ h.log he hnew⟩
  · exact Or.inl ⟨n, p.journal, by rw [hj]; rfl, h.found he hfound⟩
  · exact Or.inr ⟨_, j, by rw [hj], hsame ▸ h.park he⟩

/-- Recording keeps the invariant: the envelope is journalled or parked, and offered in the first
    case. -/
theorem Traced.record (h : Traced former history p.journal.index p.pending before)
    (he : e ∈ history) (o : Outage) (outcome : Outcome) :
    Traced former history (p.record o outcome e).2.journal.index (p.record o outcome e).2.pending
      (before ++ p.offer o e) := by
  rcases h.appendOrPark he o with ⟨n, j, hp, htraced⟩ | ⟨cause, j, hp, htraced⟩
  · obtain ⟨bus, hbus⟩ := announced_eq o { p with journal := j } ⟨n, e⟩
    rw [record_of_ok hp, offer_of_ok hp, hbus]
    exact htraced
  · rw [record_of_error hp, offer_of_error hp, List.append_nil]
    exact htraced

/-- A flush keeps it, since whatever waits is of the history. -/
theorem Traced.flushAll {es : List Envelope}
    (h : Traced former history p.journal.index p.pending before) (hes : ∀ e ∈ es, e ∈ history)
    (o : Outage) (done : Nat) :
    Traced former history (p.flushAll o done es).2.journal.index (p.flushAll o done es).2.pending
      (before ++ p.offerAll o es) := by
  induction es generalizing p done before with
  | nil => rwa [offerAll, List.append_nil]
  | cons e es ih =>
    obtain ⟨he, hes⟩ := List.forall_mem_cons.mp hes
    rcases h.appendOrPark he o with ⟨n, j, hp, htraced⟩ | ⟨cause, j, hp, htraced⟩
    · obtain ⟨bus, hbus⟩ := announced_eq o
        { p with journal := j, pending := p.pending.erase (Record.mk n e).id } ⟨n, e⟩
      have hrest := ih (p := { p with
        journal := j, pending := p.pending.erase (Record.mk n e).id, bus := bus })
        (htraced.erase _) hes (done + 1)
      rw [← hbus, List.append_assoc, List.singleton_append] at hrest
      rw [flushAll_of_ok hp, offerAll_of_ok hp]
      exact hrest
    · rw [flushAll_of_error hp, offerAll_of_error hp, List.append_nil]
      exact htraced

/-- A submission adds its envelope to the history and records it. -/
theorem Traced.submit (h : Traced former history p.journal.index p.pending before) (o : Outage)
    (now : Instant) (t : Transaction) (eventTime : Instant) :
    Traced former (history ++ (p.learns (.submit o now t eventTime)).toList)
      (p.submit o now t eventTime).2.journal.index (p.submit o now t eventTime).2.pending
      (before ++ p.offerSubmitted o now t eventTime) := by
  have hlater := h.learn (p.learns (.submit o now t eventTime)).toList
  unfold Processor.submit offerSubmitted
  cases hexec : p.book.execute t with
  | error cause =>
    dsimp only
    rwa [List.append_nil]
  | ok answer =>
    obtain ⟨outcome, b⟩ := answer
    cases outcome with
    | applied =>
      rw [learns_of_applied hexec] at hlater ⊢
      exact Traced.record (p := { p with book := b }) hlater
        (List.mem_append_right _ List.mem_cons_self) o _
    | alreadyApplied =>
      dsimp only
      cases hwaits : p.pending.find? t.id with
      | none =>
        dsimp only
        rwa [List.append_nil]
      | some e =>
        exact Traced.record (p := { p with pending := p.pending.erase t.id })
          (hlater.erase t.id) (hlater.waiting t.id e hwaits).2 o _

/-- Any call keeps the trace, with the envelope that it learns and the records that it offers. -/
theorem Traced.step (h : Traced former history p.journal.index p.pending before) (c : Call) :
    Traced former (history ++ (p.learns c).toList) (p.step c).journal.index (p.step c).pending
      (before ++ p.offers c) := by
  cases c with
  | register a =>
    rw [learns, Option.toList_none, List.append_nil, offers, List.append_nil]
    exact h
  | disturb bus file =>
    rw [learns, Option.toList_none, List.append_nil, offers, List.append_nil]
    show Traced former history (p.journal.mapFile file).index p.pending before
    rw [Journal.index_mapFile]
    exact h
  | submit o now t eventTime => exact h.submit o now t eventTime
  | flush o =>
    rw [learns, Option.toList_none, List.append_nil]
    refine h.flushAll ?_ o 0
    intro e he
    obtain ⟨⟨id, f⟩, hrow, rfl⟩ := List.mem_map.mp he
    exact (h.waiting id f (Table.mem_rows_iff.mp hrow)).2

/-- The invariant holds after every run from a processor that has nothing waiting. -/
theorem traced_run (h : p.pending = .empty) (cs : List Call) :
    Traced p.journal.index (p.learned cs) (p.run cs).journal.index (p.run cs).pending
      (p.offered cs) := by
  induction cs using List.reverseRecOn with
  | nil =>
    rw [run, List.foldl_nil, h]
    exact traced_start _
  | append_singleton cs c ih =>
    rw [learned_append, learned, learned, List.append_nil, offered, trace_append, trace, trace,
      List.append_nil, run_append]
    exact ih.step c

/-! ## What the journal holds of it

  If the name was new to the journal of the start, the journal got it from the history, and the
  envelope under it is the one that was offered.  If it was not, the journal has kept what it had.
  -/

/-- A record that was offered is in the journal exactly if its transaction is new to the journal of
    the start, or the record was there. -/
theorem Traced.mem_iff (h : Traced former history x pending before)
    (hdistinct : (history.map Envelope.id).Nodup) (hr : r ∈ before) :
    r ∈ x.records ↔ former.sequenceOf? r.id = none ∨ r ∈ former.records := by
  obtain ⟨added, hx, hadded⟩ := h.grown
  obtain ⟨henvelope, hnumber⟩ := h.numbered r hr
  rw [hx]
  constructor
  · intro hmem
    rcases List.mem_append.mp hmem with hold | hnew
    · exact Or.inr hold
    · exact Or.inl (hadded r hnew).1
  · rintro (hnew | hold)
    · -- the record of this number and name came later, so it holds the one envelope of this name
      obtain ⟨r', hr', hid, hsequence⟩ := Index.exists_of_sequenceOf? hnumber
      rw [hx] at hr'
      rcases List.mem_append.mp hr' with hold | hlater
      · rw [Index.sequenceOf?_eq_none_iff] at hnew
        have hname : r'.id ∈ former.envelopes.map Envelope.id :=
          List.mem_map_of_mem (List.mem_map_of_mem hold)
        exact absurd (hid ▸ hname) hnew
      · have hsame : r'.envelope = r.envelope :=
          List.inj_on_of_nodup_map hdistinct (hadded r' hlater).2 henvelope hid
        obtain ⟨n, e⟩ := r
        obtain ⟨n', e'⟩ := r'
        obtain rfl : n' = n := hsequence
        obtain rfl : e' = e := hsame
        exact List.mem_append_right _ hlater
    · exact List.mem_append_left _ hold

/-- A run learns names that were not applied before, each once. -/
theorem learned_new (p : Processor) (cs : List Call) :
    ((p.learned cs).map Envelope.id).Nodup ∧ ∀ e ∈ p.learned cs, e.id ∉ p.book.applied := by
  obtain ⟨hnodup, hnew⟩ := p.book.accepted_new (cs.flatMap Call.onBook)
  rw [accepted_book] at hnodup hnew
  rw [List.map_map] at hnodup
  exact ⟨hnodup, fun e he => hnew e.transaction (List.mem_map_of_mem he)⟩

/-- **Which published records the journal holds.**  Make a processor of any book, journal and bus,
    and let it run through any calls, whatever is out of order around them.

    * Unless the bus is changed from outside, it carries the announcements of the published records,
      in order and each once, and nothing else.
    * Each of them is an envelope that the run learned, under the number that the journal has for
      the name of its transaction.
    * It is in the journal exactly if its transaction was not journalled at the start, or this very
      record was.
    * So all of them are if the book has applied, at the start, what is journalled then. -/
theorem published_held_iff (b : Book) (j : Journal) (bus : Bus) (cs : List Call) :
    let p : Processor := { start b j with bus := bus }
    ((∀ c ∈ cs, c.LeavesBus) →
      (p.run cs).bus = bus.publishAll ((p.publications cs).map announcement)) ∧
    (∀ r ∈ p.publications cs, r.envelope ∈ p.learned cs ∧
      (p.run cs).journal.index.sequenceOf? r.id = some r.sequence ∧
      (r ∈ (p.run cs).journal.index.records ↔
        r.id ∉ j.envelopes.map Envelope.id ∨ r ∈ j.index.records)) ∧
    ((∀ e ∈ j.envelopes, e.id ∈ b.applied) →
      ∀ r ∈ p.publications cs, r ∈ (p.run cs).journal.index.records) := by
  intro p
  have htraced : Traced j.index (p.learned cs) (p.run cs).journal.index (p.run cs).pending
      (p.offered cs) := traced_run (p := p) rfl cs
  obtain ⟨hdistinct, hnew⟩ := learned_new p cs
  have hheld : ∀ r ∈ p.publications cs, r.envelope ∈ p.learned cs ∧
      (p.run cs).journal.index.sequenceOf? r.id = some r.sequence ∧
      (r ∈ (p.run cs).journal.index.records ↔
        r.id ∉ j.envelopes.map Envelope.id ∨ r ∈ j.index.records) := by
    intro r hr
    have hoffered : r ∈ p.offered cs := publications_subset_offered p cs hr
    obtain ⟨henvelope, hnumber⟩ := htraced.numbered r hoffered
    refine ⟨henvelope, hnumber, ?_⟩
    rw [htraced.mem_iff hdistinct hoffered, Index.sequenceOf?_eq_none_iff]
    exact Iff.rfl
  refine ⟨fun hcs => bus_run p hcs, hheld, ?_⟩
  intro hknown r hr
  obtain ⟨henvelope, -, hiff⟩ := hheld r hr
  refine hiff.mpr (Or.inl ?_)
  intro hmem
  obtain ⟨e, he, hid⟩ := List.mem_map.mp hmem
  have hname : e.id = r.envelope.id := hid
  exact hnew r.envelope henvelope (hname ▸ hknown e he)

end Processor

/-! ## A journal that knows more than its book -/

namespace Sample

/-- A journal that holds a first transfer of the noon. -/
def formerJournal : Journal :=
  ⟨⟨[⟨1, ⟨.epoch, noon, transfer firstId alice bob threeTenths⟩⟩]⟩, .memory⟩

/-- In the evening another transfer is submitted under the name of the first. -/
def renamedRun : List Processor.Call :=
  [.submit .none evening (transfer firstId bob alice two) afternoon]

/-- What is published of them: the other transfer, under the number of the first. -/
def renamedRecord : Record := ⟨1, ⟨afternoon, evening, transfer firstId bob alice two⟩⟩

/-- A processor of that journal and of a new book, which has applied nothing. -/
def unknowing : Processor := .start (.ofRegistry registry) formerJournal

end Sample

/-- A new book applies the other transfer, and the journal has the number of the first for it. -/
theorem Processor.published_held_iff_renamed :
    Sample.renamedRecord ∈ Sample.unknowing.publications Sample.renamedRun ∧
      (Sample.unknowing.run Sample.renamedRun).journal.index.sequenceOf? Sample.firstId = some 1 ∧
      Sample.renamedRecord ∉ (Sample.unknowing.run Sample.renamedRun).journal.index.records := by
  have hpublished : Sample.renamedRecord ∈ Sample.unknowing.publications Sample.renamedRun := by
    decide
  obtain ⟨-, hheld, -⟩ := published_held_iff (.ofRegistry Sample.registry) Sample.formerJournal
    .empty Sample.renamedRun
  obtain ⟨-, hnumber, hiff⟩ := hheld Sample.renamedRecord hpublished
  refine ⟨hpublished, hnumber, ?_⟩
  intro hmem
  exact absurd (hiff.mp hmem) (by decide)

/-- Not every record that is published is one that the journal holds. -/
theorem Processor.published_not_held :
    ¬ ∀ (b : Book) (j : Journal) (cs : List Processor.Call),
      ∀ r ∈ (start b j).publications cs, r ∈ ((start b j).run cs).journal.index.records := by
  intro h
  have hpublished : Sample.renamedRecord ∈ Sample.unknowing.publications Sample.renamedRun := by
    decide
  have hheld := h (.ofRegistry Sample.registry) Sample.formerJournal Sample.renamedRun _ hpublished
  exact absurd hheld (by decide)

end Subledger
