/-
  ANNOUNCEMENTS: the bus carries exactly what the journal gained.

  A record reaches the journal on one of three ways: when its transaction is submitted, when it is
  submitted again, and when what waits is flushed.  On each it is announced right after, and once.

  1. **Gains** (`Gains`) — what a part of a run does to journal and bus, in one relation: records at
     the end of the journal, numbered on, and their announcements on the bus, in this order.
     Gains are put together (`Gains.trans`).
  2. **One envelope** (`record_gains`) — an envelope that is in hands is new to the journal, so it is
     journalled under the next number and announced, or neither.
  3. **Calls and runs** (`submit_gains`, `run_gains`) — so every call gains some records, and so does
     a run.  A submission gains the record whose number it answers, and no other.

  The announcements must get through: the bus is open and can be reached.  What fails to be
  journalled, when and how often, is any.
-/
import Subledger.Proofs.Bus
import Subledger.Proofs.Processor.Run

namespace Subledger

/-- Every announcement gets through to the bus. -/
def Outage.Audible (o : Outage) : Prop := ∀ id, o.reachable id = true

theorem Outage.audible_none : Outage.none.Audible := fun _ => rfl

namespace Processor

/-! ## Gains -/

/-- From `p` to `q` the journal gained these records, numbered on from its last, and the bus carried
    their announcements. -/
structure Gains (p q : Processor) (rs : List Record) : Prop where
  records : q.journal.index.records = p.journal.index.records ++ rs
  numbered : rs.map Record.sequence = List.range' p.journal.index.nextSequence rs.length
  bus : q.bus = p.bus.publishAll (rs.map announcement)

variable {p q : Processor} {rs : List Record}

/-- What touches neither journal nor bus gains nothing. -/
theorem Gains.of_same (hindex : q.journal.index = p.journal.index) (hbus : q.bus = p.bus) :
    Gains p q [] := ⟨by rw [hindex, List.append_nil], rfl, hbus⟩

/-- One record more, and its announcement. -/
theorem Gains.of_push {e : Envelope}
    (hindex : q.journal.index = p.journal.index.push ⟨p.journal.index.nextSequence, e⟩)
    (hbus : q.bus = p.bus.afterMessage (announcement ⟨p.journal.index.nextSequence, e⟩)) :
    Gains p q [⟨p.journal.index.nextSequence, e⟩] :=
  ⟨congrArg Index.records hindex, rfl, hbus⟩

/-- The numbers go on behind what was gained. -/
theorem Gains.nextSequence (h : Gains p q rs) :
    q.journal.index.nextSequence = p.journal.index.nextSequence + rs.length := by
  rw [← Index.nextSequence_append h.numbered, ← h.records]

theorem Gains.trans {r : Processor} {more : List Record} (h : Gains p q rs) (h' : Gains q r more) :
    Gains p r (rs ++ more) := by
  refine ⟨?_, ?_, ?_⟩
  · rw [h'.records, h.records, List.append_assoc]
  · rw [List.map_append, h.numbered, h'.numbered, h.nextSequence, List.length_append,
      List.range'_append_1]
  · rw [h'.bus, h.bus, List.map_append, Bus.publishAll_append]

/-- Announcements do not close the bus. -/
theorem Gains.open (h : Gains p q rs) (hopen : p.bus.closed = false) : q.bus.closed = false := by
  rw [h.bus, Bus.closed_publishAll]
  exact hopen

/-! ## One envelope -/

variable {history : List Envelope} {e : Envelope} {o : Outage}

/-- An announcement that gets through. -/
theorem announce_of_audible (ho : o.Audible) (hopen : p.bus.closed = false) (r : Record) :
    p.announce o r = .ok { p with bus := p.bus.afterMessage (announcement r) } := by
  obtain ⟨count, hpublish, -⟩ := Bus.publish_of_open hopen (announcement r)
  rw [announce, ho, hpublish]

theorem announced_of_audible (ho : o.Audible) (hopen : p.bus.closed = false) (r : Record) :
    p.announced o r = { p with bus := p.bus.afterMessage (announcement r) } := by
  rw [announced, announce_of_audible ho hopen]

/-- An envelope in hands is new to the journal: it gets the next number, or is put among what
    waits. -/
theorem Holding.appendOrPark_index (h : Holding history p.journal.envelopes p.pending e)
    (o : Outage) :
    (∃ j, p.appendOrPark o e = (.ok ⟨p.journal.index.nextSequence, e⟩, { p with journal := j }) ∧
      j.index = p.journal.index.push ⟨p.journal.index.nextSequence, e⟩) ∨
    ∃ cause j, p.appendOrPark o e = (.error cause,
        { p with journal := j, pending := p.pending.insert e.id e }) ∧
      j.index = p.journal.index := by
  unfold Processor.appendOrPark
  rcases Journal.appendUnder_of_new h.not_logged (o.journal e.id) with
    ⟨j, hj, hpushed⟩ | ⟨cause, j, hj, hsame⟩
  · exact Or.inl ⟨j, by rw [hj]; rfl, hpushed⟩
  · exact Or.inr ⟨_, j, by rw [hj], hsame⟩

/-- What is in hands is pushed. -/
theorem Holding.log_pushed {former : Journal} {pending : Table TransactionId Envelope}
    (h : Holding history former.envelopes pending e) {j : Journal} {n : Nat}
    (hpushed : j.index = former.index.push ⟨n, e⟩) :
    Settled history j.envelopes (pending.erase e.id) := by
  have hadded : j.envelopes = former.envelopes ++ [e] := by
    rw [Journal.envelopes, hpushed]
    exact List.map_append
  rw [hadded]
  exact h.log

/-- An envelope in hands is journalled and announced, and the answer gives its number; or neither,
    and the answer is an error. -/
theorem Holding.record_gains (h : Holding history p.journal.envelopes p.pending e)
    (ho : o.Audible) (hopen : p.bus.closed = false) (outcome : Outcome) :
    (∃ q, p.record o outcome e = (.ok ⟨outcome, some p.journal.index.nextSequence⟩, q) ∧
      Gains p q [⟨p.journal.index.nextSequence, e⟩]) ∨
    ∃ cause q, p.record o outcome e = (.error cause, q) ∧ Gains p q [] := by
  rcases h.appendOrPark_index o with ⟨j, hp, hpushed⟩ | ⟨cause, j, hp, hsame⟩
  · have hannounced := announce_of_audible (p := { p with journal := j }) ho hopen
      ⟨p.journal.index.nextSequence, e⟩
    have hgains : Gains p { p with
        journal := j, bus := p.bus.afterMessage (announcement ⟨p.journal.index.nextSequence, e⟩) }
        [⟨p.journal.index.nextSequence, e⟩] := .of_push hpushed rfl
    refine Or.inl ⟨_, ?_, hgains⟩
    rw [Processor.record, hp]
    dsimp only
    rw [hannounced]
  · have hgains : Gains p { p with journal := j, pending := p.pending.insert e.id e } [] :=
      .of_same hsame rfl
    refine Or.inr ⟨cause, _, ?_, hgains⟩
    rw [Processor.record, hp]

/-! ## Calls and runs -/

/-- A flush gains what it journals, up to the first that fails. -/
theorem Settled.flushAll_gains {es : List Envelope}
    (h : Settled history p.journal.envelopes p.pending) (hes : p.pending.values = es)
    (ho : o.Audible) (hopen : p.bus.closed = false) (done : Nat) :
    ∃ rs, Gains p (p.flushAll o done es).2 rs := by
  induction es generalizing p done with
  | nil => exact ⟨[], .of_same rfl rfl⟩
  | cons e es ih =>
    obtain ⟨hhold, hvalues⟩ := h.take_first hes
    rcases hhold.appendOrPark_index o with ⟨j, hp, hpushed⟩ | ⟨cause, j, hp, hsame⟩
    · have hannounced := announced_of_audible
        (p := { p with journal := j, pending := p.pending.erase e.id }) ho hopen
        ⟨p.journal.index.nextSequence, e⟩
      have hnow : Gains p { p with
          journal := j, pending := p.pending.erase e.id
          bus := p.bus.afterMessage (announcement ⟨p.journal.index.nextSequence, e⟩) }
          [⟨p.journal.index.nextSequence, e⟩] := .of_push hpushed rfl
      obtain ⟨rs, hlater⟩ := ih (hhold.log_pushed hpushed) hvalues (hnow.open hopen)
        (done + 1)
      refine ⟨_ :: rs, hnow.trans ?_⟩
      rw [flushAll_of_ok hp]
      exact hannounced ▸ hlater
    · rw [flushAll_of_error hp]
      exact ⟨[], .of_same hsame rfl⟩

/-- A submission gains one record, of its transaction and with the number that it answers; or it
    gains nothing, and answers no number. -/
theorem Settled.submit_gains (h : Settled history p.journal.envelopes p.pending) (ho : o.Audible)
    (hopen : p.bus.closed = false) {now : Instant} {t : Transaction} {eventTime : Instant}
    (hnew : ((history ++ (p.learns (.submit o now t eventTime)).toList).map Envelope.id).Nodup) :
    (∃ outcome e q, p.submit o now t eventTime
        = (.ok ⟨outcome, some p.journal.index.nextSequence⟩, q) ∧ e.id = t.id ∧
      Gains p q [⟨p.journal.index.nextSequence, e⟩]) ∨
    ∃ answer q, p.submit o now t eventTime = (answer, q) ∧
      (∀ outcome n, answer ≠ .ok ⟨outcome, some n⟩) ∧ Gains p q [] := by
  unfold Processor.submit
  cases hexec : p.book.execute t with
  | error cause => exact Or.inr ⟨_, _, rfl, by simp, .of_same rfl rfl⟩
  | ok answer =>
    obtain ⟨outcome, b⟩ := answer
    cases outcome with
    | applied =>
      rw [learns_of_applied hexec, Option.toList_some] at hnew
      have hbefore : Gains p { p with book := b } [] := .of_same rfl rfl
      rcases Holding.record_gains (p := { p with book := b }) (h.learn hnew) ho hopen .applied with
        ⟨q, hq, hgains⟩ | ⟨cause, q, hq, hgains⟩
      · exact Or.inl ⟨_, _, q, hq, rfl, hbefore.trans hgains⟩
      · exact Or.inr ⟨_, q, hq, by simp, hbefore.trans hgains⟩
    | alreadyApplied =>
      dsimp only
      cases hwaits : p.pending.find? t.id with
      | none => exact Or.inr ⟨_, _, rfl, by simp, .of_same rfl rfl⟩
      | some e =>
        -- the envelope that waits is the one of that name
        have hname : e.id = t.id := h.named _ e hwaits
        rw [← hname] at hwaits ⊢
        have hbefore : Gains p { p with pending := p.pending.erase e.id } [] := .of_same rfl rfl
        rcases Holding.record_gains (p := { p with pending := p.pending.erase e.id })
          (h.take_erase hwaits) ho hopen .alreadyApplied with
          ⟨q, hq, hgains⟩ | ⟨cause, q, hq, hgains⟩
        · exact Or.inl ⟨_, e, q, hq, rfl, hbefore.trans hgains⟩
        · exact Or.inr ⟨_, q, hq, by simp, hbefore.trans hgains⟩

/-- A submission answers a number exactly if it put its transaction there. -/
theorem Settled.submit_answers_iff (h : Settled history p.journal.envelopes p.pending)
    (ho : o.Audible) (hopen : p.bus.closed = false) {now : Instant} {t : Transaction}
    {eventTime : Instant}
    (hnew : ((history ++ (p.learns (.submit o now t eventTime)).toList).map Envelope.id).Nodup)
    (n : Nat) :
    (∃ outcome, (p.submit o now t eventTime).1 = .ok ⟨outcome, some n⟩) ↔
      ∃ r : Record, r.sequence = n ∧ r.id = t.id ∧
        (p.submit o now t eventTime).2.journal.index.records
          = p.journal.index.records ++ [r] := by
  rcases h.submit_gains ho hopen hnew with ⟨outcome, e, q, hq, hid, hgains⟩ |
    ⟨answer, q, hq, hnumber, hgains⟩
  · rw [hq]
    constructor
    · rintro ⟨outcome', hanswer⟩
      cases hanswer
      exact ⟨⟨_, e⟩, rfl, hid, hgains.records⟩
    · rintro ⟨r, rfl, -, hrecords⟩
      rw [hgains.records] at hrecords
      obtain rfl := (List.cons.inj (List.append_cancel_left hrecords)).1
      exact ⟨outcome, rfl⟩
  · rw [hq]
    refine iff_of_false ?_ ?_
    · rintro ⟨outcome, hanswer⟩
      exact hnumber outcome n hanswer
    · rintro ⟨r, -, -, hrecords⟩
      rw [hgains.records] at hrecords
      exact List.cons_ne_nil _ _ (List.append_cancel_left hrecords).symm

/-- A call whose announcements get through, and which does not touch the bus in other ways. -/
def Call.Audible : Call → Prop
  | .register _ => True
  | .submit o _ _ _ => o.Audible
  | .flush o => o.Audible
  | .disturb bus _ => ∀ b, bus b = b

/-- Any call gains some records. -/
theorem Settled.step_gains (h : Settled history p.journal.envelopes p.pending) {c : Call}
    (hc : c.Audible) (hopen : p.bus.closed = false)
    (hnew : ((history ++ (p.learns c).toList).map Envelope.id).Nodup) :
    ∃ rs, Gains p (p.step c) rs := by
  cases c with
  | register a => exact ⟨[], .of_same rfl rfl⟩
  | submit o now t eventTime =>
    rcases h.submit_gains hc hopen hnew with ⟨outcome, e, q, hq, -, hgains⟩ |
      ⟨answer, q, hq, -, hgains⟩
    · rw [Processor.step, hq]
      exact ⟨_, hgains⟩
    · rw [Processor.step, hq]
      exact ⟨_, hgains⟩
  | flush o => exact h.flushAll_gains rfl hc hopen 0
  | disturb bus file => exact ⟨[], .of_same (Journal.index_mapFile _ _) (hc p.bus)⟩

/-- A run gains some records. -/
theorem Agreed.run_gains (h : Agreed p) (hopen : p.bus.closed = false) {cs : List Call}
    (hcs : ∀ c ∈ cs, c.Audible) : ∃ rs, Gains p (p.run cs) rs := by
  induction cs using List.reverseRecOn with
  | nil => exact ⟨[], .of_same rfl rfl⟩
  | append_singleton cs c ih =>
    obtain ⟨rs, hgains⟩ := ih fun c hc => hcs c (List.mem_append_left _ hc)
    obtain ⟨more, hmore⟩ := (settled_of_agreed h cs).step_gains
      (hcs c (List.mem_append_right _ List.mem_cons_self)) (hgains.open hopen) (h.learns_new cs c)
    rw [run_append]
    exact ⟨rs ++ more, hgains.trans hmore⟩

/-- **The bus carries exactly what the journal gains.**  Let book and journal agree, and nothing
    wait; then in every run whose announcements get through, whatever fails to be journalled,

    * the records that the journal gains are numbered on, and their announcements — the canonical
      bytes, under the name of the transaction — are published in this order, each once;
    * so a sole listener finds them at the end of its queue;
    * and the next submission answers a number exactly if it put its transaction there. -/
theorem announcements_are_records (h : Agreed p) (hopen : p.bus.closed = false) {cs : List Call}
    (hcs : ∀ c ∈ cs, c.Audible) :
    (∃ gained : List Record,
      (p.run cs).journal.index.records = p.journal.index.records ++ gained ∧
      gained.map Record.sequence
        = List.range' p.journal.index.nextSequence gained.length ∧
      (p.run cs).bus = p.bus.publishAll (gained.map announcement) ∧
      ∀ name n s, name.topic = transactionsTopic → p.bus.Hears name n s →
        (p.run cs).bus.Hears name n { s with queue := s.queue ++ gained.map announcement }) ∧
    ∀ o now t eventTime n, o.Audible →
      ((∃ outcome, ((p.run cs).submit o now t eventTime).1 = .ok ⟨outcome, some n⟩) ↔
        ∃ r : Record, r.sequence = n ∧ r.id = t.id ∧
          ((p.run cs).submit o now t eventTime).2.journal.index.records
            = (p.run cs).journal.index.records ++ [r]) := by
  obtain ⟨gained, hgains⟩ := h.run_gains hopen hcs
  refine ⟨⟨gained, hgains.records, hgains.numbered, hgains.bus, ?_⟩, ?_⟩
  · intro name n s hname hhears
    rw [hgains.bus]
    refine hhears.publishAll hopen fun m hm => ?_
    obtain ⟨r, -, rfl⟩ := List.mem_map.mp hm
    exact hname.symm
  · intro o now t eventTime n ho
    exact (settled_of_agreed h cs).submit_answers_iff ho (hgains.open hopen)
      (h.learns_new cs (.submit o now t eventTime)) n

end Processor

namespace Sample

/-- Nothing can be journalled, but everything can be announced. -/
def unwritable : Outage := ⟨fun _ => some .diskFull, Outage.none.reachable⟩

/-- The group of the only listener. -/
def listeners : GroupName := ⟨transactionsTopic, "general-ledger"⟩

/-- A new processor with one listener. -/
def heardProcessor : Processor :=
  { processor with bus := ⟨Table.empty.insert listeners ⟨[0], 0⟩, [⟨true, []⟩], false⟩ }

/-- The first transfer waits until the other transaction is journalled. -/
def heardRun : List Processor.Call :=
  [.submit unwritable noon (transfer firstId alice bob threeTenths) .epoch,
    .submit .none evening passingOn .epoch,
    .flush .none]

end Sample

open Processor in
/-- The listener hears of the second transaction before it hears of the first. -/
theorem Processor.announcements_are_records_belated :
    (Sample.heardProcessor.run Sample.heardRun).journal.envelopes.map Envelope.id
        = [Sample.secondId, Sample.firstId] ∧
      (Sample.heardProcessor.run Sample.heardRun).bus.Hears Sample.listeners 0
        ⟨true, (Sample.heardProcessor.run Sample.heardRun).journal.index.records.map
          announcement⟩ := by
  have hfresh : Fresh Sample.registry Sample.heardProcessor := ⟨rfl, rfl, rfl⟩
  have haudible : ∀ c ∈ Sample.heardRun, c.Audible := by
    simp only [Sample.heardRun, List.forall_mem_cons, Call.Audible]
    exact ⟨Outage.audible_none, Outage.audible_none, Outage.audible_none, List.forall_mem_nil _⟩
  have hhears : Sample.heardProcessor.bus.Hears Sample.listeners 0 ⟨true, []⟩ := by
    refine ⟨⟨0, rfl⟩, rfl, rfl, ?_⟩
    intro other g hg _
    by_cases hother : other = Sample.listeners
    · exact hother
    · have hnone : Sample.heardProcessor.bus.groups.find? other = none :=
        Table.find?_insert_of_ne _ _ hother
      rw [hnone] at hg
      exact nomatch hg
  obtain ⟨⟨gained, hrecords, -, -, hheard⟩, -⟩ :=
    announcements_are_records hfresh.agreed rfl haudible
  rw [hrecords]
  exact ⟨by decide +kernel, hheard _ 0 _ rfl hhears⟩

end Subledger
