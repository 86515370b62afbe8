/-
  FLUSHING: what waits is journalled up to the first that cannot be.

  A flush works off what waited when it began, one envelope after the other, while what waits
  changes under its hands: an envelope that is journalled is taken out, and one that is not is put
  back.

  1. **The journal's part** (`TakesIn`) — a journal takes envelopes in one after the other, and each
     addition may fail.  So all are taken in, or some first ones are and the next one fails
     (`takesIn_or_fails`).
  2. **The loop** (`flushAll_of_takesIn`) — while envelopes are taken in, the loop drops their rows,
     and nothing else happens but on the bus.  The crux is that what still waits is always the rest
     of what the loop has before it, so that the one that fails is put back where it stands.
  3. **The result** (`flush_logs_prefix`) — what is journalled is a first part of what waited, and
     the rest is as it was.  The bus has no say in it.
-/
import Subledger.Proofs.Processor.Delivery

namespace Subledger

namespace Journal

/-! ## The journal's part

  What a journal does with the envelopes is said first, without the processor: it takes them in up
  to the first that fails. -/

/-- Under these outages the journal takes envelopes in, one after the other. -/
inductive TakesIn (outage : TransactionId → Option IoFailure) :
    Journal → List Envelope → Journal → Prop where
  | nil (j : Journal) : TakesIn outage j [] j
  | cons {j j' j'' : Journal} {e : Envelope} {es : List Envelope} {ack : Ack} :
    j.appendUnder (outage e.id) e = (.ok ack, j') → TakesIn outage j' es j'' →
      TakesIn outage j (e :: es) j''

variable {outage : TransactionId → Option IoFailure} {j j' : Journal} {es : List Envelope}

/-- A journal takes envelopes in up to the last, or up to the first that fails. -/
theorem takesIn_or_fails (outage : TransactionId → Option IoFailure) (j : Journal)
    (es : List Envelope) : (∃ j', TakesIn outage j es j') ∨
      ∃ before x after j' cause j'', es = before ++ x :: after ∧ TakesIn outage j before j' ∧
        j'.appendUnder (outage x.id) x = (.error cause, j'') := by
  induction es generalizing j with
  | nil => exact Or.inl ⟨j, .nil j⟩
  | cons e es ih =>
    cases hadd : j.appendUnder (outage e.id) e with
    | mk answer j₁ =>
      cases answer with
      | error cause => exact Or.inr ⟨[], e, es, j, cause, j₁, rfl, .nil j, hadd⟩
      | ok ack =>
        rcases ih j₁ with ⟨j', hall⟩ | ⟨before, x, after, j', cause, j'', rfl, hbefore, hx⟩
        · exact Or.inl ⟨j', .cons hadd hall⟩
        · exact Or.inr ⟨e :: before, x, after, j', cause, j'', rfl, .cons hadd hbefore, hx⟩

/-- Those of some envelopes whose transactions are not journalled. -/
def unlogged (j : Journal) (es : List Envelope) : List Envelope :=
  es.filter fun e => e.id ∉ j.envelopes.map Envelope.id

/-- An envelope of another name does not make the others logged. -/
theorem unlogged_of_added {e : Envelope} (hadded : j'.envelopes = j.envelopes ++ [e])
    (hfresh : e.id ∉ es.map Envelope.id) : j'.unlogged es = j.unlogged es := by
  refine List.filter_congr ?_
  intro f hf
  have hother : f.id ≠ e.id := by
    intro heq
    exact hfresh (List.mem_map.mpr ⟨f, hf, heq⟩)
  simp [hadded, hother]

/-- What is taken in is journalled: the envelopes of transactions that were not there are put at the
    end, numbered on, and nothing else is. -/
theorem TakesIn.gained (h : TakesIn outage j es j') (hdistinct : (es.map Envelope.id).Nodup) :
    ∃ rs, j'.index.records = j.index.records ++ rs ∧ rs.map Record.envelope = j.unlogged es ∧
      rs.map Record.sequence = List.range' j.index.nextSequence rs.length := by
  induction h with
  | nil j => exact ⟨[], (List.append_nil _).symm, rfl, rfl⟩
  | @cons j j₁ j' e es ack hadd _ ih =>
    obtain ⟨hfresh, hdistinct⟩ := List.nodup_cons.mp hdistinct
    obtain ⟨rs, hrecords, henvelopes, hnumbered⟩ := ih hdistinct
    rcases j.appendUnder_index (outage e.id) e with
      ⟨j₂, hj₂, hnone, hpushed⟩ | ⟨n, hj₂, hsome⟩ | ⟨cause, j₂, hj₂, -⟩
    · rw [hadd] at hj₂
      obtain ⟨-, rfl⟩ := Prod.mk.inj hj₂
      have hnew : e.id ∉ j.envelopes.map Envelope.id := Index.sequenceOf?_eq_none_iff.mp hnone
      have hadded : j₁.envelopes = j.envelopes ++ [e] := by
        rw [envelopes, hpushed]
        exact List.map_append
      refine ⟨⟨j.index.nextSequence, e⟩ :: rs, ?_, ?_, ?_⟩
      · rw [hrecords, hpushed, Index.push, List.append_assoc]
        rfl
      · rw [List.map_cons, henvelopes, unlogged_of_added hadded hfresh]
        rw [unlogged, unlogged, List.filter_cons_of_pos (by simpa using hnew)]
      · rw [List.map_cons, hnumbered, hpushed, Index.nextSequence_push, List.length_cons,
          List.range'_succ]
    · -- its transaction is there already
      rw [hadd] at hj₂
      obtain ⟨-, rfl⟩ := Prod.mk.inj hj₂
      have hold : e.id ∈ j₁.envelopes.map Envelope.id := by
        by_contra hnew
        rw [Index.sequenceOf?_eq_none_iff.mpr hnew] at hsome
        cases hsome
      refine ⟨rs, hrecords, ?_, hnumbered⟩
      rw [henvelopes, unlogged, unlogged, List.filter_cons_of_neg (by simpa using hold)]
    · rw [hadd] at hj₂
      cases hj₂

/-- All that is taken in is journalled then. -/
theorem TakesIn.logged (h : TakesIn outage j es j') (hdistinct : (es.map Envelope.id).Nodup) :
    ∀ e ∈ es, e.id ∈ j'.envelopes.map Envelope.id := by
  obtain ⟨rs, hrecords, henvelopes, -⟩ := h.gained hdistinct
  have hall : j'.envelopes = j.envelopes ++ j.unlogged es := by
    rw [← henvelopes, envelopes, Index.envelopes, hrecords, List.map_append]
    rfl
  intro e he
  rw [hall, List.map_append, List.mem_append, or_iff_not_imp_left]
  intro hnew
  exact List.mem_map_of_mem (List.mem_filter.mpr ⟨he, decide_eq_true hnew⟩)

end Journal

namespace Processor

/-! ## What waits, and under which names

  The loop drops rows by the names of envelopes, and so it drops the right ones only if each stands
  under its own. -/

/-- Every envelope waits under the name of its transaction. -/
def Named (pending : Table TransactionId Envelope) : Prop :=
  ∀ id e, pending.find? id = some e → e.id = id

variable {p q : Processor} {o : Outage}

/-- An envelope that is put aside stands under its own name. -/
theorem named_appendOrPark (h : Named p.pending) (o : Outage) (e : Envelope) :
    Named (p.appendOrPark o e).2.pending := by
  rcases appendOrPark_cases o p e with ⟨n, j, hp, -⟩ | ⟨n, hp, -⟩ | ⟨cause, j, hp, -⟩
  · rw [hp]
    exact h
  · rw [hp]
    exact h
  · rw [hp]
    exact named_insert h e

/-- Announcing leaves what waits alone. -/
theorem pending_announced (o : Outage) (p : Processor) (r : Record) :
    (p.announced o r).pending = p.pending := by
  obtain ⟨bus, hbus⟩ := announced_eq o p r
  rw [hbus]

/-- So what waits is still named when a record is done. -/
theorem named_record (h : Named p.pending) (o : Outage) (outcome : Outcome) (e : Envelope) :
    Named (p.record o outcome e).2.pending := by
  have hadd := named_appendOrPark h o e
  rcases hq : p.appendOrPark o e with ⟨cause | r, q⟩
  · rw [hq] at hadd
    rw [record_of_error hq]
    exact hadd
  · rw [hq] at hadd
    rw [record_of_ok hq, pending_announced]
    exact hadd

/-- And when a flush is. -/
theorem named_flushAll (h : Named p.pending) (o : Outage) (done : Nat) (es : List Envelope) :
    Named (p.flushAll o done es).2.pending := by
  induction es generalizing p done with
  | nil => exact h
  | cons e es ih =>
    have hadd := named_appendOrPark h o e
    rcases hq : p.appendOrPark o e with ⟨cause | r, q⟩
    · rw [hq] at hadd
      rw [flushAll_of_error hq]
      exact hadd
    · rw [hq] at hadd
      rw [flushAll_of_ok hq]
      apply ih
      rw [pending_announced]
      exact named_erase hadd r.id

/-- Whatever is called, what waits does so under its name. -/
theorem named_step (h : Named p.pending) (c : Call) : Named (p.step c).pending := by
  cases c with
  | register a => exact h
  | flush o => exact named_flushAll h o 0 _
  | disturb bus file => exact h
  | submit o now t eventTime =>
    show Named (p.submit o now t eventTime).2.pending
    unfold submit
    cases p.book.execute t with
    | error cause => exact h
    | ok answer =>
      obtain ⟨outcome, b⟩ := answer
      cases outcome with
      | applied => exact named_record (p := { p with book := b }) h o _ _
      | alreadyApplied =>
        dsimp only
        cases p.pending.find? t.id with
        | none => exact h
        | some e =>
          exact named_record (p := { p with pending := p.pending.erase t.id })
            (named_erase h t.id) o _ _

/-- And after any calls. -/
theorem named_run (h : Named p.pending) (cs : List Call) : Named (p.run cs).pending :=
  run_preserves (Q := fun _ => True) (fun q => Named q.pending) (fun _ hq => named_step hq _)
    (fun _ _ => trivial) h

/-- What waits comes in the order of the names. -/
theorem Named.ids (h : Named p.pending) : p.pending.values.map Envelope.id = p.pendingIds := by
  rw [Table.values, List.map_map, pendingIds, Table.keys]
  refine List.map_congr_left ?_
  rintro ⟨id, e⟩ hrow
  exact h id e (Table.mem_rows_iff.mp hrow)

/-! ## The loop

  With both in hand the loop is followed row by row. -/

/-- While envelopes are taken in, the loop drops their rows and goes on with what is left. -/
theorem flushAll_of_takesIn {rows rest : List (TransactionId × Envelope)} {j' : Journal}
    (hnamed : Named p.pending) (hrows : p.pending.rows = rows ++ rest)
    (h : Journal.TakesIn o.journal p.journal (rows.map Prod.snd) j') (done : Nat) :
    ∃ q : Processor, q.book = p.book ∧ q.journal = j' ∧ q.pending.rows = rest ∧
      ∀ more, p.flushAll o done (rows.map Prod.snd ++ more)
        = q.flushAll o (done + rows.length) more := by
  induction rows generalizing p done with
  | nil =>
    cases h
    exact ⟨p, rfl, rfl, hrows, fun more => rfl⟩
  | cons row rows ih =>
    obtain ⟨id, e⟩ := row
    obtain rfl : e.id = id := hnamed id e (Table.mem_rows_iff.mp (hrows ▸ List.mem_cons_self))
    cases h with
    | @cons _ j₁ _ _ _ ack hadd hrest =>
      have hpark : p.appendOrPark o e = (.ok ⟨ack.sequence, e⟩, { p with journal := j₁ }) := by
        rw [appendOrPark, hadd]
      -- the bus is whatever the announcement leaves
      obtain ⟨bus, hbus⟩ := announced_eq o
        { p with journal := j₁, pending := p.pending.erase e.id } ⟨ack.sequence, e⟩
      obtain ⟨q, hbook, hjournal, hpending, hloop⟩ :=
        ih (p := { p with journal := j₁, pending := p.pending.erase e.id, bus := bus })
          (named_erase hnamed e.id) (Table.rows_erase_of_cons hrows) hrest (done + 1)
      refine ⟨q, hbook, hjournal, hpending, fun more => ?_⟩
      have hnext := hloop more
      rw [← hbus] at hnext
      rw [List.map_cons, List.cons_append, flushAll_of_ok hpark, List.length_cons,
        ← Nat.add_assoc, Nat.add_right_comm]
      exact hnext

/-- An envelope that waits and cannot be journalled goes on waiting, and the loop ends. -/
theorem flushAll_of_fails {x : Envelope} {cause : JournalError} {j' : Journal}
    (hwaits : p.pending.find? x.id = some x)
    (hx : p.journal.appendUnder (o.journal x.id) x = (.error cause, j')) (done : Nat)
    (after : List Envelope) : p.flushAll o done (x :: after)
      = (.error (.persistence x.id cause), { p with journal := j' }) := by
  have hpark : p.appendOrPark o x
      = (.error (.persistence x.id cause), { p with journal := j' }) := by
    rw [appendOrPark, hx]
    dsimp only
    rw [Table.insert_of_find? hwaits]
  exact flushAll_of_error hpark done after

/-! ## The result

  What a flush gains and what it leaves, as a relation between the processor before and after. -/

/-- From `p` to `q` a first part of what waited was journalled: the rest still waits as it did, and
    the journal gained what it did not have, numbered on, and nothing else. -/
structure Flushed (p q : Processor) (before : List Envelope) : Prop where
  book : q.book = p.book
  waits : ∃ rows, p.pending.rows = rows ++ q.pending.rows ∧ rows.map Prod.snd = before
  logged : ∀ e ∈ before, e.id ∈ q.journal.envelopes.map Envelope.id
  gained : ∃ rs, q.journal.index.records = p.journal.index.records ++ rs ∧
    rs.map Record.envelope = p.journal.unlogged before ∧
    rs.map Record.sequence = List.range' p.journal.index.nextSequence rs.length

/-- What still waits is what waited but for the first part. -/
theorem Flushed.pending_eq {before : List Envelope} (h : Flushed p q before) :
    q.pending.rows = p.pending.rows.drop before.length := by
  obtain ⟨rows, hrows, rfl⟩ := h.waits
  rw [hrows, List.length_map, List.drop_left]

/-- A part of what waits that the journal takes in is flushed, whatever the loop does then. -/
theorem flushed_of_takesIn {before more : List Envelope} {j' : Journal} (hnamed : Named p.pending)
    (hvalues : p.pending.values = before ++ more)
    (h : Journal.TakesIn o.journal p.journal before j') :
    ∃ q, Flushed p q before ∧ q.journal = j' ∧ q.pending.values = more ∧
      p.flush o = q.flushAll o before.length more := by
  obtain ⟨rows, rest, hrows, rfl, rfl⟩ := List.map_eq_append_iff.mp hvalues
  obtain ⟨q, hbook, rfl, rfl, hloop⟩ := flushAll_of_takesIn hnamed hrows h 0
  have hdistinct : ((rows.map Prod.snd).map Envelope.id).Nodup := by
    have hall : (p.pending.values.map Envelope.id).Nodup := by
      rw [hnamed.ids]
      exact p.pending.nodup_keys
    rw [hvalues, List.map_append] at hall
    exact (List.nodup_append.mp hall).1
  refine ⟨q, ⟨hbook, ⟨rows, hrows, rfl⟩, h.logged hdistinct, h.gained hdistinct⟩, rfl, rfl, ?_⟩
  rw [flush, hvalues, hloop, Nat.zero_add, List.length_map]

/-- All that waits is taken in. -/
theorem flush_of_all {j' : Journal} (hnamed : Named p.pending)
    (h : Journal.TakesIn o.journal p.journal p.pending.values j') :
    ∃ q, p.flush o = (.ok p.pending.size, q) ∧ q.journal = j' ∧ q.pending = .empty ∧
      Flushed p q p.pending.values := by
  obtain ⟨q, hflushed, hjournal, hnothing, hflush⟩ :=
    flushed_of_takesIn hnamed (List.append_nil _).symm h
  refine ⟨q, ?_, hjournal, ?_, hflushed⟩
  · rw [hflush, flushAll, Table.values, List.length_map]
    rfl
  · exact Table.ext_rows (List.map_eq_nil_iff.mp hnothing)

/-- What waits before `x` is taken in, and `x` is not. -/
theorem flush_of_first_failure {before after : List Envelope} {x : Envelope} {j' j'' : Journal}
    {cause : JournalError} (hnamed : Named p.pending)
    (hvalues : p.pending.values = before ++ x :: after)
    (h : Journal.TakesIn o.journal p.journal before j')
    (hx : j'.appendUnder (o.journal x.id) x = (.error cause, j'')) :
    ∃ q, p.flush o = (.error (.persistence x.id cause), q) ∧ q.journal = j'' ∧
      q.pending.values = x :: after ∧ Flushed p q before := by
  obtain ⟨q, hflushed, rfl, hrest, hflush⟩ := flushed_of_takesIn hnamed hvalues h
  have hwaits : q.pending.find? x.id = some x := by
    obtain ⟨⟨id, x'⟩, rows, hrows, rfl, -⟩ := List.map_eq_cons_iff.mp hrest
    obtain ⟨front, hall, -⟩ := hflushed.waits
    have hrow : (id, x') ∈ p.pending.rows := by
      rw [hall, hrows]
      exact List.mem_append_right _ List.mem_cons_self
    obtain rfl : x'.id = id := hnamed id x' (Table.mem_rows_iff.mp hrow)
    exact Table.mem_rows_iff.mp (hrows ▸ List.mem_cons_self)
  -- a failed addition leaves the records of the journal alone
  have hsame : j''.index = q.journal.index := by
    rcases q.journal.appendUnder_index (o.journal x.id) x with
      ⟨j₁, hj₁, -⟩ | ⟨n, hj₁, -⟩ | ⟨cause', j₁, hj₁, hindex⟩
    all_goals
      rw [hx] at hj₁
      cases hj₁
    exact hindex
  refine ⟨{ q with journal := j'' }, ?_, rfl, hrest, hflushed.book, hflushed.waits, ?_, ?_⟩
  · rw [hflush, flushAll_of_fails hwaits hx]
  · show ∀ e ∈ before, e.id ∈ j''.index.envelopes.map Envelope.id
    rw [hsame]
    exact hflushed.logged
  · show ∃ rs, j''.index.records = _ ∧ _
    rw [hsame]
    exact hflushed.gained

/-- **A flush journals a first part of what waits, and the rest goes on waiting.**  In every state
    that calls lead to, an envelope waits under its own name; and wherever that is so, whatever
    fails,

    * what waits is tried in strictly increasing order of the names;
    * if no addition fails, the answer is how many waited, all of them are journalled, and nothing
      waits any more;
    * if that of `x` is the first that fails, the answer is that error, all before `x` are
      journalled and wait no more, and `x` and all behind it wait as they did;
    * one of the two is the case, and in both the journal gains the envelopes of transactions that
      it did not know, in that order, and nothing else;
    * and the answer, the journal and what waits are the same whatever the bus does. -/
theorem flush_logs_prefix :
    (∀ (b : Book) (j : Journal) (cs : List Call), Named ((start b j).run cs).pending) ∧
    ∀ p : Processor, Named p.pending → ∀ o : Outage,
      (p.pending.values.map Envelope.id = p.pendingIds ∧
        p.pendingIds.Pairwise fun a b => compare a b = .lt) ∧
      (∀ j', Journal.TakesIn o.journal p.journal p.pending.values j' →
        ∃ q, p.flush o = (.ok p.pending.size, q) ∧ q.journal = j' ∧ q.pending = .empty ∧
          Flushed p q p.pending.values) ∧
      (∀ before x after j' cause j'', p.pending.values = before ++ x :: after →
        Journal.TakesIn o.journal p.journal before j' →
        j'.appendUnder (o.journal x.id) x = (.error cause, j'') →
        ∃ q, p.flush o = (.error (.persistence x.id cause), q) ∧ q.journal = j'' ∧
          q.pending.values = x :: after ∧ Flushed p q before) ∧
      ((∃ j', Journal.TakesIn o.journal p.journal p.pending.values j') ∨
        ∃ before x after j' cause j'', p.pending.values = before ++ x :: after ∧
          Journal.TakesIn o.journal p.journal before j' ∧
          j'.appendUnder (o.journal x.id) x = (.error cause, j'')) ∧
      ∀ (o' : Outage) (bus : Bus), o'.journal = o.journal →
        (({ p with bus := bus } : Processor).flush o').1 = (p.flush o).1 ∧
        (({ p with bus := bus } : Processor).flush o').2.journal = (p.flush o).2.journal ∧
        (({ p with bus := bus } : Processor).flush o').2.pending = (p.flush o).2.pending := by
  refine ⟨?_, ?_⟩
  · intro b j cs
    apply named_run
    intro id e he
    cases he
  · intro p hnamed o
    refine ⟨⟨hnamed.ids, List.pairwise_map.mpr p.pending.sorted⟩, fun j' => flush_of_all hnamed,
      fun before x after j' cause j'' => flush_of_first_failure hnamed,
      Journal.takesIn_or_fails _ _ _, ?_⟩
    intro o' bus ho'
    have hnamed' : Named ({ p with bus := bus } : Processor).pending := hnamed
    rcases Journal.takesIn_or_fails o.journal p.journal p.pending.values with
      ⟨j', hall⟩ | ⟨before, x, after, j', cause, j'', hvalues, hbefore, hx⟩
    · obtain ⟨q, hq, hjournal, hpending, -⟩ := flush_of_all hnamed hall
      rw [← ho'] at hall
      obtain ⟨q', hq', hjournal', hpending', -⟩ := flush_of_all hnamed' hall
      rw [hq, hq']
      exact ⟨rfl, hjournal'.trans hjournal.symm, hpending'.trans hpending.symm⟩
    · obtain ⟨q, hq, hjournal, -, hflushed⟩ := flush_of_first_failure hnamed hvalues hbefore hx
      rw [← ho'] at hbefore hx
      obtain ⟨q', hq', hjournal', -, hflushed'⟩ :=
        flush_of_first_failure hnamed' hvalues hbefore hx
      rw [hq, hq']
      refine ⟨rfl, hjournal'.trans hjournal.symm, Table.ext_rows ?_⟩
      rw [hflushed.pending_eq]
      exact hflushed'.pending_eq

end Processor

/-! ## A flush that stops half-way

  Three transfers wait, and the second cannot be journalled. -/

namespace Sample

/-- What waits at last, in the order of the names. -/
def firstWaiting : Envelope := ⟨.epoch, afternoon, transfer firstId alice bob threeTenths⟩
def secondWaiting : Envelope := ⟨.epoch, evening, passingOn⟩
def thirdWaiting : Envelope := ⟨.epoch, noon, transfer thirdId alice bob threeTenths⟩

/-- Three submissions of which none can be journalled. -/
def queuedRun : List Processor.Call :=
  [.submit diskFull noon thirdWaiting.transaction .epoch,
    .submit diskFull afternoon firstWaiting.transaction .epoch,
    .submit diskFull evening secondWaiting.transaction .epoch]

/-- The second cannot be journalled, and nobody hears of the others. -/
def secondFails : Outage :=
  ⟨fun id => if id = secondId then some .diskFull else none, fun _ => false⟩

end Sample

/-- The first is journalled, and the second and the third go on waiting. -/
theorem Processor.flush_logs_prefix_half_way :
    ∃ q, (Sample.processor.run Sample.queuedRun).flush Sample.secondFails
        = (.error (.persistence Sample.secondId (.io .diskFull)), q) ∧
      q.journal.index.records = [⟨1, Sample.firstWaiting⟩] ∧
      q.pending.values = [Sample.secondWaiting, Sample.thirdWaiting] := by
  obtain ⟨hnamed, hflush⟩ := flush_logs_prefix
  obtain ⟨-, -, hstops, -⟩ :=
    hflush _ (hnamed (.ofRegistry Sample.registry) .inMemory Sample.queuedRun) Sample.secondFails
  have hvalues : (Sample.processor.run Sample.queuedRun).pending.values
      = [Sample.firstWaiting] ++ Sample.secondWaiting :: [Sample.thirdWaiting] := by decide
  obtain ⟨q, hq, hjournal, hpending, -⟩ := hstops _ _ _ _ _ _ hvalues (.cons rfl (.nil _)) rfl
  refine ⟨q, hq, ?_, hpending⟩
  rw [hjournal]
  rfl

end Subledger
