/-
  RUNS of a processor: registrations, submissions and flushes one after the other.

  1. **The run** — `Processor.step` is a processor after one call, whatever the call answers.  On
     its book a call does what a few calls of the book do (`book_run`), so that everything known of
     runs of a book holds of the book of a processor.
  2. **The history** — `learned` lists the envelopes of the transactions that a run applies, in the
     order in which they are applied, each with the clock reading it got.
  3. **The invariant** (`Settled`) — each envelope of the history is in one place: in the journal or
     among what waits.  While a call has one of them in its hands it is in neither (`Holding`), and
     the call puts it down in one of the two, whatever is out of order (`Holding.appendOrPark`).
  4. **The result** (`settled_of_agreed`) — so it is after every run that starts with book and
     journal in agreement; and once nothing waits the journal holds the history, in some order.
-/
import Subledger.Processor
import Subledger.Proofs.Journal.Replay
import Subledger.Proofs.Ledger.Run

namespace Subledger

namespace Processor

/-! ## Where the envelopes are

  Both parts of the invariant are about names: one name, one place.  An envelope under a name is
  determined by the history, in which no name occurs twice. -/

/-- Each envelope of a history is in one place: journalled, or waiting under its name. -/
structure Settled (history logged : List Envelope) (pending : Table TransactionId Envelope) :
    Prop where
  distinct : (history.map Envelope.id).Nodup
  named : ∀ id e, pending.find? id = some e → e.id = id
  places : (logged ++ pending.values).Perm history

/-- Each envelope of a history is in one place, but for one, which a call has in its hands.  A row
    of its name may still stand among what waits; it does not count. -/
structure Holding (history logged : List Envelope) (pending : Table TransactionId Envelope)
    (e : Envelope) : Prop where
  distinct : (history.map Envelope.id).Nodup
  named : ∀ id e, pending.find? id = some e → e.id = id
  places : (logged ++ e :: (pending.erase e.id).values).Perm history

variable {history logged : List Envelope} {pending : Table TransactionId Envelope} {e : Envelope}

/-- What is in hands was not journalled. -/
theorem Holding.not_logged (h : Holding history logged pending e) :
    e.id ∉ logged.map Envelope.id := by
  have hnodup : ((logged ++ e :: (pending.erase e.id).values).map Envelope.id).Nodup :=
    (h.places.map _).nodup_iff.mpr h.distinct
  rw [List.map_append, List.map_cons] at hnodup
  intro hmem
  exact (List.nodup_append.mp hnodup).2.2 _ hmem _ List.mem_cons_self rfl

/-- What is left when a name is taken out stands under its own name. -/
theorem named_erase (h : ∀ id e, pending.find? id = some e → e.id = id) (k : TransactionId) :
    ∀ id e, (pending.erase k).find? id = some e → e.id = id := by
  intro id e he
  by_cases hid : id = k
  · rw [hid, Table.find?_erase_self] at he
    exact nomatch he
  · rw [Table.find?_erase_of_ne _ hid] at he
    exact h id e he

/-- What is in hands is journalled. -/
theorem Holding.log (h : Holding history logged pending e) :
    Settled history (logged ++ [e]) (pending.erase e.id) := by
  refine ⟨h.distinct, named_erase h.named _, ?_⟩
  rw [List.append_assoc]
  exact h.places

/-- What is put under its own name stands there. -/
theorem named_insert (h : ∀ id e, pending.find? id = some e → e.id = id) (e : Envelope) :
    ∀ id f, (pending.insert e.id e).find? id = some f → f.id = id := by
  intro id f hf
  by_cases hid : id = e.id
  · rw [hid, Table.find?_insert_self] at hf
    rw [hid, Option.some.inj hf]
  · rw [Table.find?_insert_of_ne _ _ hid] at hf
    exact h id f hf

/-- What is in hands is put among what waits. -/
theorem Holding.park (h : Holding history logged pending e) :
    Settled history logged (pending.insert e.id e) := by
  refine ⟨h.distinct, named_insert h.named e, ?_⟩
  have hvalues : (pending.insert e.id e).values.Perm (e :: (pending.erase e.id).values) :=
    (Table.rows_insert_perm pending e.id e).map Prod.snd
  exact (hvalues.append_left logged).trans h.places

/-- What waits is taken into hands. -/
theorem Settled.take (h : Settled history logged pending) (he : pending.find? e.id = some e) :
    Holding history logged pending e := by
  refine ⟨h.distinct, h.named, ?_⟩
  have hvalues : pending.values.Perm (e :: (pending.erase e.id).values) :=
    (Table.rows_perm_of_find? he).map Prod.snd
  exact (hvalues.symm.append_left logged).trans h.places

/-- The first of what waits is taken into hands, and the others go on waiting. -/
theorem Settled.take_first {es : List Envelope} (h : Settled history logged pending)
    (hes : pending.values = e :: es) :
    Holding history logged pending e ∧ (pending.erase e.id).values = es := by
  -- the first of the values is the first row's, and stands under its own name
  obtain ⟨⟨k, f⟩, rows, hrows, rfl, hrest⟩ := List.map_eq_cons_iff.mp hes
  have hfound : pending.find? k = some f := Table.mem_rows_iff.mp (hrows ▸ List.mem_cons_self)
  obtain rfl := h.named k f hfound
  exact ⟨h.take hfound, by rw [Table.values, Table.rows_erase_of_cons hrows, hrest]⟩

/-- The same with its row taken away. -/
theorem Settled.take_erase (h : Settled history logged pending)
    (he : pending.find? e.id = some e) : Holding history logged (pending.erase e.id) e := by
  refine ⟨h.distinct, named_erase h.named _, ?_⟩
  rw [Table.erase_of_find?_eq_none (Table.find?_erase_self _ _)]
  exact (h.take he).places

/-- What is new does not wait. -/
theorem Settled.find?_eq_none (h : Settled history logged pending)
    (hnew : ((history ++ [e]).map Envelope.id).Nodup) : pending.find? e.id = none := by
  rw [Option.eq_none_iff_forall_ne_some]
  intro f hf
  have hmem : f ∈ pending.values := List.mem_map.mpr ⟨_, Table.mem_rows_iff.mpr hf, rfl⟩
  have hold : f ∈ history := h.places.subset (List.mem_append_right _ hmem)
  rw [List.map_append] at hnew
  exact (List.nodup_append.mp hnew).2.2 _ (List.mem_map_of_mem hold) _ List.mem_cons_self
    (h.named _ f hf)

/-- What was just learned is in hands. -/
theorem Settled.learn (h : Settled history logged pending)
    (hnew : ((history ++ [e]).map Envelope.id).Nodup) :
    Holding (history ++ [e]) logged pending e := by
  refine ⟨hnew, h.named, ?_⟩
  rw [Table.erase_of_find?_eq_none (h.find?_eq_none hnew)]
  exact List.perm_middle.trans ((h.places.cons e).trans (List.perm_append_singleton e history).symm)

/-- Nothing waits any more: the journal holds the history. -/
theorem Settled.logged_perm (h : Settled history logged pending) (hempty : pending.values = []) :
    logged.Perm history := by
  have hplaces := h.places
  rwa [hempty, List.append_nil] at hplaces

/-! ## What a call does with the envelopes

  There is one step that moves an envelope, and it has three outcomes.  Everything else that a call
  does is about the bus and the answer. -/

/-- An envelope is journalled, or found journalled, or put among what waits.  Nothing else
    changes. -/
theorem appendOrPark_cases (o : Outage) (p : Processor) (e : Envelope) :
    (∃ n j, p.appendOrPark o e = (.ok ⟨n, e⟩, { p with journal := j }) ∧
      e.id ∉ p.journal.envelopes.map Envelope.id ∧
      j.envelopes = p.journal.envelopes ++ [e]) ∨
    (∃ n, p.appendOrPark o e = (.ok ⟨n, e⟩, p) ∧
      e.id ∈ p.journal.envelopes.map Envelope.id) ∨
    ∃ cause j, p.appendOrPark o e = (.error (.persistence e.id cause),
        { p with journal := j, pending := p.pending.insert e.id e }) ∧
      j.envelopes = p.journal.envelopes := by
  unfold appendOrPark
  rcases p.journal.appendUnder_cases (o.journal e.id) e with
    ⟨n, j, hj, hnew, hadded⟩ | ⟨n, hj, hmem⟩ | ⟨cause, j, hj, hsame⟩
  · exact Or.inl ⟨n, j, by rw [hj]; rfl, hnew, hadded⟩
  · exact Or.inr (Or.inl ⟨n, by rw [hj]; rfl, hmem⟩)
  · exact Or.inr (Or.inr ⟨cause, j, by rw [hj], hsame⟩)

/-- An envelope in hands is put down: in the journal, or among what waits. -/
theorem Holding.appendOrPark {p : Processor}
    (h : Holding history p.journal.envelopes p.pending e) (o : Outage) :
    (∃ n j, p.appendOrPark o e = (.ok ⟨n, e⟩, { p with journal := j }) ∧
      Settled history j.envelopes (p.pending.erase e.id)) ∨
    ∃ cause j, p.appendOrPark o e = (.error cause,
        { p with journal := j, pending := p.pending.insert e.id e }) ∧
      Settled history j.envelopes (p.pending.insert e.id e) := by
  rcases appendOrPark_cases o p e with ⟨n, j, hp, -, hadded⟩ | ⟨n, -, hmem⟩ | ⟨cause, j, hp, hsame⟩
  · exact Or.inl ⟨n, j, hp, by rw [hadded]; exact h.log⟩
  · exact absurd hmem h.not_logged
  · exact Or.inr ⟨_, j, hp, by rw [hsame]; exact h.park⟩

/-- A processor after an announcement, whether it got through or not. -/
def announced (o : Outage) (p : Processor) (r : Record) : Processor :=
  match p.announce o r with
  | .ok p => p
  | .error _ => p

/-- An announcement changes the bus only. -/
theorem announced_eq (o : Outage) (p : Processor) (r : Record) :
    ∃ bus, p.announced o r = { p with bus := bus } := by
  rw [announced, announce]
  cases p.bus.publish (o.reachable r.id) (announcement r) with
  | error cause => exact ⟨p.bus, rfl⟩
  | ok answer => exact ⟨answer.2, rfl⟩

/-! ## How a call goes on after an addition

  Recording and flushing go on according to the outcome; here are both branches as equations. -/

variable {o : Outage} {p q : Processor} {r : Record} {cause : ProcessError}

/-- An envelope that was journalled is announced. -/
theorem record_of_ok (h : p.appendOrPark o e = (.ok r, q)) (outcome : Outcome) :
    (p.record o outcome e).2 = q.announced o r := by
  rw [record, h, announced]
  dsimp only
  cases q.announce o r <;> rfl

/-- One that was not stays where the addition has put it. -/
theorem record_of_error (h : p.appendOrPark o e = (.error cause, q)) (outcome : Outcome) :
    (p.record o outcome e).2 = q := by
  rw [record, h]

/-- A flush drops what was journalled, announces it and goes on. -/
theorem flushAll_of_ok (h : p.appendOrPark o e = (.ok r, q)) (done : Nat) (es : List Envelope) :
    p.flushAll o done (e :: es)
      = ({ q with pending := q.pending.erase r.id }.announced o r).flushAll o (done + 1) es := by
  rw [flushAll, h]
  rfl

/-- A flush stops at the first that is not journalled. -/
theorem flushAll_of_error (h : p.appendOrPark o e = (.error cause, q)) (done : Nat)
    (es : List Envelope) : p.flushAll o done (e :: es) = (.error cause, q) := by
  rw [flushAll, h]

/-! ## The book does not mind what comes after

  Only the first step of a submission asks the book and changes it. -/

/-- Announcing leaves the book alone. -/
theorem book_announced (o : Outage) (p : Processor) (r : Record) :
    (p.announced o r).book = p.book := by
  obtain ⟨bus, hbus⟩ := announced_eq o p r
  rw [hbus]

/-- Recording leaves the book alone. -/
theorem book_record (o : Outage) (p : Processor) (outcome : Outcome) (e : Envelope) :
    (p.record o outcome e).2.book = p.book := by
  rcases appendOrPark_cases o p e with ⟨n, j, hp, -⟩ | ⟨n, hp, -⟩ | ⟨cause, j, hp, -⟩
  · rw [record_of_ok hp, book_announced]
  · rw [record_of_ok hp, book_announced]
  · rw [record_of_error hp]

/-- Flushing leaves the book alone. -/
theorem book_flushAll (o : Outage) (done : Nat) (p : Processor) (es : List Envelope) :
    (p.flushAll o done es).2.book = p.book := by
  induction es generalizing p done with
  | nil => rfl
  | cons e es ih =>
    rcases appendOrPark_cases o p e with ⟨n, j, hp, -⟩ | ⟨n, hp, -⟩ | ⟨cause, j, hp, -⟩
    · rw [flushAll_of_ok hp, ih, book_announced]
    · rw [flushAll_of_ok hp, ih, book_announced]
    · rw [flushAll_of_error hp]

/-- A submission changes the book as its transaction does, whatever becomes of the envelope. -/
theorem book_submit (o : Outage) (now : Instant) (p : Processor) (t : Transaction)
    (eventTime : Instant) :
    (p.submit o now t eventTime).2.book = p.book.step (.execute t) := by
  rw [Book.step]
  unfold submit
  cases hexec : p.book.execute t with
  | error cause => rfl
  | ok answer =>
    obtain ⟨outcome, b⟩ := answer
    cases outcome with
    | applied => exact book_record o _ _ _
    | alreadyApplied =>
      obtain ⟨-, rfl⟩ := Book.execute_alreadyApplied_iff.mp hexec
      dsimp only
      split
      · rfl
      · exact book_record o _ _ _

/-! ## Everything is put down again

  A call takes an envelope in hand and puts it down, so that between calls nothing is in hand. -/

/-- An envelope in hands that stands nowhere is settled. -/
theorem Holding.record {p : Processor} (h : Holding history p.journal.envelopes p.pending e)
    (hnone : p.pending.find? e.id = none) (o : Outage) (outcome : Outcome) :
    Settled history (p.record o outcome e).2.journal.envelopes
      (p.record o outcome e).2.pending := by
  rcases h.appendOrPark o with ⟨n, j, hp, hsettled⟩ | ⟨cause, j, hp, hsettled⟩
  · rw [Table.erase_of_find?_eq_none hnone] at hsettled
    obtain ⟨bus, hbus⟩ := announced_eq o { p with journal := j } ⟨n, e⟩
    rw [record_of_ok hp, hbus]
    exact hsettled
  · rw [record_of_error hp]
    exact hsettled

/-- A flush leaves every envelope settled, however far it gets. -/
theorem Settled.flushAll {p : Processor} {es : List Envelope}
    (h : Settled history p.journal.envelopes p.pending) (hes : p.pending.values = es)
    (o : Outage) (done : Nat) :
    Settled history (p.flushAll o done es).2.journal.envelopes
      (p.flushAll o done es).2.pending := by
  induction es generalizing p done with
  | nil => exact h
  | cons e es ih =>
    obtain ⟨hhold, hvalues⟩ := h.take_first hes
    rcases hhold.appendOrPark o with ⟨n, j, hp, hsettled⟩ | ⟨cause, j, hp, hsettled⟩
    · rw [flushAll_of_ok hp]
      obtain ⟨bus, hbus⟩ := announced_eq o
        { p with journal := j, pending := p.pending.erase e.id } ⟨n, e⟩
      have hgoes := ih (p := { p with
        journal := j, pending := p.pending.erase e.id, bus := bus }) hsettled hvalues (done + 1)
      rw [← hbus] at hgoes
      exact hgoes
    · rw [flushAll_of_error hp]
      exact hsettled

/-! ## One call

  All calls of a processor, each as one step, so that a run is a fold. -/

/-- A call that may change a processor, or a change from outside, which leaves alone what the
    journal holds. -/
inductive Call where
  | register (account : Account)
  /-- A submission at a time, should the clock be asked. -/
  | submit (outage : Outage) (now : Instant) (transaction : Transaction) (eventTime : Instant)
  | flush (outage : Outage)
  /-- Subscribers come, receive and go, and the journal's file becomes usable or unusable. -/
  | disturb (bus : Bus → Bus) (file : JournalFile → JournalFile)

/-- A processor after a call; one that fails may have done a part of its work. -/
def step (p : Processor) : Call → Processor
  | .register a => { p with book := p.book.step (.register a) }
  | .submit o now t eventTime => (p.submit o now t eventTime).2
  | .flush o => (p.flush o).2
  | .disturb bus file => { p with bus := bus p.bus, journal := p.journal.mapFile file }

/-- What a call asks of the book. -/
def Call.onBook : Call → List Book.Call
  | .register a => [.register a]
  | .submit _ _ t _ => [.execute t]
  | .flush _ => []
  | .disturb _ _ => []

/-- The envelope of the transaction that a call applies, if it applies one. -/
def learns (p : Processor) : Call → Option Envelope
  | .register _ => none
  | .submit _ now t eventTime =>
    (p.book.accepts (.execute t)).map fun t => ⟨eventTime, now, t⟩
  | .flush _ => none
  | .disturb _ _ => none

/-- On the book a call does what it asks of the book, and nothing else. -/
theorem book_step (p : Processor) (c : Call) : (p.step c).book = p.book.run c.onBook := by
  cases c with
  | register a => rfl
  | submit o now t eventTime => exact book_submit o now p t eventTime
  | flush o => exact book_flushAll o 0 p _
  | disturb bus file => rfl

/-- What the book applies on the way is what the call learns. -/
theorem accepted_onBook (p : Processor) (c : Call) :
    p.book.accepted c.onBook = (p.learns c).toList.map Envelope.transaction := by
  cases c with
  | register a => rfl
  | submit o now t eventTime =>
    rw [Call.onBook, Book.accepted, Book.accepted, List.append_nil, learns]
    cases hacc : p.book.accepts (.execute t) with
    | none => rfl
    | some t' => rfl
  | flush o => rfl
  | disturb bus file => rfl

/-- A submission that applies its transaction learns it with the times of now. -/
theorem learns_of_applied {p : Processor} {t : Transaction} {b : Book}
    (h : p.book.execute t = .ok (.applied, b)) (o : Outage) (now eventTime : Instant) :
    p.learns (.submit o now t eventTime) = some ⟨eventTime, now, t⟩ := by
  rw [learns, Book.accepts, h]
  rfl

/-- Any other submission learns nothing. -/
theorem learns_of_not_applied {p : Processor} {t : Transaction}
    (h : ∀ b, p.book.execute t ≠ .ok (.applied, b)) (o : Outage) (now eventTime : Instant) :
    p.learns (.submit o now t eventTime) = none := by
  rw [learns, Option.map_eq_none_iff, Option.eq_none_iff_forall_ne_some]
  intro t' ht
  obtain ⟨hcall, hexec⟩ := Book.accepts_eq_some_iff.mp ht
  obtain rfl := Book.Call.execute.inj hcall
  exact h _ hexec

/-- A submission settles what it applies, and tries again what waits under its name. -/
theorem Settled.submit {p : Processor} (h : Settled history p.journal.envelopes p.pending)
    (o : Outage) (now : Instant) (t : Transaction) (eventTime : Instant)
    (hnew : ((history ++ (p.learns (.submit o now t eventTime)).toList).map Envelope.id).Nodup) :
    Settled (history ++ (p.learns (.submit o now t eventTime)).toList)
      (p.submit o now t eventTime).2.journal.envelopes
      (p.submit o now t eventTime).2.pending := by
  unfold Processor.submit
  cases hexec : p.book.execute t with
  | error cause =>
    have hrefused : ∀ b, p.book.execute t ≠ .ok (.applied, b) := by simp [hexec]
    rw [learns_of_not_applied hrefused, Option.toList_none, List.append_nil]
    exact h
  | ok answer =>
    obtain ⟨outcome, b⟩ := answer
    cases outcome with
    | applied =>
      rw [learns_of_applied hexec, Option.toList_some] at hnew ⊢
      exact Holding.record (p := { p with book := b }) (h.learn hnew) (h.find?_eq_none hnew) o
        .applied
    | alreadyApplied =>
      have hknown : ∀ b, p.book.execute t ≠ .ok (.applied, b) := by simp [hexec]
      rw [learns_of_not_applied hknown, Option.toList_none, List.append_nil]
      dsimp only
      cases hwaits : p.pending.find? t.id with
      | none => exact h
      | some e =>
        -- the envelope that waits is the one of that name, with the times it got when applied
        have hname : e.id = t.id := h.named _ e hwaits
        rw [← hname] at hwaits ⊢
        exact Holding.record (p := { p with pending := p.pending.erase e.id }) (h.take_erase hwaits)
          (Table.find?_erase_self _ _) o .alreadyApplied

/-- Any call leaves every envelope settled, those that it adds included. -/
theorem Settled.step {p : Processor} (h : Settled history p.journal.envelopes p.pending) (c : Call)
    (hnew : ((history ++ (p.learns c).toList).map Envelope.id).Nodup) :
    Settled (history ++ (p.learns c).toList) (p.step c).journal.envelopes (p.step c).pending := by
  cases c with
  | register a =>
    rw [learns, Option.toList_none, List.append_nil]
    exact h
  | submit o now t eventTime => exact h.submit o now t eventTime hnew
  | flush o =>
    rw [learns, Option.toList_none, List.append_nil]
    exact h.flushAll rfl o 0
  | disturb bus file =>
    rw [learns, Option.toList_none, List.append_nil]
    show Settled history (p.journal.mapFile file).index.envelopes p.pending
    rw [Journal.index_mapFile]
    exact h

/-! ## Many calls

  What is proved of one call holds of runs by induction from the end. -/

/-- A processor after some calls. -/
def run (p : Processor) (cs : List Call) : Processor := cs.foldl step p

/-- The envelopes of the transactions that some calls apply, in order. -/
def learned (p : Processor) : List Call → List Envelope
  | [] => []
  | c :: cs => (p.learns c).toList ++ (p.step c).learned cs

/-- The clock readings of some calls: the clock is asked for each transaction that is applied. -/
def readings (p : Processor) (cs : List Call) : List Instant :=
  (p.learned cs).map Envelope.knowledgeTime

/-- Calls may be made in two parts. -/
theorem run_append (p : Processor) (cs ds : List Call) : p.run (cs ++ ds) = (p.run cs).run ds :=
  List.foldl_append

/-- What each call of a kind preserves, a run of such calls preserves. -/
theorem run_preserves {Q : Call → Prop} (P : Processor → Prop)
    (hstep : ∀ {p c}, Q c → P p → P (p.step c)) {p : Processor} {cs : List Call}
    (hcs : ∀ c ∈ cs, Q c) (hp : P p) : P (p.run cs) := by
  induction cs generalizing p with
  | nil => exact hp
  | cons c cs ih =>
    obtain ⟨hc, hcs⟩ := List.forall_mem_cons.mp hcs
    exact ih hcs (hstep hc hp)

/-- What is listed at each of some calls, in order. -/
def trace {α : Type} (f : Processor → Call → List α) (p : Processor) : List Call → List α
  | [] => []
  | c :: cs => f p c ++ (p.step c).trace f cs

variable {α : Type} {f : Processor → Call → List α}

/-- What calls add up to may be taken in two parts. -/
theorem trace_append (p : Processor) (cs ds : List Call) :
    p.trace f (cs ++ ds) = p.trace f cs ++ (p.run cs).trace f ds := by
  induction cs generalizing p with
  | nil => rfl
  | cons c cs ih => rw [List.cons_append, trace, trace, ih, List.append_assoc]; rfl

/-- What a trace lists, it lists at some call. -/
theorem mem_trace_iff {p : Processor} {cs : List Call} {x : α} :
    x ∈ p.trace f cs ↔ ∃ pre c post, cs = pre ++ c :: post ∧ x ∈ f (p.run pre) c := by
  induction cs generalizing p with
  | nil =>
    refine iff_of_false List.not_mem_nil ?_
    rintro ⟨pre, c, post, hcs, -⟩
    exact List.cons_ne_nil _ _ (List.append_eq_nil_iff.mp hcs.symm).2
  | cons c cs ih =>
    rw [trace, List.mem_append, ih]
    constructor
    · rintro (hnow | ⟨pre, d, post, rfl, hlater⟩)
      · exact ⟨[], c, cs, rfl, hnow⟩
      · exact ⟨c :: pre, d, post, rfl, hlater⟩
    · rintro ⟨pre, d, post, hcs, hlisted⟩
      cases pre with
      | nil =>
        obtain ⟨rfl, rfl⟩ := List.cons.inj hcs
        exact Or.inl hlisted
      | cons c' pre =>
        obtain ⟨rfl, rfl⟩ := List.cons.inj hcs
        exact Or.inr ⟨pre, d, post, rfl, hlisted⟩

/-- The history is one of these traces. -/
theorem learned_eq_trace (p : Processor) (cs : List Call) :
    p.learned cs = p.trace (fun p c => (p.learns c).toList) cs := by
  induction cs generalizing p with
  | nil => rfl
  | cons c cs ih => rw [learned, trace, ih]

/-- Histories are put together from parts. -/
theorem learned_append (p : Processor) (cs ds : List Call) :
    p.learned (cs ++ ds) = p.learned cs ++ (p.run cs).learned ds := by
  rw [learned_eq_trace, learned_eq_trace, learned_eq_trace, trace_append]

/-- The book of a processor runs as a book does. -/
theorem book_run (p : Processor) (cs : List Call) :
    (p.run cs).book = p.book.run (cs.flatMap Call.onBook) := by
  induction cs generalizing p with
  | nil => rfl
  | cons c cs ih =>
    rw [List.flatMap_cons, Book.run_append, ← book_step]
    exact ih (p.step c)

/-- What a processor learns is what its book applies. -/
theorem accepted_book (p : Processor) (cs : List Call) :
    p.book.accepted (cs.flatMap Call.onBook) = (p.learned cs).map Envelope.transaction := by
  induction cs generalizing p with
  | nil => rfl
  | cons c cs ih =>
    rw [List.flatMap_cons, Book.accepted_append, accepted_onBook, ← book_step, ih, learned,
      List.map_append]

/-- Book and journal agree: the journal holds what was applied, each transaction once, and nothing
    waits.  The bus is any. -/
structure Agreed (p : Processor) : Prop where
  applied : p.book.applied.Perm (p.journal.envelopes.map Envelope.id)
  distinct : (p.journal.envelopes.map Envelope.id).Nodup
  pending : p.pending = .empty

/-- The book remembers the names of what was journalled at first and of what it learned. -/
theorem applied_perm_history {p : Processor} (h : Agreed p) (cs : List Call) :
    (p.run cs).book.applied.Perm ((p.journal.envelopes ++ p.learned cs).map Envelope.id) := by
  have hids : (p.book.accepted (cs.flatMap Call.onBook)).map Transaction.id
      = (p.learned cs).map Envelope.id := by
    rw [accepted_book, List.map_map]
    rfl
  rw [book_run, Book.applied_run, hids, List.map_append]
  exact List.perm_append_comm.trans (h.applied.append (List.reverse_perm _))

/-- No two envelopes of the history have one name. -/
theorem nodup_history {p : Processor} (h : Agreed p) (cs : List Call) :
    ((p.journal.envelopes ++ p.learned cs).map Envelope.id).Nodup := by
  have hbook : p.book.applied.Nodup := h.applied.nodup_iff.mpr h.distinct
  rw [← (applied_perm_history h cs).nodup_iff, book_run]
  exact Book.nodup_applied_run hbook _

/-- What may be learned next has a name of its own. -/
theorem Agreed.learns_new {p : Processor} (h : Agreed p) (cs : List Call) (c : Call) :
    (((p.journal.envelopes ++ p.learned cs) ++ ((p.run cs).learns c).toList).map
      Envelope.id).Nodup := by
  have hnew := nodup_history h (cs ++ [c])
  rwa [learned_append, learned, learned, List.append_nil, ← List.append_assoc] at hnew

/-- **After every run each envelope is in one place**: in the journal or among what waits. -/
theorem settled_of_agreed {p : Processor} (h : Agreed p) (cs : List Call) :
    Settled (p.journal.envelopes ++ p.learned cs) (p.run cs).journal.envelopes
      (p.run cs).pending := by
  induction cs using List.reverseRecOn with
  | nil =>
    rw [learned, List.append_nil, run, List.foldl_nil, h.pending]
    refine ⟨h.distinct, ?_, ?_⟩
    · intro id e he
      exact nomatch he
    · show (p.journal.envelopes ++ []).Perm p.journal.envelopes
      rw [List.append_nil]
  | append_singleton cs c ih =>
    rw [learned_append, learned, learned, List.append_nil, ← List.append_assoc, run_append]
    exact ih.step c (h.learns_new cs c)

/-- A processor with a new book and a journal without records; its bus is any. -/
structure Fresh (r : Registry) (p : Processor) : Prop where
  book : p.book = .ofRegistry r
  index : p.journal.index = .empty
  pending : p.pending = .empty

/-- A processor with a new book and a journal in memory is fresh. -/
theorem fresh_start (r : Registry) : Fresh r (start (.ofRegistry r) .inMemory) := ⟨rfl, rfl, rfl⟩

/-- Nothing is journalled in a fresh one. -/
theorem Fresh.envelopes {r : Registry} {p : Processor} (h : Fresh r p) :
    p.journal.envelopes = [] := by
  rw [Journal.envelopes, h.index]
  rfl

/-- Nothing was applied and nothing is journalled. -/
theorem Fresh.agreed {r : Registry} {p : Processor} (h : Fresh r p) : Agreed p := by
  refine ⟨?_, ?_, h.pending⟩
  · rw [h.envelopes, h.book]
    exact List.Perm.refl _
  · rw [h.envelopes]
    exact List.nodup_nil

/-- A new processor journals what it learns and nothing else. -/
theorem settled_run {r : Registry} {p : Processor} (h : Fresh r p) (cs : List Call) :
    Settled (p.learned cs) (p.run cs).journal.envelopes (p.run cs).pending := by
  have hsettled := settled_of_agreed h.agreed cs
  rwa [h.envelopes, List.nil_append] at hsettled

end Processor

/-! ## A sample run

  Two transactions, of which the first can be journalled only after the second. -/

namespace Sample

def noon : Instant := ⟨43200, 0, Instant.epoch.nanos_lt, by decide, by decide, by decide⟩
def afternoon : Instant := ⟨50400, 0, Instant.epoch.nanos_lt, by decide, by decide, by decide⟩
def evening : Instant := ⟨64800, 0, Instant.epoch.nanos_lt, by decide, by decide, by decide⟩

/-- Nothing can be journalled, and nobody hears of it. -/
def diskFull : Outage := ⟨fun _ => some .diskFull, fun _ => false⟩

/-- A new processor of the four accounts. -/
def processor : Processor := .start (.ofRegistry registry) .inMemory

/-- At noon a transfer that cannot be journalled; in the evening two at once that can be; then
    what waits is journalled. -/
def belatedRun : List Processor.Call :=
  [.submit diskFull noon (transfer firstId alice bob threeTenths) .epoch,
    .register ⟨dave, .cash⟩,
    .submit .none evening passingOn .epoch,
    .flush .none]

end Sample
end Subledger
