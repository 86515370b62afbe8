/-
  ONE CATCH-UP: what a follower has done after it, whatever became of it.

  1. **Taking transactions** (`Book.Takes`) — a book goes through a list of transactions and refuses
     none; each is applied or found applied.  Afterwards it knows their names and those it knew.
  2. **A replay** (`replayFrom_cases`) — takes all its records, or takes those before the first that
     is refused.  Its report names the latest knowledge time among the records it went through.
  3. **A checkpoint** (`readCheckpoint_checkpointBytes`) — read back as the instant that was written,
     or, if the year takes more than four digits, not at all.  It is never read as another instant.
  4. **The catch-up** (`catchUp_cases`) — it gets through and moves its checkpoint, or takes a front
     part of what is outstanding and leaves it, or does nothing.  Whatever is proved about many
     catch-ups starts from these cases.
-/
import Subledger.Replay
import Subledger.Proofs.Instant.RoundTrip
import Subledger.Proofs.Processor.Run

namespace Subledger

/-! ## Taking transactions -/

namespace Book

/-- A book goes through transactions and refuses none; each is applied or found applied. -/
def Takes (b : Book) : List Transaction → Book → Prop
  | [], b' => b' = b
  | t :: ts, b' => ∃ outcome m, b.execute t = .ok (outcome, m) ∧ m.Takes ts b'

/-- After a transaction that is not refused, its name is known beside the others. -/
theorem mem_applied_of_execute {b b' : Book} {t : Transaction} {outcome : Outcome}
    (h : b.execute t = .ok (outcome, b')) (id : TransactionId) :
    id ∈ b'.applied ↔ id ∈ b.applied ∨ id = t.id := by
  cases outcome with
  | applied =>
    obtain ⟨-, -, balances, -, rfl⟩ := execute_applied_iff.mp h
    show id ∈ t.id :: b.applied ↔ _
    rw [List.mem_cons, or_comm]
  | alreadyApplied =>
    obtain ⟨hknown, rfl⟩ := execute_alreadyApplied_iff.mp h
    rw [isApplied_iff] at hknown
    refine ⟨Or.inl, ?_⟩
    rintro (hid | rfl)
    · exact hid
    · exact hknown

/-- The names known after going through transactions are those known before and theirs. -/
theorem Takes.mem_applied {b b' : Book} {ts : List Transaction} (h : b.Takes ts b')
    (id : TransactionId) : id ∈ b'.applied ↔ id ∈ b.applied ∨ id ∈ ts.map Transaction.id := by
  induction ts generalizing b with
  | nil =>
    obtain rfl := h
    simp
  | cons t ts ih =>
    obtain ⟨outcome, m, hexec, hrest⟩ := h
    rw [ih hrest, mem_applied_of_execute hexec, List.map_cons, List.mem_cons, or_assoc]

end Book

/-! ## A replay -/

/-- The transaction of a record. -/
def Record.transaction (r : Record) : Transaction := r.envelope.transaction

/-- The latest of some instants; there is none if there are no instants. -/
def Instant.IsLatest (latest : Option Instant) (ts : List Instant) : Prop :=
  match latest with
  | none => ts = []
  | some t => t ∈ ts ∧ ∀ s ∈ ts, s.notAfter t = true

/-- The later of two instants is after neither of them. -/
theorem Instant.notAfter_latest (s t : Instant) :
    s.notAfter (s.latest t) = true ∧ t.notAfter (s.latest t) = true := by
  rw [latest]
  split
  · rename_i hbefore
    exact ⟨notAfter_of_isBefore hbefore, notAfter_refl t⟩
  · rename_i hnot
    refine ⟨notAfter_refl s, ?_⟩
    rwa [isBefore_iff, not_not] at hnot

/-- A report that names the latest of some instants goes on to name the latest with one more. -/
theorem ReplayReport.isLatest_add (report : ReplayReport) {ts : List Instant}
    (h : Instant.IsLatest report.lastKnowledgeTime ts) (r : Record) (outcome : Outcome) :
    Instant.IsLatest (report.add r outcome).lastKnowledgeTime (ts ++ [r.knowledgeTime]) := by
  show Instant.IsLatest (match report.lastKnowledgeTime with
    | none => some r.knowledgeTime
    | some t => some (t.latest r.knowledgeTime)) _
  cases hlast : report.lastKnowledgeTime with
  | none =>
    rw [hlast] at h
    obtain rfl : ts = [] := h
    refine ⟨List.mem_singleton_self _, ?_⟩
    intro s hs
    rw [List.mem_singleton.mp hs]
    exact Instant.notAfter_refl _
  | some t =>
    rw [hlast] at h
    obtain ⟨ht, hall⟩ : t ∈ ts ∧ ∀ s ∈ ts, s.notAfter t = true := h
    have hbounds := Instant.notAfter_latest t r.knowledgeTime
    refine ⟨?_, ?_⟩
    · rw [Instant.latest]
      split
      · exact List.mem_append_right _ (List.mem_singleton_self _)
      · exact List.mem_append_left _ ht
    · intro s hs
      rcases List.mem_append.mp hs with hold | hnew
      · exact Instant.notAfter_trans (hall s hold) hbounds.1
      · rw [List.mem_singleton.mp hnew]
        exact hbounds.2

/-- A replay goes through all its records, or through those before the first that is refused. -/
theorem replayFrom_cases (report : ReplayReport) (b : Book) (rs : List Record) {ts : List Instant}
    (hreport : Instant.IsLatest report.lastKnowledgeTime ts) :
    (∃ report' b', replayFrom report b rs = (.ok report', b') ∧
      b.Takes (rs.map Record.transaction) b' ∧
      Instant.IsLatest report'.lastKnowledgeTime (ts ++ rs.map Record.knowledgeTime)) ∨
    ∃ taken r rest cause b', replayFrom report b rs = (.error (.ledger r.sequence cause), b') ∧
      rs = taken ++ r :: rest ∧ b.Takes (taken.map Record.transaction) b' ∧
      b'.execute r.transaction = .error cause := by
  induction rs generalizing report b ts with
  | nil =>
    refine Or.inl ⟨report, b, rfl, rfl, ?_⟩
    rw [List.map_nil, List.append_nil]
    exact hreport
  | cons r rs ih =>
    rw [replayFrom]
    cases hexec : b.execute r.envelope.transaction with
    | error cause => exact Or.inr ⟨[], r, rs, cause, b, rfl, rfl, rfl, hexec⟩
    | ok answer =>
      obtain ⟨outcome, m⟩ := answer
      dsimp only
      rcases ih (report.add r outcome) m (report.isLatest_add hreport r outcome) with
        ⟨report', b', hok, htakes, hlatest⟩ |
        ⟨taken, s, rest, cause, b', herr, hrs, htakes, hrefused⟩
      · refine Or.inl ⟨report', b', hok, ⟨outcome, m, hexec, htakes⟩, ?_⟩
        rw [List.map_cons, ← List.singleton_append, ← List.append_assoc]
        exact hlatest
      · exact Or.inr ⟨r :: taken, s, rest, cause, b', herr, by rw [hrs]; rfl,
          ⟨outcome, m, hexec, htakes⟩, hrefused⟩

/-! ## A checkpoint -/

/-- A checkpoint is read back as the instant that was written, if four digits hold its year, and
    not at all otherwise. -/
theorem readCheckpoint_checkpointBytes (key : String) (t : Instant) :
    readCheckpoint key (checkpointBytes t)
      = if t.FourDigitYear then .ok t
        else .error (.corruptCheckpoint key Instant.ReadError.invalid.message) := by
  rw [readCheckpoint, checkpointBytes, Text.Utf8.decode_encode]
  dsimp only
  by_cases hyear : t.FourDigitYear
  · rw [if_pos hyear, Instant.readStrict_textNanos hyear]
    rfl
  · rw [if_neg hyear, Instant.readStrict_textNanos_signed hyear]
    rfl

/-- An instant that is read back from its checkpoint has a year of four digits. -/
theorem fourDigitYear_of_read {key : String} {t : Instant}
    (h : readCheckpoint key (checkpointBytes t) = .ok t) : t.FourDigitYear := by
  rw [readCheckpoint_checkpointBytes] at h
  by_contra hyear
  rw [if_neg hyear] at h
  exact nomatch h

/-- Nothing is out of order. -/
def CatchUpOutage.none : CatchUpOutage := ⟨Option.none, ⟨false, false⟩⟩

/-- The records from an instant on, in the order of replay; without an instant, all of them. -/
def Index.replayFromMark (x : Index) : Option Instant → List Record
  | none => x.replay
  | some t => x.replaySince t

/-- Was an envelope learned before an instant?  Without an instant it was not. -/
def Envelope.isBehind (mark : Option Instant) (e : Envelope) : Bool :=
  match mark with
  | none => false
  | some t => e.knowledgeTime.isBefore t

/-- What is replayed from an instant on is what is not behind it, in another order. -/
theorem Index.replayFromMark_perm (x : Index) (mark : Option Instant) :
    (x.replayFromMark mark).Perm (x.records.filter fun r => !r.envelope.isBehind mark) := by
  cases mark with
  | none =>
    have hall : x.records.filter (fun r => !r.envelope.isBehind none) = x.records :=
      List.filter_eq_self.mpr fun _ _ => rfl
    rw [hall]
    exact x.replay_perm
  | some t => exact x.replay_perm.filter _

/-- From a mark on are replayed the records that are not behind it. -/
theorem Index.mem_replayFromMark {x : Index} {mark : Option Instant} {r : Record} :
    r ∈ x.replayFromMark mark ↔ r ∈ x.records ∧ r.envelope.isBehind mark = false := by
  rw [(x.replayFromMark_perm mark).mem_iff, List.mem_filter, Bool.not_eq_true']

/-- The transactions replayed from an instant on, by name. -/
theorem Index.mem_ids_replayFromMark {x : Index} {mark : Option Instant} {id : TransactionId} :
    id ∈ ((x.replayFromMark mark).map Record.transaction).map Transaction.id ↔
      ∃ e ∈ x.envelopes, e.isBehind mark = false ∧ e.id = id := by
  rw [List.map_map, List.mem_map]
  constructor
  · rintro ⟨r, hr, rfl⟩
    obtain ⟨hmem, hbehind⟩ := mem_replayFromMark.mp hr
    exact ⟨r.envelope, List.mem_map_of_mem hmem, hbehind, rfl⟩
  · rintro ⟨e, he, hbehind, rfl⟩
    obtain ⟨r, hr, rfl⟩ := List.mem_map.mp he
    exact ⟨r, mem_replayFromMark.mpr ⟨hr, hbehind⟩, rfl⟩

namespace Follower

variable {o : CatchUpOutage} {f f' : Follower} {x : Index} {name : String}

/-- The checkpoint is what the row of its key spells, if the row can be got. -/
theorem checkpoint_eq (o : CatchUpOutage) (f : Follower) (name : String) :
    f.checkpoint o name =
      if o.store.get then .error (.checkpoint .poisoned)
      else match f.store.find? (checkpointKey name) with
        | none => .ok none
        | some bytes => (readCheckpoint (checkpointKey name) bytes).map some := by
  rw [checkpoint, StateStore.getUnder]
  cases o.store.get with
  | true => rfl
  | false =>
    cases f.store.find? (checkpointKey name) with
    | none => rfl
    | some bytes =>
      show (readCheckpoint (checkpointKey name) bytes >>= fun t => pure (some t))
        = (readCheckpoint (checkpointKey name) bytes).map some
      cases readCheckpoint (checkpointKey name) bytes <;> rfl

/-- A checkpoint that could be read is the one that there is. -/
theorem checkpoint_of_ok {mark : Option Instant} (h : f.checkpoint o name = .ok mark) :
    f.checkpoint .none name = .ok mark := by
  rw [checkpoint_eq] at h ⊢
  split at h
  · exact nomatch h
  · exact h

/-- The checkpoint depends on the store only. -/
theorem checkpoint_of_store (h : f'.store = f.store) (o : CatchUpOutage) (name : String) :
    f'.checkpoint o name = f.checkpoint o name := by
  rw [checkpoint_eq, checkpoint_eq, h]

/-- A checkpoint that was written is the one that there is, if it can be read. -/
theorem checkpoint_of_insert {s : StateStore} {t : Instant}
    (h : f.store = s.insert (checkpointKey name) (checkpointBytes t)) :
    f.checkpoint .none name = if t.FourDigitYear then .ok (some t)
      else .error (.corruptCheckpoint (checkpointKey name) Instant.ReadError.invalid.message) := by
  rw [checkpoint_eq, h, Table.find?_insert_self]
  show (readCheckpoint (checkpointKey name) (checkpointBytes t)).map some = _
  rw [readCheckpoint_checkpointBytes]
  split <;> rfl

/-- What is outstanding is what was learned from the checkpoint on, if that can be read. -/
theorem outstanding_eq (o : CatchUpOutage) (f : Follower) (x : Index) (name : String) :
    f.outstanding o x name =
      match f.checkpoint o name with
      | .error e => .error e
      | .ok mark =>
        match o.replay with
        | some cause => .error (.journal (.io cause))
        | none => .ok (x.replayFromMark mark) := by
  rw [outstanding]
  cases f.checkpoint o name with
  | error e => rfl
  | ok mark => cases mark <;> cases o.replay <;> rfl

/-! ## The catch-up -/

/-- A follower has gone through what was outstanding from its checkpoint on: it took all of it, and
    its checkpoint is the latest knowledge time in it; if nothing was outstanding the row of the
    checkpoint is what it was. -/
structure GotThrough (name : String) (x : Index) (mark : Option Instant) (f : Follower)
    (report : ReplayReport) (f' : Follower) : Prop where
  takes : f.book.Takes ((x.replayFromMark mark).map Record.transaction) f'.book
  latest : Instant.IsLatest report.lastKnowledgeTime
    ((x.replayFromMark mark).map Record.knowledgeTime)
  store : f'.store = match report.lastKnowledgeTime with
    | none => f.store
    | some t => f.store.insert (checkpointKey name) (checkpointBytes t)

/-- A catch-up gets through; or it takes a front part of what is outstanding and leaves its
    checkpoint; or it cannot read its checkpoint and does nothing. -/
theorem catchUp_cases (o : CatchUpOutage) (f : Follower) (x : Index) (name : String) :
    (∃ mark report f', f.catchUp o x name = (.ok report, f') ∧ f.checkpoint o name = .ok mark ∧
      GotThrough name x mark f report f') ∨
    (∃ mark e taken f', f.catchUp o x name = (.error e, f') ∧ f.checkpoint o name = .ok mark ∧
      taken <+: x.replayFromMark mark ∧ f.book.Takes (taken.map Record.transaction) f'.book ∧
      f'.store = f.store ∧ ∀ key reason, e ≠ .corruptCheckpoint key reason) ∨
    ∃ e, f.catchUp o x name = (.error e, f) ∧ f.checkpoint o name = .error e := by
  rw [catchUp, outstanding_eq]
  cases hmark : f.checkpoint o name with
  | error e => exact Or.inr (Or.inr ⟨e, rfl, rfl⟩)
  | ok mark =>
    cases o.replay with
    | some cause =>
      exact Or.inr (Or.inl ⟨mark, _, [], f, rfl, rfl, List.nil_prefix, rfl, rfl,
        fun _ _ h => nomatch h⟩)
    | none =>
      dsimp only
      rw [replayInto]
      have hnothing : Instant.IsLatest ReplayReport.empty.lastKnowledgeTime [] := rfl
      rcases replayFrom_cases .empty f.book (x.replayFromMark mark) hnothing with
        ⟨report, b, hreplay, htakes, hlatest⟩ |
        ⟨taken, r, rest, cause, b, hreplay, hsplit, htakes, -⟩
      · rw [hreplay]
        dsimp only
        cases hlast : report.lastKnowledgeTime with
        | none =>
          exact Or.inl ⟨mark, report, _, rfl, rfl, htakes, hlatest, by rw [hlast]⟩
        | some t =>
          dsimp only
          rw [StateStore.putUnder]
          cases o.store.put with
          | false => exact Or.inl ⟨mark, report, _, rfl, rfl, htakes, hlatest, by rw [hlast]⟩
          | true =>
            -- all is taken, but the checkpoint cannot be put
            exact Or.inr (Or.inl ⟨mark, _, _, _, rfl, rfl, List.prefix_rfl, htakes, rfl,
              fun _ _ h => nomatch h⟩)
      · rw [hreplay]
        exact Or.inr (Or.inl ⟨mark, _, taken, _, rfl, rfl, ⟨r :: rest, hsplit.symm⟩, htakes, rfl,
          fun _ _ h => nomatch h⟩)

/-- A catch-up that succeeds has read a checkpoint and got through. -/
theorem catchUp_of_ok {report : ReplayReport} (h : f.catchUp o x name = (.ok report, f')) :
    ∃ mark, f.checkpoint o name = .ok mark ∧ GotThrough name x mark f report f' := by
  rcases catchUp_cases o f x name with
    ⟨mark, report', g, hg, hrest⟩ | ⟨_, _, _, _, hg, _⟩ | ⟨_, hg, _⟩
  · obtain ⟨hreport, rfl⟩ := Prod.mk.inj (h.symm.trans hg)
    obtain rfl := Except.ok.inj hreport
    exact ⟨mark, hrest⟩
  · exact nomatch (Prod.mk.inj (h.symm.trans hg)).1
  · exact nomatch (Prod.mk.inj (h.symm.trans hg)).1

/-- After a catch-up that got through, the checkpoint is the latest knowledge time of what it took,
    or what it was before. -/
theorem mark_of_catchUp {report : ReplayReport} {mark mark' : Option Instant}
    (h : f.catchUp o x name = (.ok report, f')) (hmark : f.checkpoint o name = .ok mark)
    (hmark' : f'.checkpoint .none name = .ok mark') : mark' = report.lastKnowledgeTime.or mark := by
  obtain ⟨-, -, -, -, hstore⟩ := catchUp_of_ok h
  cases hlast : report.lastKnowledgeTime with
  | none =>
    rw [hlast] at hstore
    rw [checkpoint_of_store hstore, checkpoint_of_ok hmark] at hmark'
    exact (Except.ok.inj hmark').symm
  | some t =>
    rw [hlast] at hstore
    rw [checkpoint_of_insert hstore] at hmark'
    split at hmark'
    · exact (Except.ok.inj hmark').symm
    · exact nomatch hmark'

/-- After a catch-up that did not get through, the checkpoint is where it was. -/
theorem catchUp_of_error {e : ReplayError} (h : f.catchUp o x name = (.error e, f')) :
    f'.store = f.store := by
  rcases catchUp_cases o f x name with
    ⟨_, _, _, hg, _⟩ | ⟨_, _, _, g, hg, _, _, _, hstore, _⟩ | ⟨_, hg, _⟩
  · exact nomatch (Prod.mk.inj (h.symm.trans hg)).1
  · rw [(Prod.mk.inj (h.symm.trans hg)).2, hstore]
  · rw [(Prod.mk.inj (h.symm.trans hg)).2]

/-- With nothing out of order, a replay that gets through makes a catch-up that gets through. -/
theorem catchUp_of_replay {mark : Option Instant} {records : List Record} {report : ReplayReport}
    {b : Book} {t : Instant} (hmark : f.checkpoint .none name = .ok mark)
    (hrecords : x.replayFromMark mark = records)
    (hreplay : replayInto f.book records = (.ok report, b))
    (hlast : report.lastKnowledgeTime = some t) :
    f.catchUp .none x name
      = (.ok report, ⟨b, f.store.insert (checkpointKey name) (checkpointBytes t)⟩) := by
  have hout : f.outstanding .none x name = .ok records := by
    rw [outstanding_eq, hmark, ← hrecords]
    rfl
  rw [catchUp, hout]
  dsimp only
  rw [hreplay]
  dsimp only
  rw [hlast]
  rfl

end Follower

/-! ## A sample follower -/

namespace Sample

/-- A new follower. -/
def follower : Follower := ⟨.ofRegistry registry, .empty⟩

/-- A transfer at noon, and one in the evening. -/
def early : Envelope := ⟨.epoch, noon, transfer firstId alice bob threeTenths⟩
def late : Envelope := ⟨.epoch, evening, transfer secondId alice bob two⟩

end Sample
end Subledger
