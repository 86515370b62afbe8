/-
  INCREMENTAL REPLAY: a follower that catches up ends where a rebuild ends.

  The journal's knowledge times go up, so replay goes by the order of adding.  Then what a follower
  has applied is a front part of the journal, whatever became of its catch-ups: one that stopped
  halfway leaves a longer front part, and the next one finds it applied and goes on behind it.

  1. **Known and new** (`Takes.eq_of_known`, `Takes.appliesAll`) — going through transactions that
     are known changes nothing, and going through new ones applies them all.
  2. **The invariant** (`InStep`) — a front part of the journal was applied, in order, and the
     checkpoint is the knowledge time of something in that part.
  3. **The step** (`InStep.take`) — a catch-up goes through the end of that part once more and then
     goes on behind it.
  4. **The result** (`incremental_eq_rebuild`).
-/
import Subledger.Proofs.Replay.AsOf
import Subledger.Proofs.Replay.CatchUp

namespace Subledger

/-! ## Known and new transactions

  A replay meets two kinds of records, those that the book knows and those that it does not.  What
  it does with a list of one kind is said here. -/

namespace Book

variable {b b' : Book} {ts us : List Transaction}

/-- Transactions may be gone through in two parts. -/
theorem takes_append : b.Takes (ts ++ us) b' ↔ ∃ m, b.Takes ts m ∧ m.Takes us b' := by
  induction ts generalizing b with
  | nil => exact ⟨fun h => ⟨b, rfl, h⟩, fun ⟨_, rfl, h⟩ => h⟩
  | cons t ts ih =>
    constructor
    · rintro ⟨outcome, m, hexec, hrest⟩
      obtain ⟨m', hts, hus⟩ := ih.mp hrest
      exact ⟨m', ⟨outcome, m, hexec, hts⟩, hus⟩
    · rintro ⟨m', ⟨outcome, m, hexec, hts⟩, hus⟩
      exact ⟨outcome, m, hexec, ih.mpr ⟨m', hts, hus⟩⟩

/-- Known transactions change nothing. -/
theorem Takes.eq_of_known (h : b.Takes ts b') (hknown : ∀ t ∈ ts, t.id ∈ b.applied) : b' = b := by
  induction ts generalizing b with
  | nil => exact h
  | cons t ts ih =>
    obtain ⟨outcome, m, hexec, hrest⟩ := h
    have ht : t.id ∈ b.applied := hknown t List.mem_cons_self
    cases outcome with
    | applied =>
      obtain ⟨hnew, -⟩ := execute_applied_iff.mp hexec
      exact absurd ht (isApplied_eq_false_iff.mp hnew)
    | alreadyApplied =>
      obtain ⟨-, rfl⟩ := execute_alreadyApplied_iff.mp hexec
      exact ih hrest fun t ht => hknown t (List.mem_cons_of_mem _ ht)

/-- New transactions are all applied. -/
theorem Takes.appliesAll (h : b.Takes ts b') (hdistinct : (ts.map Transaction.id).Nodup)
    (hnew : ∀ t ∈ ts, t.id ∉ b.applied) : b.AppliesAll ts b' := by
  induction ts generalizing b with
  | nil => exact Eq.symm h
  | cons t ts ih =>
    obtain ⟨outcome, m, hexec, hrest⟩ := h
    have ht : t.id ∉ b.applied := hnew t List.mem_cons_self
    rw [List.map_cons, List.nodup_cons] at hdistinct
    cases outcome with
    | alreadyApplied =>
      obtain ⟨hknown, -⟩ := execute_alreadyApplied_iff.mp hexec
      exact absurd (isApplied_iff.mp hknown) ht
    | applied =>
      refine ⟨m, hexec, ih hrest hdistinct.2 ?_⟩
      intro s hs hmem
      rcases (mem_applied_of_execute hexec s.id).mp hmem with hold | heq
      · exact hnew s (List.mem_cons_of_mem _ hs) hold
      · exact hdistinct.1 (heq ▸ List.mem_map_of_mem hs)

/-- Going through a front part of what is known and then of what is new applies a front part of
    what is new. -/
theorem Takes.of_prefix {known new : List Transaction} (h : b.Takes ts b')
    (hts : ts <+: known ++ new) (hknown : ∀ t ∈ known, t.id ∈ b.applied)
    (hnew : ∀ t ∈ new, t.id ∉ b.applied) (hdistinct : (new.map Transaction.id).Nodup) :
    ∃ more, more <+: new ∧ b.AppliesAll more b' ∧ (ts = known ++ new → more = new) := by
  rcases List.prefix_or_prefix_of_prefix hts (List.prefix_append known new) with
    hshort | ⟨more, rfl⟩
  · -- it stopped within what is known
    refine ⟨[], List.nil_prefix, ?_, ?_⟩
    · exact (h.eq_of_known fun t ht => hknown t (hshort.subset ht)).symm
    · rintro rfl
      have hlength := hshort.length_le
      rw [List.length_append] at hlength
      exact (List.length_eq_zero_iff.mp (by omega)).symm
  · have hmore : more <+: new := (List.prefix_append_right_inj _).mp hts
    obtain ⟨m, hagain, hon⟩ := takes_append.mp h
    obtain rfl := hagain.eq_of_known hknown
    refine ⟨more, hmore, ?_, List.append_cancel_left⟩
    exact hon.appliesAll (hdistinct.sublist (hmore.sublist.map _))
      fun t ht => hnew t (hmore.subset ht)

end Book

/-! ## A front part of the journal

  As long as the journal is in the order of time, what was applied is a beginning of it.  The
  checkpoint need not be at the end of that beginning, but it is not behind it. -/

/-- A book has applied a front part of the journal, in order, and the checkpoint is the knowledge
    time of something in that part. -/
def InStep (logged : List Envelope) (mark : Option Instant) (b : Book) : Prop :=
  ∃ done rest, logged = done ++ rest ∧
    (Book.ofRegistry b.registry).AppliesAll (done.map Envelope.transaction) b ∧
    ∀ t, mark = some t → ∃ e ∈ done, e.knowledgeTime = t

namespace InStep

variable {logged : List Envelope} {mark : Option Instant} {b b' : Book}

/-- The checkpoint is the knowledge time of something journalled. -/
theorem seen (h : InStep logged mark b) :
    ∀ t, mark = some t → ∃ e ∈ logged, e.knowledgeTime = t := by
  obtain ⟨done, rest, rfl, -, hseen⟩ := h
  intro t ht
  obtain ⟨e, he, hknown⟩ := hseen t ht
  exact ⟨e, List.mem_append_left _ he, hknown⟩

/-- More is journalled. -/
theorem log (h : InStep logged mark b) (new : List Envelope) : InStep (logged ++ new) mark b := by
  obtain ⟨done, rest, rfl, happlies, hseen⟩ := h
  exact ⟨done, rest ++ new, List.append_assoc _ _ _, happlies, hseen⟩

/-- An account is registered. -/
theorem register (h : InStep logged mark b) (a : Account) :
    InStep logged mark (b.step (.register a)) := by
  obtain ⟨done, rest, hlogged, happlies, hseen⟩ := h
  refine ⟨done, rest, hlogged, ?_, hseen⟩
  have hgrows : (b.step (.register a)).registry.Extends b.registry := b.extends_step _
  have hbook : b.withRegistry (b.step (.register a)).registry = b.step (.register a) := by
    obtain ⟨-, hbal, happlied⟩ | ⟨_, ⟨⟩, -⟩ := Book.step_cases b (.register a)
    rw [Book.withRegistry, ← hbal, ← happlied]
  have hagain := happlies.withRegistry hgrows
  rw [hbook] at hagain
  exact hagain

/-- What a catch-up goes through: the end of the front part once more, and then what follows. -/
theorem split (h : InStep logged mark b)
    (htimes : (logged.map Envelope.knowledgeTime).Pairwise fun s t => s.notAfter t = true) :
    ∃ done rest, logged = done ++ rest ∧
      (Book.ofRegistry b.registry).AppliesAll (done.map Envelope.transaction) b ∧
      (∀ t, mark = some t → ∃ e ∈ done, e.knowledgeTime = t) ∧
      logged.filter (fun e => !e.isBehind mark)
        = done.filter (fun e => !e.isBehind mark) ++ rest := by
  obtain ⟨done, rest, rfl, happlies, hseen⟩ := h
  refine ⟨done, rest, rfl, happlies, hseen, ?_⟩
  rw [List.filter_append, List.append_cancel_left_eq, List.filter_eq_self]
  intro e he
  cases mark with
  | none => rfl
  | some t =>
    obtain ⟨e', he', rfl⟩ := hseen t rfl
    rw [List.map_append, List.pairwise_append] at htimes
    exact htimes.2.2 _ (List.mem_map_of_mem he') _ (List.mem_map_of_mem he)

/-- **One catch-up**, however far it got: the front part is the longer for it, and if it went
    through everything that is outstanding it is the whole journal. -/
theorem take (h : InStep logged mark b)
    (htimes : (logged.map Envelope.knowledgeTime).Pairwise fun s t => s.notAfter t = true)
    (hdistinct : (logged.map Envelope.id).Nodup) {taken : List Envelope}
    (htaken : taken <+: logged.filter fun e => !e.isBehind mark)
    (htakes : b.Takes (taken.map Envelope.transaction) b') :
    InStep logged mark b' ∧
      (taken = logged.filter (fun e => !e.isBehind mark) →
        (Book.ofRegistry b'.registry).AppliesAll (logged.map Envelope.transaction) b') := by
  obtain ⟨done, rest, rfl, happlies, hseen, hsplit⟩ := h.split htimes
  rw [hsplit] at htaken ⊢
  rw [List.map_append, List.nodup_append] at hdistinct
  -- the names that the book knows are those of the front part
  have hids : ∀ e : Envelope, e.transaction.id ∈ b.applied ↔ e.id ∈ done.map Envelope.id := by
    intro e
    rw [happlies.applied_eq, List.map_map]
    show _ ∈ _ ++ [] ↔ _
    rw [List.append_nil, List.mem_reverse]
    rfl
  have hknown : ∀ t ∈ (done.filter fun e => !e.isBehind mark).map Envelope.transaction,
      t.id ∈ b.applied := by
    intro t ht
    obtain ⟨e, he, rfl⟩ := List.mem_map.mp ht
    exact (hids e).mpr (List.mem_map_of_mem (List.mem_filter.mp he).1)
  have hnew : ∀ t ∈ rest.map Envelope.transaction, t.id ∉ b.applied := by
    intro t ht hmem
    obtain ⟨e, he, rfl⟩ := List.mem_map.mp ht
    exact hdistinct.2.2 _ ((hids e).mp hmem) _ (List.mem_map_of_mem he) rfl
  have hprefix := htaken.map Envelope.transaction
  rw [List.map_append] at hprefix
  have hrest : ((rest.map Envelope.transaction).map Transaction.id).Nodup := by
    rw [List.map_map]
    exact hdistinct.2.1
  obtain ⟨more, hmore, hon, hall⟩ := htakes.of_prefix hprefix hknown hnew hrest
  obtain ⟨es, ⟨later, rfl⟩, rfl⟩ := List.prefix_map_iff.mp hmore
  have hdone : (Book.ofRegistry b'.registry).AppliesAll
      ((done ++ es).map Envelope.transaction) b' := by
    rw [hon.registry_eq, List.map_append]
    exact happlies.append hon
  refine ⟨⟨done ++ es, later, (List.append_assoc ..).symm, hdone, ?_⟩, ?_⟩
  · intro t ht
    obtain ⟨e, he, hknown⟩ := hseen t ht
    exact ⟨e, List.mem_append_left _ he, hknown⟩
  · rintro rfl
    rw [List.map_append, ← hall List.map_append, ← List.map_append]
    exact hdone

end InStep
/-! ## The checkpoint of a front part

  Replay from the checkpoint on meets some records of the front part again and then all that come
  behind. -/

/-- If the journal's knowledge times go up, replay from an instant on leaves out what is behind
    it and goes by the order of adding. -/
theorem Index.envelopes_replayFromMark {x : Index} (h : x.replay = x.records)
    (mark : Option Instant) : (x.replayFromMark mark).map Record.envelope
      = x.envelopes.filter fun e => !e.isBehind mark := by
  cases mark with
  | none =>
    rw [replayFromMark, h]
    exact (List.filter_eq_self.mpr fun _ _ => rfl).symm
  | some t =>
    rw [replayFromMark, replaySince, h, envelopes, List.filter_map]
    rfl

/-- The same of a catch-up from an index. -/
theorem InStep.catchUp {x : Index} {mark : Option Instant} {b b' : Book} {taken : List Record}
    (h : InStep x.envelopes mark b) (horderly : x.Orderly)
    (htimes : (x.envelopes.map Envelope.knowledgeTime).Pairwise fun s t => s.notAfter t = true)
    (htaken : taken <+: x.replayFromMark mark)
    (htakes : b.Takes (taken.map Record.transaction) b') :
    InStep x.envelopes mark b' ∧ (taken = x.replayFromMark mark →
      (Book.ofRegistry b'.registry).AppliesAll (x.envelopes.map Envelope.transaction) b') := by
  have houtstanding := Index.envelopes_replayFromMark (horderly.replay_eq htimes) mark
  have hprefix : taken.map Record.envelope <+: x.envelopes.filter fun e => !e.isBehind mark := by
    rw [← houtstanding]
    exact htaken.map _
  have htaking : b.Takes ((taken.map Record.envelope).map Envelope.transaction) b' := by
    rw [List.map_map]
    exact htakes
  obtain ⟨hstep, hall⟩ := h.take htimes horderly.distinct hprefix htaking
  refine ⟨hstep, fun heq => hall ?_⟩
  rw [heq, houtstanding]

/-- The latest of what is not behind the checkpoint is the latest of all; and if nothing is ahead,
    the checkpoint is. -/
theorem Instant.isLatest_or {logged : List Envelope} {mark last : Option Instant}
    (hseen : ∀ t, mark = some t → ∃ e ∈ logged, e.knowledgeTime = t)
    (hlatest : IsLatest last
      ((logged.filter fun e => !e.isBehind mark).map Envelope.knowledgeTime)) :
    IsLatest (last.or mark) (logged.map Envelope.knowledgeTime) := by
  cases last with
  | none =>
    have hnothing : ∀ e ∈ logged, ¬ (!e.isBehind mark) = true :=
      List.filter_eq_nil_iff.mp (List.map_eq_nil_iff.mp hlatest)
    cases mark with
    | none =>
      cases logged with
      | nil => rfl
      | cons e es => exact absurd rfl (hnothing e List.mem_cons_self)
    | some t =>
      obtain ⟨e, he, rfl⟩ := hseen t rfl
      exact absurd (notAfter_refl e.knowledgeTime) (hnothing e he)
  | some t' =>
    obtain ⟨hmem, hall⟩ := hlatest
    obtain ⟨e', he', hknown⟩ := List.mem_map.mp hmem
    obtain ⟨he', hahead⟩ := List.mem_filter.mp he'
    refine ⟨hknown ▸ List.mem_map_of_mem he', ?_⟩
    intro s hs
    obtain ⟨e, he, rfl⟩ := List.mem_map.mp hs
    -- what is ahead was compared; what is behind comes before the mark, and so before what is ahead
    cases hbehind : e.isBehind mark with
    | false =>
      refine hall _ (List.mem_map_of_mem (List.mem_filter.mpr ⟨he, ?_⟩))
      rw [hbehind]
      rfl
    | true =>
      cases mark with
      | none => exact nomatch hbehind
      | some t =>
        rw [← hknown]
        exact notAfter_of_isBefore (isBefore_of_isBefore_of_notAfter hbehind hahead)

/-! ## A journal and its follower

  Calls of both, in any order: the journal grows, and the follower catches up when it likes. -/

/-- A journal and a follower of it. -/
structure Feed where
  journal : Journal
  follower : Follower

namespace Feed

/-- An addition to the journal, or a call of the follower. -/
inductive Call where
  | append (outage : Option IoFailure) (envelope : Envelope)
  | register (account : Account)
  | catchUp (outage : CatchUpOutage)

/-- Both after a call; the checkpoint is kept under a name. -/
def step (name : String) (s : Feed) : Call → Feed
  | .append outage e => { s with journal := (s.journal.appendUnder outage e).2 }
  | .register a => { s with follower.book := s.follower.book.step (.register a) }
  | .catchUp o => { s with follower := (s.follower.catchUp o s.journal.index name).2 }

/-- Both after some calls. -/
def run (name : String) (s : Feed) (cs : List Call) : Feed := cs.foldl (step name) s

/-- The journal takes each transaction once; its knowledge times go up, and each of them can be
    read back from the checkpoint that is written for it. -/
structure Regular (name : String) (s : Feed) : Prop where
  orderly : s.journal.index.Orderly
  times : (s.journal.envelopes.map Envelope.knowledgeTime).Pairwise
    fun s t => s.notAfter t = true
  readable : ∀ e ∈ s.journal.envelopes,
    readCheckpoint (checkpointKey name) (checkpointBytes e.knowledgeTime) = .ok e.knowledgeTime

variable {name : String} {s : Feed} {mark : Option Instant}

/-- Calls may be made in two parts. -/
theorem run_append (name : String) (s : Feed) (cs ds : List Call) :
    s.run name (cs ++ ds) = (s.run name cs).run name ds := List.foldl_append

/-- No call puts the journal out of order. -/
theorem orderly_step (h : s.journal.index.Orderly) (c : Call) :
    (s.step name c).journal.index.Orderly := by
  cases c with
  | append outage e => exact Journal.orderly_appendUnder h outage e
  | register a => exact h
  | catchUp o => exact h

/-- Nor do many. -/
theorem orderly_run (h : s.journal.index.Orderly) (cs : List Call) :
    (s.run name cs).journal.index.Orderly := by
  induction cs using List.reverseRecOn with
  | nil => exact h
  | append_singleton cs c ih =>
    rw [run_append]
    exact orderly_step ih c

/-- A call leaves what is journalled, and adds behind it. -/
theorem prefix_step (name : String) (s : Feed) (c : Call) :
    s.journal.envelopes <+: (s.step name c).journal.envelopes := by
  cases c with
  | append outage e =>
    rw [step]
    rcases s.journal.appendUnder_cases outage e with
      ⟨n, j, hj, -, hadded⟩ | ⟨n, hj, -⟩ | ⟨cause, j, hj, hsame⟩
    · rw [hj]
      exact ⟨[e], hadded.symm⟩
    · rw [hj]
    · rw [hj]
      exact hsame ▸ List.prefix_rfl
  | register a => exact List.prefix_rfl
  | catchUp o => exact List.prefix_rfl

/-- A journal that is regular after a call was so before. -/
theorem Regular.of_step {c : Call} (h : Regular name (s.step name c))
    (horderly : s.journal.index.Orderly) : Regular name s := by
  have hgrows := prefix_step name s c
  exact ⟨horderly, h.times.sublist (hgrows.sublist.map _),
    fun e he => h.readable e (hgrows.subset he)⟩

/-- After a catch-up that got through, the follower has applied the whole journal, and its
    checkpoint is the latest knowledge time. -/
theorem catchUp_of_inStep {o : CatchUpOutage} {report : ReplayReport} {f : Follower}
    (hregular : Regular name s) (hmark : s.follower.checkpoint .none name = .ok mark)
    (h : InStep s.journal.envelopes mark s.follower.book)
    (hf : s.follower.catchUp o s.journal.index name = (.ok report, f)) :
    (Book.ofRegistry f.book.registry).AppliesAll
        (s.journal.envelopes.map Envelope.transaction) f.book ∧
      ∃ mark', f.checkpoint .none name = .ok mark' ∧
        Instant.IsLatest mark' (s.journal.envelopes.map Envelope.knowledgeTime) := by
  obtain ⟨mark', hmark', htakes, hlatest, hstore⟩ := Follower.catchUp_of_ok hf
  obtain rfl : mark = mark' :=
    Except.ok.inj (hmark.symm.trans (Follower.checkpoint_of_ok hmark'))
  refine ⟨(h.catchUp hregular.orderly hregular.times List.prefix_rfl htakes).2 rfl,
    report.lastKnowledgeTime.or mark, ?_, ?_⟩
  · cases hlast : report.lastKnowledgeTime with
    | none =>
      rw [hlast] at hstore
      rw [Follower.checkpoint_of_store hstore, hmark]
      rfl
    | some t =>
      rw [hlast] at hstore hlatest
      obtain ⟨r, hr, rfl⟩ := List.mem_map.mp hlatest.1
      have hread := hregular.readable r.envelope
        (List.mem_map_of_mem (Index.mem_replayFromMark.mp hr).1)
      have hyear : r.knowledgeTime.FourDigitYear := fourDigitYear_of_read hread
      rw [Follower.checkpoint_of_insert hstore, if_pos hyear]
      rfl
  · refine Instant.isLatest_or h.seen ?_
    · show Instant.IsLatest _ ((s.journal.index.envelopes.filter _).map _)
      rw [← Index.envelopes_replayFromMark (hregular.orderly.replay_eq hregular.times),
        List.map_map]
      exact hlatest

/-- The follower stays in step through any call, and its checkpoint does not go back. -/
theorem inStep_step {c : Call} (hregular : Regular name (s.step name c))
    (horderly : s.journal.index.Orderly) (hmark : s.follower.checkpoint .none name = .ok mark)
    (h : InStep s.journal.envelopes mark s.follower.book) :
    ∃ mark', (s.step name c).follower.checkpoint .none name = .ok mark' ∧
      InStep (s.step name c).journal.envelopes mark' (s.step name c).follower.book ∧
      ∀ t, mark = some t → ∃ t', mark' = some t' ∧ t.notAfter t' = true := by
  have hstays : ∀ t, mark = some t → ∃ t', mark = some t' ∧ t.notAfter t' = true :=
    fun t ht => ⟨t, ht, Instant.notAfter_refl t⟩
  have hbefore := hregular.of_step horderly
  cases c with
  | append outage e =>
    obtain ⟨new, hnew⟩ := prefix_step name s (.append outage e)
    rw [← hnew]
    exact ⟨mark, hmark, h.log new, hstays⟩
  | register a => exact ⟨mark, hmark, h.register a, hstays⟩
  | catchUp o =>
    rw [step]
    rcases Follower.catchUp_cases o s.follower s.journal.index name with
      ⟨-, report, f, hf, -⟩ | ⟨mark', e, taken, f, hf, hmark', htaken, htakes, hstore, -⟩ |
      ⟨e, hf, -⟩
    · obtain ⟨happlies, mark', hmark', hlatest⟩ := catchUp_of_inStep hbefore hmark h hf
      rw [hf]
      refine ⟨mark', hmark', ⟨s.journal.envelopes, [], (List.append_nil _).symm, happlies, ?_⟩, ?_⟩
      · rintro t rfl
        obtain ⟨e, he, hknown⟩ := List.mem_map.mp hlatest.1
        exact ⟨e, he, hknown⟩
      · rintro t rfl
        obtain ⟨e, he, rfl⟩ := h.seen t rfl
        have hmem : e.knowledgeTime ∈ s.journal.envelopes.map Envelope.knowledgeTime :=
          List.mem_map_of_mem he
        cases mark' with
        | none =>
          rw [show s.journal.envelopes.map Envelope.knowledgeTime = [] from hlatest] at hmem
          exact absurd hmem List.not_mem_nil
        | some t' => exact ⟨t', rfl, hlatest.2 _ hmem⟩
    · obtain rfl : mark = mark' :=
        Except.ok.inj (hmark.symm.trans (Follower.checkpoint_of_ok hmark'))
      rw [hf]
      refine ⟨mark, ?_, (h.catchUp horderly hbefore.times htaken htakes).1, hstays⟩
      rw [Follower.checkpoint_of_store hstore]
      exact hmark
    · rw [hf]
      exact ⟨mark, hmark, h, hstays⟩

/-! ## Many calls

  The invariant over any calls, under the condition that the times of the journal go up. -/

/-- What is regular in the end was so at every step. -/
theorem regular_run {pre post : List Call}
    (h : Regular name (s.run name (pre ++ post))) (horderly : s.journal.index.Orderly) :
    Regular name (s.run name pre) := by
  induction post using List.reverseRecOn with
  | nil => rwa [List.append_nil] at h
  | append_singleton post c ih =>
    rw [← List.append_assoc, run_append] at h
    refine ih (h.of_step ?_)
    exact orderly_run horderly (pre ++ post)

/-- The follower stays in step through any run, and its checkpoint does not go back. -/
theorem inStep_run {cs : List Call} (hregular : Regular name (s.run name cs))
    (horderly : s.journal.index.Orderly) (hmark : s.follower.checkpoint .none name = .ok mark)
    (h : InStep s.journal.envelopes mark s.follower.book) :
    ∃ mark', (s.run name cs).follower.checkpoint .none name = .ok mark' ∧
      InStep (s.run name cs).journal.envelopes mark' (s.run name cs).follower.book ∧
      ∀ t, mark = some t → ∃ t', mark' = some t' ∧ t.notAfter t' = true := by
  induction cs using List.reverseRecOn with
  | nil => exact ⟨mark, hmark, h, fun t ht => ⟨t, ht, Instant.notAfter_refl t⟩⟩
  | append_singleton cs c ih =>
    obtain ⟨mark', hmark', h', hforth⟩ := ih (regular_run hregular horderly)
    rw [run_append] at hregular ⊢
    obtain ⟨mark'', hmark'', h'', hforth'⟩ :=
      inStep_step hregular (orderly_run horderly cs) hmark' h'
    refine ⟨mark'', hmark'', h'', ?_⟩
    intro t ht
    obtain ⟨t', ht', hle⟩ := hforth t ht
    obtain ⟨t'', ht'', hle'⟩ := hforth' t' ht'
    exact ⟨t'', ht'', Instant.notAfter_trans hle hle'⟩

/-- A new follower without a checkpoint is in step with any journal. -/
theorem inStep_start {r : Registry} (hb : s.follower.book = .ofRegistry r)
    (hs : s.follower.store.find? (checkpointKey name) = none) :
    s.follower.checkpoint .none name = .ok none ∧
      InStep s.journal.envelopes none s.follower.book := by
  refine ⟨?_, [], s.journal.envelopes, rfl, ?_, fun _ ht => (nomatch ht)⟩
  · rw [Follower.checkpoint_eq, hs]
    rfl
  · rw [hb]
    rfl

/-- **A follower that catches up ends where a rebuild ends.**  Let a new follower without a
    checkpoint catch up with a journal now and then, while more is journalled and accounts are
    registered, and whatever is out of order.  The journal takes each transaction once, its
    knowledge times go up in the order of adding, and each can be read back from the checkpoint
    that is written for it.  Then after a catch-up that gets through, a rebuild with the accounts
    that there are leads to the very book of the follower, and the checkpoint is the latest
    knowledge time of the journal.  A catch-up that does not get through leaves the checkpoint as
    it was, and the checkpoint never goes back. -/
theorem incremental_eq_rebuild {r : Registry} (horderly : s.journal.index.Orderly)
    (hb : s.follower.book = .ofRegistry r)
    (hs : s.follower.store.find? (checkpointKey name) = none) {cs : List Call}
    (htimes : ((s.run name cs).journal.envelopes.map Envelope.knowledgeTime).Pairwise
      fun s t => s.notAfter t = true)
    (hread : ∀ e ∈ (s.run name cs).journal.envelopes, readCheckpoint (checkpointKey name)
      (checkpointBytes e.knowledgeTime) = .ok e.knowledgeTime) :
    (∀ o report f,
      (s.run name cs).follower.catchUp o (s.run name cs).journal.index name = (.ok report, f) →
      (∃ report', rebuild f.book.registry (s.run name cs).journal.index = .ok (report', f.book)) ∧
        ∃ mark, f.checkpoint .none name = .ok mark ∧
          Instant.IsLatest mark
            ((s.run name cs).journal.envelopes.map Envelope.knowledgeTime)) ∧
    (∀ o e f,
      (s.run name cs).follower.catchUp o (s.run name cs).journal.index name = (.error e, f) →
      f.store = (s.run name cs).follower.store) ∧
    ∀ pre post, pre ++ post = cs → ∀ t,
      (s.run name pre).follower.checkpoint .none name = .ok (some t) →
      ∃ t', (s.run name cs).follower.checkpoint .none name = .ok (some t') ∧
        t.notAfter t' = true := by
  have hregular : Regular name (s.run name cs) := ⟨orderly_run horderly cs, htimes, hread⟩
  obtain ⟨hmark, hstart⟩ := inStep_start hb hs
  refine ⟨?_, fun o e f hf => Follower.catchUp_of_error hf, ?_⟩
  · intro o report f hf
    obtain ⟨mark, hmark', h, -⟩ := inStep_run hregular horderly hmark hstart
    obtain ⟨happlies, hlatest⟩ := catchUp_of_inStep hregular hmark' h hf
    refine ⟨?_, hlatest⟩
    rw [Journal.envelopes, Index.envelopes, List.map_map, ← hregular.orderly.replay_eq htimes]
      at happlies
    exact rebuildFrom_eq_ok happlies
  · rintro pre post rfl t ht
    obtain ⟨mark, hmark', h, -⟩ := inStep_run (regular_run hregular horderly) horderly hmark hstart
    rw [run_append] at hregular ⊢
    obtain ⟨mark', hmark'', -, hforth⟩ := inStep_run hregular (orderly_run horderly pre) hmark' h
    obtain ⟨t', rfl, hle⟩ := hforth t (Except.ok.inj (hmark'.symm.trans ht))
    exact ⟨t', hmark'', hle⟩

end Feed

/-! ## A sample run

  A catch-up that stops when it has applied everything, because the checkpoint cannot be put. -/

namespace Sample

/-- A journal without records and a new follower. -/
def feed : Feed := ⟨.inMemory, follower⟩

/-- Checkpoints cannot be put. -/
def storeDown : CatchUpOutage := ⟨none, ⟨false, true⟩⟩

/-- One transfer is journalled, the follower applies it but cannot tell where it is, and another is
    journalled. -/
def interruptedRun : List Feed.Call :=
  [.append none early, .catchUp storeDown, .append none late]

end Sample

namespace Feed

theorem catchUp_interrupted : ∃ report f,
    (Sample.feed.run "gl" Sample.interruptedRun).follower.catchUp .none
      (Sample.feed.run "gl" Sample.interruptedRun).journal.index "gl" = (.ok report, f) := by
  have hindex : (Sample.feed.run "gl" Sample.interruptedRun).journal.index
      = ⟨[⟨1, Sample.early⟩, ⟨2, Sample.late⟩]⟩ := by decide
  have hfollower : (Sample.feed.run "gl" Sample.interruptedRun).follower
      = (Sample.follower.catchUp Sample.storeDown ⟨[⟨1, Sample.early⟩]⟩ "gl").2 := rfl
  have hout : Sample.follower.outstanding Sample.storeDown ⟨[⟨1, Sample.early⟩]⟩ "gl"
      = .ok [⟨1, Sample.early⟩] := by
    rw [Follower.outstanding_eq, Follower.checkpoint_eq]
    exact congrArg Except.ok (List.mergeSort_singleton _)
  have hblocked : (Sample.follower.catchUp Sample.storeDown ⟨[⟨1, Sample.early⟩]⟩ "gl").2
      = ⟨(replayInto Sample.follower.book [⟨1, Sample.early⟩]).2, Sample.follower.store⟩ := by
    rw [Follower.catchUp, hout]
    rfl
  have hreplay : Index.replay ⟨[⟨1, Sample.early⟩, ⟨2, Sample.late⟩]⟩
      = [⟨1, Sample.early⟩, ⟨2, Sample.late⟩] :=
    List.mergeSort_of_pairwise (by decide)
  rw [hindex, hfollower, hblocked]
  exact ⟨_, _, Follower.catchUp_of_replay rfl hreplay rfl rfl⟩

/-- The next catch-up finds the first transfer applied and applies the second. -/
theorem incremental_eq_rebuild_interrupted : ∃ report f report',
    (Sample.feed.run "gl" Sample.interruptedRun).follower.catchUp .none
        (Sample.feed.run "gl" Sample.interruptedRun).journal.index "gl" = (.ok report, f) ∧
      rebuild f.book.registry (Sample.feed.run "gl" Sample.interruptedRun).journal.index
        = .ok (report', f.book) ∧
      ∃ mark, f.checkpoint .none "gl" = .ok mark ∧
        Instant.IsLatest mark [Sample.noon, Sample.evening] := by
  have hlogged : (Sample.feed.run "gl" Sample.interruptedRun).journal.envelopes
      = [Sample.early, Sample.late] := by decide
  have htimes : ((Sample.feed.run "gl" Sample.interruptedRun).journal.envelopes.map
      Envelope.knowledgeTime).Pairwise fun s t => s.notAfter t = true := by
    rw [hlogged]
    decide
  have hread : ∀ e ∈ (Sample.feed.run "gl" Sample.interruptedRun).journal.envelopes,
      readCheckpoint (checkpointKey "gl") (checkpointBytes e.knowledgeTime)
        = .ok e.knowledgeTime := by
    intro e he
    have hyears : ∀ e ∈ [Sample.early, Sample.late], e.knowledgeTime.FourDigitYear := by decide
    rw [hlogged] at he
    rw [readCheckpoint_checkpointBytes, if_pos (hyears e he)]
  obtain ⟨report, f, hf⟩ := catchUp_interrupted
  obtain ⟨⟨report', hrebuild⟩, hlatest⟩ :=
    (incremental_eq_rebuild Index.orderly_empty rfl rfl htimes hread).1 _ _ _ hf
  rw [hlogged] at hlatest
  exact ⟨report, f, report', hf, hrebuild, hlatest⟩

end Feed
end Subledger
