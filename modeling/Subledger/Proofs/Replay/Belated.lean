/-
  BELATED RECORDS: what a follower never gets to see.

  A follower goes by knowledge time: it takes what was learned at its checkpoint or later.  An
  envelope that had to wait for the journal keeps the time at which it was learned, so it can reach
  the journal when the checkpoint is past that time already.  Then no catch-up takes it any more.

  1. **The pair** (`Tandem`) — a processor at work, and a follower that catches up now and then.
  2. **The belated** (`belated`) — the envelopes that were journalled behind the checkpoint of that
     moment.
  3. **The invariant** (`Follows`) — every journalled envelope is belated, or applied by the
     follower, or not behind the checkpoint; and the belated are behind it, for good.
  4. **The result** (`catchUp_misses_belated`) — after a catch-up that got through the follower has
     applied all that is journalled but the belated.  There are none if the clock does not go back
     and nothing waits whenever the follower catches up.
-/
import Subledger.Proofs.Processor.Delivery
import Subledger.Proofs.Replay.CatchUp

namespace Subledger

/-! ## A processor and its follower -/

/-- A processor and a follower of its journal. -/
structure Tandem where
  processor : Processor
  follower : Follower

namespace Tandem

/-- A call of the processor, or of the follower. -/
inductive Call where
  | process (call : Processor.Call)
  | register (account : Account)
  | catchUp (outage : CatchUpOutage)

/-- Both after a call; the checkpoint is kept under a name. -/
def step (name : String) (s : Tandem) : Call → Tandem
  | .process c => { s with processor := s.processor.step c }
  | .register a => { s with follower.book := s.follower.book.step (.register a) }
  | .catchUp o =>
    { s with follower := (s.follower.catchUp o s.processor.journal.index name).2 }

/-- Both after some calls. -/
def run (name : String) (s : Tandem) (cs : List Call) : Tandem := cs.foldl (step name) s

/-- The calls of the processor among some calls. -/
def processed : List Call → List Processor.Call
  | [] => []
  | .process c :: cs => c :: processed cs
  | .register _ :: cs => processed cs
  | .catchUp _ :: cs => processed cs

/-- The instant of the follower's checkpoint; none if there is none or it cannot be read. -/
def mark (name : String) (s : Tandem) : Option Instant :=
  match s.follower.checkpoint .none name with
  | .ok mark => mark
  | .error _ => none

/-- The envelopes that a call journals. -/
def logs (name : String) (s : Tandem) (c : Call) : List Envelope :=
  (s.step name c).processor.journal.envelopes.drop s.processor.journal.envelopes.length

/-- The envelopes that some calls journal behind the checkpoint of that moment. -/
def belated (name : String) (s : Tandem) : List Call → List Envelope
  | [] => []
  | c :: cs => (s.logs name c).filter (Envelope.isBehind (s.mark name)) ++
      (s.step name c).belated name cs

variable {name : String} {s : Tandem}

/-! ## The processor does not mind the follower -/

/-- What a tandem does to its processor is what the calls of the processor do. -/
theorem processor_run (name : String) (s : Tandem) (cs : List Call) :
    (s.run name cs).processor = s.processor.run (processed cs) := by
  induction cs generalizing s with
  | nil => rfl
  | cons c cs ih =>
    have hrest := ih (s.step name c)
    cases c <;> exact hrest

/-- Calls may be made in two parts. -/
theorem run_append (name : String) (s : Tandem) (cs ds : List Call) :
    s.run name (cs ++ ds) = (s.run name cs).run name ds := List.foldl_append

/-- The calls of the processor are those of both parts. -/
theorem processed_append (cs ds : List Call) :
    processed (cs ++ ds) = processed cs ++ processed ds := by
  induction cs with
  | nil => rfl
  | cons c cs ih =>
    cases c with
    | process c => exact congrArg (List.cons c) ih
    | register a => exact ih
    | catchUp o => exact ih

/-- What comes late in the second part is counted from where the first has led. -/
theorem belated_append (name : String) (s : Tandem) (cs ds : List Call) :
    s.belated name (cs ++ ds) = s.belated name cs ++ (s.run name cs).belated name ds := by
  induction cs generalizing s with
  | nil => rfl
  | cons c cs ih => rw [List.cons_append, belated, belated, ih, List.append_assoc]; rfl

/-- What a call journals comes after what is journalled. -/
theorem envelopes_step (name : String) (s : Tandem) (c : Call) :
    (s.step name c).processor.journal.envelopes
      = s.processor.journal.envelopes ++ s.logs name c := by
  have hgrows : s.processor.journal.envelopes <+:
      (s.step name c).processor.journal.envelopes := by
    cases c with
    | process c => exact Processor.prefix_step s.processor c
    | register a => exact List.prefix_rfl
    | catchUp o => exact List.prefix_rfl
  exact (List.prefix_iff_eq_append.mp hgrows).symm

/-! ## What the follower has -/

/-- What a follower has applied, and its checkpoint, against a journal.  The follower knows nothing
    else; each journalled envelope is belated, or applied, or not behind the checkpoint; and the
    belated are journalled, but not applied, and behind the checkpoint. -/
structure Follows (logged belated : List Envelope) (mark : Option Instant)
    (applied : List TransactionId) : Prop where
  known : ∀ id ∈ applied, id ∈ logged.map Envelope.id
  covered : ∀ e ∈ logged, e ∈ belated ∨ e.id ∈ applied ∨ e.isBehind mark = false
  missed : ∀ e ∈ belated, e ∈ logged ∧ e.id ∉ applied ∧ e.isBehind mark = true

variable {logged missing new : List Envelope} {mark : Option Instant}
  {applied : List TransactionId} {b b' : Book}

/-- More is journalled; what of it is behind the checkpoint is belated. -/
theorem Follows.log (h : Follows logged missing mark applied)
    (hdistinct : ((logged ++ new).map Envelope.id).Nodup) :
    Follows (logged ++ new) (missing ++ new.filter (Envelope.isBehind mark)) mark applied := by
  rw [List.map_append] at hdistinct
  refine ⟨?_, ?_, ?_⟩
  · intro id hid
    rw [List.map_append]
    exact List.mem_append_left _ (h.known id hid)
  · intro e he
    rcases List.mem_append.mp he with hold | hnew
    · rcases h.covered e hold with hmissing | hthere
      · exact Or.inl (List.mem_append_left _ hmissing)
      · exact Or.inr hthere
    · cases hbehind : e.isBehind mark with
      | false => exact Or.inr (Or.inr rfl)
      | true =>
        exact Or.inl (List.mem_append_right _ (List.mem_filter.mpr ⟨hnew, hbehind⟩))
  · intro e he
    rcases List.mem_append.mp he with hold | hnew
    · obtain ⟨hmem, hrest⟩ := h.missed e hold
      exact ⟨List.mem_append_left _ hmem, hrest⟩
    · obtain ⟨hnew, hbehind⟩ := List.mem_filter.mp hnew
      refine ⟨List.mem_append_right _ hnew, ?_, hbehind⟩
      -- the follower knows journalled names only, and this one is journalled just now
      intro hid
      exact (List.nodup_append.mp hdistinct).2.2 _ (h.known _ hid) _
        (List.mem_map_of_mem hnew) rfl

/-- The follower takes some of what is not behind its checkpoint. -/
theorem Follows.take (h : Follows logged missing mark b.applied)
    (hdistinct : (logged.map Envelope.id).Nodup) {ts : List Transaction}
    (hts : ∀ id ∈ ts.map Transaction.id, ∃ e ∈ logged, e.isBehind mark = false ∧ e.id = id)
    (htakes : b.Takes ts b') : Follows logged missing mark b'.applied := by
  refine ⟨?_, ?_, ?_⟩
  · intro id hid
    rcases (htakes.mem_applied id).mp hid with hbefore | hnow
    · exact h.known id hbefore
    · obtain ⟨e, he, -, rfl⟩ := hts id hnow
      exact List.mem_map_of_mem he
  · intro e he
    rcases h.covered e he with hmissing | happlied | hahead
    · exact Or.inl hmissing
    · exact Or.inr (Or.inl ((htakes.mem_applied _).mpr (Or.inl happlied)))
    · exact Or.inr (Or.inr hahead)
  · intro e he
    obtain ⟨hmem, hnot, hbehind⟩ := h.missed e he
    refine ⟨hmem, ?_, hbehind⟩
    intro hid
    rcases (htakes.mem_applied _).mp hid with hbefore | hnow
    · exact hnot hbefore
    · obtain ⟨e', he', hahead, hname⟩ := hts _ hnow
      obtain rfl := List.inj_on_of_nodup_map hdistinct he' hmem hname
      rw [hbehind] at hahead
      exact nomatch hahead

/-- All that is not behind the checkpoint is applied: then all is applied but the belated. -/
theorem Follows.applied_iff (h : Follows logged missing mark applied)
    (hall : ∀ e ∈ logged, e.isBehind mark = false → e.id ∈ applied) :
    ∀ e ∈ logged, e.id ∈ applied ↔ e ∉ missing := by
  intro e he
  constructor
  · intro happlied hmissing
    exact (h.missed e hmissing).2.1 happlied
  · intro hnot
    rcases h.covered e he with hmissing | happlied | hahead
    · exact absurd hmissing hnot
    · exact happlied
    · exact hall e he hahead

/-- The checkpoint moves on over what is applied. -/
theorem Follows.move {mark' : Option Instant} (h : Follows logged missing mark applied)
    (hall : ∀ e ∈ logged, e.isBehind mark = false → e.id ∈ applied)
    (hmoves : ∀ e : Envelope, e.isBehind mark = true → e.isBehind mark' = true) :
    Follows logged missing mark' applied := by
  refine ⟨h.known, ?_, ?_⟩
  · intro e he
    rcases h.covered e he with hmissing | happlied | hahead
    · exact Or.inl hmissing
    · exact Or.inr (Or.inl happlied)
    · exact Or.inr (Or.inl (hall e he hahead))
  · intro e he
    obtain ⟨hmem, hnot, hbehind⟩ := h.missed e he
    exact ⟨hmem, hnot, hmoves e hbehind⟩

/-- A checkpoint that moves to the latest of what was not behind it does not go back. -/
theorem isBehind_of_isLatest {x : Index} {last : Option Instant} {e : Envelope}
    (hlatest : Instant.IsLatest last ((x.replayFromMark mark).map Record.knowledgeTime))
    (hbehind : e.isBehind mark = true) : e.isBehind (last.or mark) = true := by
  cases mark with
  | none => exact nomatch hbehind
  | some t =>
    cases last with
    | none => exact hbehind
    | some t' =>
      obtain ⟨r, hr, rfl⟩ := List.mem_map.mp hlatest.1
      have hahead : r.knowledgeTime.isBefore t = false := (Index.mem_replayFromMark.mp hr).2
      have hnot : t.notAfter r.knowledgeTime = true := by
        rw [Instant.notAfter, hahead]
        rfl
      exact Instant.isBefore_of_isBefore_of_notAfter hbehind hnot

/-! ## Both together -/

/-- While its checkpoint can be read, the follower follows. -/
def Tracking (name : String) (s : Tandem) (missing : List Envelope) : Prop :=
  ∀ mark, s.follower.checkpoint .none name = .ok mark →
    Follows s.processor.journal.envelopes missing mark s.follower.book.applied

/-- All that a catch-up takes is journalled and not behind the checkpoint. -/
theorem Follows.catchUp {x : Index} {taken : List Record}
    (h : Follows x.envelopes missing mark b.applied)
    (hdistinct : (x.envelopes.map Envelope.id).Nodup) (htaken : taken ⊆ x.replayFromMark mark)
    (htakes : b.Takes (taken.map Record.transaction) b') :
    Follows x.envelopes missing mark b'.applied := by
  refine h.take hdistinct ?_ htakes
  intro id hid
  refine Index.mem_ids_replayFromMark.mp ?_
  exact List.map_subset _ (List.map_subset _ htaken) hid

/-- After a catch-up that got through, the follower has applied what was not behind its
    checkpoint. -/
theorem applied_of_ahead {x : Index}
    (htakes : b.Takes ((x.replayFromMark mark).map Record.transaction) b') :
    ∀ e ∈ x.envelopes, e.isBehind mark = false → e.id ∈ b'.applied := by
  intro e he hahead
  rw [htakes.mem_applied]
  exact Or.inr (Index.mem_ids_replayFromMark.mpr ⟨e, he, hahead, rfl⟩)

/-- Any call keeps the follower following. -/
theorem Tracking.step {missing : List Envelope} (h : Tracking name s missing) (c : Call)
    (hdistinct : ((s.step name c).processor.journal.envelopes.map Envelope.id).Nodup) :
    Tracking name (s.step name c)
      (missing ++ (s.logs name c).filter (Envelope.isBehind (s.mark name))) := by
  cases c with
  | process c =>
    intro mark hmark
    have hsame : s.follower.checkpoint .none name = .ok mark := hmark
    have hnow : s.mark name = mark := by rw [Tandem.mark, hsame]
    rw [envelopes_step] at hdistinct ⊢
    rw [hnow]
    exact (h mark hsame).log hdistinct
  | register a =>
    have hnothing : s.logs name (.register a) = [] := List.drop_length
    rw [hnothing, List.filter_nil, List.append_nil]
    intro mark hmark
    have happlied : (s.follower.book.step (.register a)).applied = s.follower.book.applied := by
      rcases Book.step_cases s.follower.book (.register a) with ⟨-, -, hsame⟩ | ⟨_, hcall, -⟩
      · exact hsame
      · exact nomatch hcall
    show Follows _ missing mark (s.follower.book.step (.register a)).applied
    rw [happlied]
    exact h mark hmark
  | catchUp o =>
    have hnothing : s.logs name (.catchUp o) = [] := List.drop_length
    rw [hnothing, List.filter_nil, List.append_nil]
    intro mark' hmark'
    rcases Follower.catchUp_cases o s.follower s.processor.journal.index name with
      ⟨mark, report, f, hf, hmark, htakes, hlatest, -⟩ |
      ⟨mark, e, taken, f, hf, hmark, htaken, htakes, hstore, -⟩ | ⟨e, hf, -⟩
    · rw [Tandem.step, hf] at hmark' ⊢
      have hfollows := (h mark (Follower.checkpoint_of_ok hmark)).catchUp hdistinct
        (List.Subset.refl _) htakes
      rw [Follower.mark_of_catchUp hf hmark hmark']
      exact hfollows.move (applied_of_ahead htakes) (fun e => isBehind_of_isLatest hlatest)
    · rw [Tandem.step, hf] at hmark' ⊢
      -- the checkpoint stays where it was
      rw [Follower.checkpoint_of_store hstore, Follower.checkpoint_of_ok hmark] at hmark'
      obtain rfl := Except.ok.inj hmark'
      exact (h mark (Follower.checkpoint_of_ok hmark)).catchUp hdistinct htaken.subset htakes
    · rw [Tandem.step, hf] at hmark' ⊢
      exact h mark' hmark'

/-- A follower without a checkpoint that has applied nothing follows a journal without records. -/
theorem tracking_start {r r' : Registry} (hp : Processor.Fresh r s.processor)
    (hb : s.follower.book = .ofRegistry r')
    (hs : s.follower.store.find? (checkpointKey name) = none) : Tracking name s [] := by
  intro mark hmark
  rw [Follower.checkpoint_eq, hs] at hmark
  obtain rfl := Except.ok.inj hmark
  rw [hp.envelopes, hb]
  exact ⟨fun _ hid => absurd hid List.not_mem_nil, fun _ he => absurd he List.not_mem_nil,
    fun _ he => absurd he List.not_mem_nil⟩

/-- The journal has each transaction once. -/
theorem nodup_envelopes {r : Registry} (hp : Processor.Fresh r s.processor) (cs : List Call) :
    ((s.run name cs).processor.journal.envelopes.map Envelope.id).Nodup := by
  -- what is journalled now was waiting or is learned just now; neither is behind the mark
  have hsettled := Processor.settled_run hp (processed cs)
  have hnodup := (hsettled.places.map Envelope.id).nodup_iff.mpr hsettled.distinct
  rw [List.map_append] at hnodup
  rw [processor_run]
  exact (List.nodup_append.mp hnodup).1

/-- The follower follows through every run. -/
theorem tracking_run {r r' : Registry} (hp : Processor.Fresh r s.processor)
    (hb : s.follower.book = .ofRegistry r')
    (hs : s.follower.store.find? (checkpointKey name) = none) (cs : List Call) :
    Tracking name (s.run name cs) (s.belated name cs) := by
  induction cs using List.reverseRecOn with
  | nil => exact tracking_start hp hb hs
  | append_singleton cs c ih =>
    have hdistinct : ((s.run name (cs ++ [c])).processor.journal.envelopes.map
        Envelope.id).Nodup := nodup_envelopes hp (cs ++ [c])
    rw [run_append] at hdistinct ⊢
    rw [belated_append, belated, belated, List.append_nil]
    exact ih.step c hdistinct

/-! ## Prompt journals -/

/-- The checkpoint was journalled, and nothing that waits for the journal is behind it. -/
structure Prompt (mark : Option Instant) (logged waiting : List Envelope) : Prop where
  seen : ∀ t, mark = some t → ∃ e ∈ logged, e.knowledgeTime = t
  ahead : ∀ e ∈ waiting, e.isBehind mark = false

/-- If the clock does not go back, what is journalled next is not behind the checkpoint. -/
theorem Prompt.log {waiting waiting' learnt : List Envelope} (h : Prompt mark logged waiting)
    (hplaces : (new ++ waiting').Perm (waiting ++ learnt))
    (hclock : ∀ e ∈ logged, ∀ e' ∈ learnt, e.knowledgeTime.notAfter e'.knowledgeTime = true) :
    (∀ e ∈ new, e.isBehind mark = false) ∧ Prompt mark (logged ++ new) waiting' := by
  have hahead : ∀ e ∈ new ++ waiting', e.isBehind mark = false := by
    intro e he
    rcases List.mem_append.mp (hplaces.subset he) with hwaited | hlearnt
    · exact h.ahead e hwaited
    · cases mark with
      | none => rfl
      | some t =>
        obtain ⟨e', he', rfl⟩ := h.seen t rfl
        have hnot := hclock e' he' e hlearnt
        rwa [Instant.notAfter, Bool.not_eq_true'] at hnot
  refine ⟨fun e he => hahead e (List.mem_append_left _ he), ?_,
    fun e he => hahead e (List.mem_append_right _ he)⟩
  intro t ht
  obtain ⟨e, he, hknown⟩ := h.seen t ht
  exact ⟨e, List.mem_append_left _ he, hknown⟩

/-- Any checkpoint that was journalled will do where nothing waits. -/
theorem Prompt.move {mark' : Option Instant}
    (hseen : ∀ t, mark' = some t → ∃ e ∈ logged, e.knowledgeTime = t) : Prompt mark' logged [] :=
  ⟨hseen, fun _ he => absurd he List.not_mem_nil⟩

/-- The mark is what is read back as the checkpoint. -/
theorem mark_eq_some_iff {t : Instant} :
    s.mark name = some t ↔ s.follower.checkpoint .none name = .ok (some t) := by
  rw [mark]
  cases s.follower.checkpoint .none name with
  | error e => exact iff_of_false (fun h => nomatch h) (fun h => nomatch h)
  | ok mark => exact ⟨congrArg _, Except.ok.inj⟩

/-- A checkpoint is the knowledge time of something journalled. -/
theorem seen_catchUp (h : ∀ t, s.mark name = some t →
      ∃ e ∈ s.processor.journal.envelopes, e.knowledgeTime = t) (o : CatchUpOutage) :
    ∀ t, (s.step name (.catchUp o)).mark name = some t →
      ∃ e ∈ s.processor.journal.envelopes, e.knowledgeTime = t := by
  intro t ht
  rw [mark_eq_some_iff, step] at ht
  rcases Follower.catchUp_cases o s.follower s.processor.journal.index name with
    ⟨mark, report, f, hf, hmark, -, hlatest, -⟩ | ⟨mark, e, taken, f, hf, hmark, -, -, hstore, -⟩ |
    ⟨e, hf, -⟩
  · rw [hf] at ht
    have hlast := Follower.mark_of_catchUp hf hmark ht
    cases hreport : report.lastKnowledgeTime with
    | none =>
      rw [hreport, Option.none_or] at hlast
      rw [← hlast] at hmark
      exact h t (mark_eq_some_iff.mpr (Follower.checkpoint_of_ok hmark))
    | some t' =>
      rw [hreport] at hlast hlatest
      obtain rfl : t = t' := Option.some.inj hlast
      obtain ⟨r, hr, hknown⟩ := List.mem_map.mp hlatest.1
      exact ⟨r.envelope, List.mem_map_of_mem (Index.mem_replayFromMark.mp hr).1, hknown⟩
  · rw [hf] at ht
    rw [Follower.checkpoint_of_store hstore] at ht
    exact h t (mark_eq_some_iff.mpr ht)
  · rw [hf] at ht
    exact h t (mark_eq_some_iff.mpr ht)

/-- What a call journals and what waits after it, waited before or was learned by the call. -/
theorem places_step {history : List Envelope} {p : Processor} {c : Processor.Call}
    (h : Processor.Settled history p.journal.envelopes p.pending)
    (h' : Processor.Settled (history ++ (p.learns c).toList) (p.step c).journal.envelopes
      (p.step c).pending) (hadded : (p.step c).journal.envelopes = p.journal.envelopes ++ new) :
    (new ++ (p.step c).pending.values).Perm (p.pending.values ++ (p.learns c).toList) := by
  have hall := h'.places.trans (h.places.append_right _).symm
  rw [hadded, List.append_assoc, List.append_assoc] at hall
  exact (List.perm_append_left_iff _).mp hall

/-- A clock that does not go back shows nothing earlier at the next call. -/
theorem notAfter_learns {p : Processor} {cs : List Processor.Call} {c : Processor.Call}
    (hclock : (p.readings (cs ++ [c])).Pairwise fun s t => s.notAfter t = true) :
    (p.readings cs).Pairwise (fun s t => s.notAfter t = true) ∧
      ∀ e ∈ p.learned cs, ∀ e' ∈ ((p.run cs).learns c).toList,
        e.knowledgeTime.notAfter e'.knowledgeTime = true := by
  rw [Processor.readings, Processor.learned_append, List.map_append, List.pairwise_append] at hclock
  refine ⟨hclock.1, ?_⟩
  intro e he e' he'
  refine hclock.2.2 _ (List.mem_map_of_mem he) _ (List.mem_map_of_mem ?_)
  exact List.mem_append_left _ he'

/-- **Nothing is belated** if the clock does not go back and nothing waits whenever the follower
    catches up. -/
theorem prompt_run {r : Registry} (hp : Processor.Fresh r s.processor)
    (hs : s.follower.store.find? (checkpointKey name) = none) {cs : List Call}
    (hclock : (s.processor.readings (processed cs)).Pairwise fun s t => s.notAfter t = true)
    (hquiet : ∀ pre o post, cs = pre ++ .catchUp o :: post →
      (s.run name pre).processor.pendingIds = []) :
    s.belated name cs = [] ∧
      Prompt ((s.run name cs).mark name) (s.run name cs).processor.journal.envelopes
        (s.run name cs).processor.pending.values := by
  induction cs using List.reverseRecOn with
  | nil =>
    have hnone : s.mark name = none := by
      rw [mark, Follower.checkpoint_eq, hs]
      rfl
    refine ⟨rfl, ?_⟩
    rw [run, List.foldl_nil, hnone]
    exact ⟨fun _ ht => (nomatch ht), fun _ _ => rfl⟩
  | append_singleton cs c ih =>
    have hbefore : ∀ pre o post, cs = pre ++ .catchUp o :: post →
        (s.run name pre).processor.pendingIds = [] := by
      rintro pre o post rfl
      exact hquiet pre o (post ++ [c]) (by rw [List.append_assoc, List.cons_append])
    rw [belated_append, belated, belated, List.append_nil, run_append]
    cases c with
    | process c =>
      rw [processed_append] at hclock
      obtain ⟨hclock, hnext⟩ := notAfter_learns hclock
      obtain ⟨hnone, hprompt⟩ := ih hclock hbefore
      have hsettled := Processor.settled_run hp (processed cs)
      have hsettled' := Processor.settled_run hp (processed cs ++ [c])
      rw [Processor.learned_append, Processor.learned, Processor.learned, List.append_nil,
        Processor.run_append] at hsettled'
      rw [← processor_run name] at hsettled hsettled' hnext
      have hlogged := envelopes_step name (s.run name cs) (.process c)
      have hplaces := places_step hsettled hsettled' hlogged
      obtain ⟨hahead, hprompt'⟩ := hprompt.log hplaces fun e he =>
        hnext e (hsettled.places.subset (List.mem_append_left _ he))
      refine ⟨?_, ?_⟩
      · rw [hnone, List.nil_append, List.filter_eq_nil_iff]
        intro e he
        rw [hahead e he]
        exact Bool.false_ne_true
      · rw [← hlogged] at hprompt'
        exact hprompt'
    | register a =>
      rw [processed_append, processed, processed, List.append_nil] at hclock
      obtain ⟨hnone, hprompt⟩ := ih hclock hbefore
      have hnothing : (s.run name cs).logs name (.register a) = [] := List.drop_length
      rw [hnothing, hnone]
      exact ⟨rfl, hprompt⟩
    | catchUp o =>
      rw [processed_append, processed, processed, List.append_nil] at hclock
      obtain ⟨hnone, hprompt⟩ := ih hclock hbefore
      have hnothing : (s.run name cs).logs name (.catchUp o) = [] := List.drop_length
      -- nothing waits, so nothing can be left behind the new mark
      have hempty : (s.run name cs).processor.pending.values = [] := by
        rw [Table.values, List.map_eq_nil_iff.mp (hquiet cs o [] rfl), List.map_nil]
      rw [hnothing, hnone]
      refine ⟨rfl, ?_⟩
      show Prompt _ (s.run name cs).processor.journal.envelopes
        (s.run name cs).processor.pending.values
      rw [hempty]
      exact Prompt.move (seen_catchUp hprompt.seen o)

/-! ## The result -/

/-- **A follower misses exactly the belated records.**  Let a new processor work and a new follower
    of its journal catch up now and then, in any order and whatever is out of order.  After a
    catch-up that gets through, the follower has applied all that is journalled, but for the
    envelopes that were journalled behind its checkpoint.  Nothing is journalled behind it if the
    clock does not go back and nothing waits for the journal whenever the follower catches up. -/
theorem catchUp_misses_belated {r r' : Registry} (hp : Processor.Fresh r s.processor)
    (hb : s.follower.book = .ofRegistry r')
    (hs : s.follower.store.find? (checkpointKey name) = none) (cs : List Call) :
    (∀ o report f, (s.run name cs).follower.catchUp o
        (s.run name cs).processor.journal.index name = (.ok report, f) →
      ∀ e ∈ (s.run name cs).processor.journal.envelopes,
        f.book.isApplied e.id = true ↔ e ∉ s.belated name cs) ∧
    ((s.processor.readings (processed cs)).Pairwise (fun s t => s.notAfter t = true) →
      (∀ pre o post, cs = pre ++ .catchUp o :: post →
        (s.run name pre).processor.pendingIds = []) →
      s.belated name cs = []) := by
  refine ⟨?_, fun hclock hquiet => (prompt_run hp hs hclock hquiet).1⟩
  intro o report f hf e he
  obtain ⟨mark, hmark, htakes, -⟩ := Follower.catchUp_of_ok hf
  have hfollows := (tracking_run hp hb hs cs mark (Follower.checkpoint_of_ok hmark)).catchUp
    (nodup_envelopes hp cs) (List.Subset.refl _) htakes
  rw [Book.isApplied, List.contains_eq_mem, decide_eq_true_eq]
  exact hfollows.applied_iff (applied_of_ahead htakes) e he

end Tandem

/-! ## A sample run

  Two transfers, of which the first is journalled when the checkpoint is at the second already. -/

namespace Sample

/-- A new processor and a new follower. -/
def tandem : Tandem := ⟨processor, follower⟩

/-- The first transfer cannot be journalled and the second can; the follower catches up; then what
    waits is journalled. -/
def trailingRun : List Tandem.Call :=
  [.process (.submit diskFull early.knowledgeTime early.transaction early.eventTime),
    .process (.submit .none late.knowledgeTime late.transaction late.eventTime),
    .catchUp .none, .process (.flush .none)]

/-- Both are journalled, and the follower catches up in between. -/
def promptRun : List Tandem.Call :=
  [.process (.submit .none early.knowledgeTime early.transaction early.eventTime),
    .catchUp .none,
    .process (.submit .none late.knowledgeTime late.transaction late.eventTime)]

end Sample

namespace Tandem

/-- The catch-up during the run, and one after it: both get through, and the follower knows the
    second transfer only. -/
theorem catchUp_trailing : ∃ report f,
    (Sample.tandem.run "gl" Sample.trailingRun).follower.catchUp .none
      (Sample.tandem.run "gl" Sample.trailingRun).processor.journal.index "gl" = (.ok report, f) ∧
    f.book.applied = [Sample.secondId] := by
  have hmark : Sample.follower.checkpoint .none "gl" = .ok none := rfl
  have hrecords : Index.replayFromMark ⟨[⟨1, Sample.late⟩]⟩ none = [⟨1, Sample.late⟩] :=
    List.mergeSort_singleton _
  have hfirst := Follower.catchUp_of_replay hmark hrecords rfl rfl
  have hindex : (Sample.processor.run (processed (Sample.trailingRun.take 2))).journal.index
      = ⟨[⟨1, Sample.late⟩]⟩ := by decide
  have hindex' : (Sample.tandem.run "gl" Sample.trailingRun).processor.journal.index
      = ⟨[⟨1, Sample.late⟩, ⟨2, Sample.early⟩]⟩ := by
    rw [processor_run]
    decide
  have hfollower : (Sample.tandem.run "gl" Sample.trailingRun).follower
      = (Sample.follower.catchUp .none
        (Sample.processor.run (processed (Sample.trailingRun.take 2))).journal.index "gl").2 := rfl
  rw [hindex', hfollower, hindex, hfirst]
  have hmark' : ∀ b, Follower.checkpoint .none ⟨b, Sample.follower.store.insert (checkpointKey "gl")
      (checkpointBytes Sample.evening)⟩ "gl" = .ok (some Sample.evening) := by
    intro b
    rw [Follower.checkpoint_of_insert rfl, if_pos (by decide)]
  have hrecords' : Index.replayFromMark ⟨[⟨1, Sample.late⟩, ⟨2, Sample.early⟩]⟩
      (some Sample.evening) = [⟨1, Sample.late⟩] :=
    List.perm_singleton.mp (Index.replayFromMark_perm _ _)
  exact ⟨_, _, Follower.catchUp_of_replay (hmark' _) hrecords' rfl rfl, rfl⟩

/-- The first transfer of the one run is belated; in the other nothing is. -/
theorem catchUp_misses_belated_trailing :
    Sample.early ∈ Sample.tandem.belated "gl" Sample.trailingRun ∧
      Sample.tandem.belated "gl" Sample.promptRun = [] := by
  have hp : Processor.Fresh Sample.registry Sample.tandem.processor :=
    Processor.fresh_start Sample.registry
  have hs : Sample.tandem.follower.store.find? (checkpointKey "gl") = none := rfl
  constructor
  · obtain ⟨report, f, hf, happlied⟩ := catchUp_trailing
    have hlogged : Sample.early ∈
        (Sample.tandem.run "gl" Sample.trailingRun).processor.journal.envelopes := by
      rw [processor_run]
      decide
    have hiff := (catchUp_misses_belated hp rfl hs Sample.trailingRun).1 _ _ _ hf _ hlogged
    by_contra hnot
    have hknown := hiff.mpr hnot
    rw [Book.isApplied, happlied] at hknown
    exact absurd hknown (by decide)
  · refine (catchUp_misses_belated hp rfl hs Sample.promptRun).2 (by decide) ?_
    intro pre o post hpre
    -- the only catch-up comes after the first call
    rcases pre with _ | ⟨c, _ | ⟨d, pre⟩⟩
    · obtain ⟨⟨⟩, -⟩ := List.cons.inj hpre
    · obtain ⟨rfl, -⟩ := List.cons.inj hpre
      rw [processor_run]
      decide
    · obtain ⟨-, hpre⟩ := List.cons.inj hpre
      obtain ⟨-, hpre⟩ := List.cons.inj hpre
      rcases pre with _ | ⟨c', pre⟩
      · obtain ⟨⟨⟩, -⟩ := List.cons.inj hpre
      · exact absurd (List.cons.inj hpre).2.symm (List.append_ne_nil_of_right_ne_nil _
          (List.cons_ne_nil _ _))

/-- **A record that is missed**: the clock never goes back, the catch-up gets through, and yet the
    follower has not applied all that is journalled. -/
theorem early_missed :
    (Sample.tandem.processor.readings (processed Sample.trailingRun)).Pairwise
        (fun s t => s.notAfter t = true) ∧
      ∃ report f, (Sample.tandem.run "gl" Sample.trailingRun).follower.catchUp .none
          (Sample.tandem.run "gl" Sample.trailingRun).processor.journal.index "gl"
            = (.ok report, f) ∧
        Sample.early ∈ (Sample.tandem.run "gl" Sample.trailingRun).processor.journal.envelopes ∧
        f.book.isApplied Sample.early.id = false := by
  refine ⟨by decide, ?_⟩
  obtain ⟨report, f, hf, happlied⟩ := catchUp_trailing
  refine ⟨report, f, hf, ?_, ?_⟩
  · rw [processor_run]
    decide
  · rw [Book.isApplied, happlied]
    decide

end Tandem
end Subledger
