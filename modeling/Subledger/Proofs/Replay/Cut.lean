/-
  HISTORY CUT AT AN INSTANT: what was known by then, and what was learned since.

  Replay goes by the time at which things became known, so an instant cuts it into what is before,
  at and after that instant.  What was known at it are the first two parts, and what was learned
  since are the last two; what they share has been applied when it is met again.

  1. **The cut** (`Index.replay_cut`) — a list in order falls into the part that a downward closed
     property takes and the rest (`filter_append_filter_not`), and that twice.
  2. **The two halves** (`replayInto_overlap`) — to replay a history as far as some point and then
     once more from an earlier one on comes to replaying it at once.
  3. **What comes later** (`Journal.replayAsOf_appendUnder`) — an addition that became known later
     leaves what was known as it was.
-/
import Subledger.Proofs.Journal.Forgetting
import Subledger.Proofs.Replay.Incremental
import Subledger.Proofs.Replay.Repetition

namespace Subledger

/-! ## The cut -/

/-- If an element that `p` takes is behind no element that it refuses, `p` takes a front part. -/
theorem filter_append_filter_not {α : Type} {p : α → Bool} {l : List α}
    (h : l.Pairwise fun a b => p b = true → p a = true) :
    l.filter p ++ l.filter (fun a => !p a) = l := by
  induction l with
  | nil => rfl
  | cons a l ih =>
    obtain ⟨ha, hrest⟩ := List.pairwise_cons.mp h
    cases hp : p a with
    | true => simp [hp, ih hrest]
    | false =>
      have hnone : ∀ b ∈ l, p b = false := by
        intro b hb
        rw [Bool.eq_false_iff]
        intro hpb
        rw [ha b hb hpb] at hp
        cases hp
      have hfront : l.filter p = [] := by simpa using hnone
      have hback : l.filter (fun a => !p a) = l := by simpa using hnone
      simp [hp, hfront, hback]

namespace Index

/-- **An instant cuts the replay** into what became known before it, at it and after it. -/
theorem replay_cut (x : Index) (t : Instant) : ∃ earlier now later,
    x.replay = earlier ++ now ++ later ∧
    x.replayAsOf t = earlier ++ now ∧ x.replaySince t = now ++ later ∧
    (∀ r ∈ earlier, r.knowledgeTime.isBefore t = true) ∧ (∀ r ∈ now, r.knowledgeTime = t) ∧
    ∀ r ∈ later, t.isBefore r.knowledgeTime = true := by
  have hordered : x.replay.Pairwise fun a b =>
      a.knowledgeTime.notAfter b.knowledgeTime = true :=
    x.pairwise_replay.imp fun hab => (Record.replaysBefore_iff.mp hab).1
  let known := x.replayAsOf t
  let later := x.replay.filter fun r => !r.envelope.knownAt t
  let earlier := known.filter fun r => r.knowledgeTime.isBefore t
  let now := known.filter fun r => !r.knowledgeTime.isBefore t
  have hknown : known ++ later = x.replay :=
    filter_append_filter_not (hordered.imp fun hab hb => Instant.notAfter_trans hab hb)
  have hsplit : earlier ++ now = known :=
    filter_append_filter_not ((hordered.filter _).imp
      fun hab hb => Instant.isBefore_of_notAfter_of_isBefore hab hb)
  have hlater : ∀ r ∈ later, t.isBefore r.knowledgeTime = true := by
    intro r hr
    obtain ⟨-, hunknown⟩ := List.mem_filter.mp hr
    simpa [Record.knowledgeTime, Envelope.knownAt, Instant.notAfter] using hunknown
  have hsince : x.replaySince t = now ++ later := by
    show x.replay.filter (fun r => !r.knowledgeTime.isBefore t) = now ++ later
    rw [← hknown, List.filter_append, List.append_cancel_left_eq, List.filter_eq_self]
    intro r hr
    exact Instant.notAfter_of_isBefore (hlater r hr)
  refine ⟨earlier, now, later, ?_, hsplit.symm, hsince, ?_, ?_, hlater⟩
  · rw [hsplit, hknown]
  · intro r hr
    exact (List.mem_filter.mp hr).2
  · intro r hr
    obtain ⟨hmem, hnot⟩ := List.mem_filter.mp hr
    exact Instant.eq_of_notAfter (List.mem_filter.mp hmem).2 hnot

end Index

/-! ## The two halves -/

/-- A replay can be interrupted and go on from an earlier record: what is replayed twice is passed
    over the second time. -/
theorem replayInto_overlap {b b' : Book} {earlier now later : List Record} {report : ReplayReport}
    (h : replayInto b (earlier ++ now ++ later) = (.ok report, b')) :
    ∃ first m second, replayInto b (earlier ++ now) = (.ok first, m) ∧
      replayInto m (now ++ later) = (.ok second, b') ∧
      first.applied + second.applied = report.applied := by
  have htakes := replayInto_eq_ok_iff.mp ⟨report, h⟩
  rw [List.map_append] at htakes
  obtain ⟨m, hfront, hback⟩ := Book.takes_append.mp htakes
  obtain ⟨first, hfirst⟩ := replayInto_eq_ok_iff.mpr hfront
  -- what is replayed twice is known the second time
  have hagain : m.Takes (now.map Record.transaction) m := by
    refine .of_known (List.forall_mem_map.mpr fun r hr => ?_)
    rw [(ReplayReport.Reports.of_replayInto hfirst).mem_applied]
    exact Or.inr (List.mem_map_of_mem (List.mem_append_right earlier hr))
  have hon : m.Takes ((now ++ later).map Record.transaction) b' := by
    rw [List.map_append]
    exact Book.takes_append.mpr ⟨m, hagain, hback⟩
  obtain ⟨second, hsecond⟩ := replayInto_eq_ok_iff.mpr hon
  refine ⟨first, m, second, hfirst, hsecond, ?_⟩
  -- each report counts the names that came to its book
  obtain ⟨new, hb', -, -, hcount⟩ := (ReplayReport.Reports.of_replayInto h).exists_new
  obtain ⟨old, hm, -, -, hold⟩ := (ReplayReport.Reports.of_replayInto hfirst).exists_new
  obtain ⟨rest, hrest, -, -, hmore⟩ := (ReplayReport.Reports.of_replayInto hsecond).exists_new
  have hlength := congrArg List.length hb'
  rw [hrest, hm, List.length_append, List.length_append, List.length_append] at hlength
  omega

/-! ## What comes later -/

/-- What is put into a journal and became known after `t` was not known at `t`. -/
theorem Index.replayAsOf_push {x : Index} {t : Instant} {r : Record}
    (h : t.isBefore r.knowledgeTime = true) : (x.push r).replayAsOf t = x.replayAsOf t := by
  have hunknown : [r].filter (fun r => r.envelope.knownAt t) = [] :=
    List.filter_cons_of_neg (Instant.isBefore_iff.mp h)
  rw [← replayAsOf_known (x.push r), ← replayAsOf_known x, push, List.filter_append, hunknown,
    List.append_nil]

/-- An addition that becomes known later does not change what was known. -/
theorem Journal.replayAsOf_appendUnder {j : Journal} {t : Instant} {e : Envelope}
    (h : t.isBefore e.knowledgeTime = true) (outage : Option IoFailure) :
    (j.appendUnder outage e).2.index.replayAsOf t = j.index.replayAsOf t := by
  cases outage with
  | some cause => rfl
  | none =>
    show (j.append e).2.index.replayAsOf t = _
    rcases j.index_append e with hsame | ⟨-, hpushed⟩
    · rw [hsame]
    · rw [hpushed]
      exact Index.replayAsOf_push h

/-- **History can be cut at any instant.**  What a journal knew at `t` is a front part of its replay
    and what it learned since `t` a back part; together they are the whole, and they share just what
    became known at `t`.  If the journal can be rebuilt, it can be rebuilt as of `t`, and what it
    learned since leads from there to the same book, the two passes together applying as much.  And
    what it is given later does not change what it knew. -/
theorem history_cut (R : Registry) (j : Journal) (t : Instant) :
    (∃ earlier now later, j.index.replay = earlier ++ now ++ later ∧
      j.index.replayAsOf t = earlier ++ now ∧ j.index.replaySince t = now ++ later ∧
      (∀ r ∈ earlier, r.knowledgeTime.isBefore t = true) ∧ (∀ r ∈ now, r.knowledgeTime = t) ∧
      ∀ r ∈ later, t.isBefore r.knowledgeTime = true) ∧
    (∀ report b, rebuild R j.index = .ok (report, b) →
      ∃ known m since, rebuildAsOf R j.index t = .ok (known, m) ∧
        replayInto m (j.index.replaySince t) = (.ok since, b) ∧
        known.applied + since.applied = report.applied) ∧
    ∀ e, t.isBefore e.knowledgeTime = true → ∀ outage,
      rebuildAsOf R (j.appendUnder outage e).2.index t = rebuildAsOf R j.index t := by
  refine ⟨j.index.replay_cut t, ?_, ?_⟩
  · intro report b hrebuild
    obtain ⟨earlier, now, later, hreplay, hknown, hsince, -⟩ := j.index.replay_cut t
    rw [rebuild, rebuildFrom_eq_ok_iff, hreplay] at hrebuild
    obtain ⟨known, m, since, hfirst, hsecond, hcount⟩ := replayInto_overlap hrebuild
    refine ⟨known, m, since, ?_, by rw [hsince, hsecond], hcount⟩
    rw [rebuildAsOf, rebuildFrom_eq_ok_iff, hknown, hfirst]
  · intro e he outage
    rw [rebuildAsOf, rebuildAsOf, Journal.replayAsOf_appendUnder he]

/-- The journal has the evening's transactions before the transfer of noon.  Cut at noon, that
    transfer is replayed in both passes and applied in the first. -/
theorem history_cut_belated : ∃ report known m since,
    rebuild (Sample.processor.run Sample.belatedRun).book.registry
        (Sample.processor.run Sample.belatedRun).journal.index
      = .ok (report, (Sample.processor.run Sample.belatedRun).book) ∧
    rebuildAsOf (Sample.processor.run Sample.belatedRun).book.registry
        (Sample.processor.run Sample.belatedRun).journal.index Sample.noon = .ok (known, m) ∧
    replayInto m ((Sample.processor.run Sample.belatedRun).journal.index.replaySince
        Sample.noon) = (.ok since, (Sample.processor.run Sample.belatedRun).book) ∧
    known.applied + since.applied = report.applied := by
  obtain ⟨report, hrebuild⟩ := Processor.rebuild_run (Processor.fresh_start Sample.registry)
    (show (Sample.processor.readings Sample.belatedRun).Pairwise fun s t => s.isBefore t = true by
      decide)
    (show (Sample.processor.run Sample.belatedRun).pendingIds = [] by decide)
  obtain ⟨known, m, since, hthen, hlater, hcount⟩ :=
    (history_cut _ (Sample.processor.run Sample.belatedRun).journal Sample.noon).2.1
      report _ hrebuild
  exact ⟨report, known, m, since, hrebuild, hthen, hlater, hcount⟩

end Subledger
