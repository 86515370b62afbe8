/-
  BITEMPORAL REPLAY: the book as it was, made again from the journal.

  What is journalled late stands late in the journal, but it carries the time at which it was
  learned, and replay goes by that time.  So once everything is journalled, the journal tells the
  whole past: what the book was at any moment can be made again from what was known by then.

  1. **Replaying a history** (`rebuildFrom_eq_ok`) — a rebuild leads where applying the transactions
     one after the other leads.
  2. **Cutting a history** (`filter_knownAt`) — what is known between two readings of the clock is
     what was learned up to the first of them.
  3. **The result** (`rebuildAsOf_eq_live`) — the two put together, with the facts that nothing is
     lost (`Processor.settled_run`), that replay restores the order (`Index.replay_eq_of_strict`) and
     that a history can be applied again (`Book.appliesAll_accepted`).
-/
import Subledger.Replay
import Subledger.Proofs.Ledger.History
import Subledger.Proofs.Processor.Run

namespace Subledger

/-! ## Replaying a history -/

/-- Records that can all be applied are replayed without an error. -/
theorem replayFrom_eq_ok {b b' : Book} {rs : List Record}
    (h : b.AppliesAll (rs.map fun r => r.envelope.transaction) b') (report : ReplayReport) :
    ∃ report', replayFrom report b rs = (.ok report', b') := by
  induction rs generalizing b report with
  | nil =>
    obtain rfl := h
    exact ⟨report, rfl⟩
  | cons r rs ih =>
    obtain ⟨m, hexec, hrest⟩ := h
    rw [replayFrom, hexec]
    exact ih hrest (report.add r .applied)

/-- A rebuild leads where the transactions of the records lead. -/
theorem rebuildFrom_eq_ok {R : Registry} {b : Book} {rs : List Record}
    (h : (Book.ofRegistry R).AppliesAll (rs.map fun r => r.envelope.transaction) b) :
    ∃ report, rebuildFrom R rs = .ok (report, b) := by
  obtain ⟨report, hreplay⟩ := replayFrom_eq_ok h .empty
  refine ⟨report, ?_⟩
  rw [rebuildFrom, replayInto, hreplay]

/-! ## Cutting a history -/

/-- In strictly increasing instants none is after the last. -/
theorem notAfter_getLast {ts : List Instant} {t s : Instant}
    (hstrict : ts.Pairwise fun s t => s.isBefore t = true) (ht : ts.getLast? = some t)
    (hs : s ∈ ts) : s.notAfter t = true := by
  obtain ⟨before, rfl⟩ := List.getLast?_eq_some_iff.mp ht
  rcases List.mem_append.mp hs with hbefore | hlast
  · exact Instant.notAfter_of_isBefore
      ((List.pairwise_append.mp hstrict).2.2 s hbefore t List.mem_cons_self)
  · rw [List.mem_singleton.mp hlast]
    exact Instant.notAfter_refl t

/-- In strictly increasing instants what is before the first is before all. -/
theorem isBefore_of_head {ts : List Instant} {t s : Instant}
    (hstrict : ts.Pairwise fun s t => s.isBefore t = true)
    (ht : ∀ next, ts.head? = some next → t.isBefore next = true) (hs : s ∈ ts) :
    t.isBefore s = true := by
  cases ts with
  | nil => exact absurd hs List.not_mem_nil
  | cons next later =>
    have hnext := ht next rfl
    rcases List.mem_cons.mp hs with rfl | hlater
    · exact hnext
    · exact Instant.isBefore_of_notAfter_of_isBefore (Instant.notAfter_of_isBefore hnext)
        ((List.pairwise_cons.mp hstrict).1 s hlater)

/-- What is known between two readings of the clock is what was learned up to the first. -/
theorem filter_knownAt {before after : List Envelope} {t t' : Instant}
    (hstrict : ((before ++ after).map Envelope.knowledgeTime).Pairwise
      fun s t => s.isBefore t = true)
    (ht : (before.map Envelope.knowledgeTime).getLast? = some t) (hfrom : t.notAfter t' = true)
    (huntil : ∀ next, (after.map Envelope.knowledgeTime).head? = some next →
      t'.isBefore next = true) :
    (before ++ after).filter (fun e => e.knownAt t') = before := by
  rw [List.map_append, List.pairwise_append] at hstrict
  have hknown : ∀ e ∈ before, e.knownAt t' = true := by
    intro e he
    exact Instant.notAfter_trans
      (notAfter_getLast hstrict.1 ht (List.mem_map_of_mem he)) hfrom
  have hunknown : ∀ e ∈ after, ¬ e.knownAt t' = true := by
    intro e he
    exact Instant.isBefore_iff.mp
      (isBefore_of_head hstrict.2.1 huntil (List.mem_map_of_mem he))
  rw [List.filter_append, List.filter_eq_self.mpr hknown, List.filter_eq_nil_iff.mpr hunknown,
    List.append_nil]

/-! ## The past made again -/

namespace Processor

/-- What a run learned can be replayed in a new book with all its accounts. -/
theorem appliesAll_learned {r : Registry} {p : Processor} (h : Fresh r p) (cs : List Call)
    {R : Registry} (hR : R.Extends (p.run cs).book.registry) :
    (Book.ofRegistry R).AppliesAll ((p.learned cs).map Envelope.transaction)
      ((p.run cs).book.withRegistry R) := by
  rw [book_run] at hR ⊢
  have happlies := Book.appliesAll_accepted p.book _ hR
  rw [accepted_book] at happlies
  rw [h.book] at happlies ⊢
  exact happlies

/-- Once nothing waits, replay lists what was learned in the order in which it was learned. -/
theorem replay_eq_learned {r : Registry} {p : Processor} (h : Fresh r p) {cs : List Call}
    (hstrict : (p.readings cs).Pairwise fun s t => s.isBefore t = true)
    (hpending : (p.run cs).pendingIds = []) :
    (p.run cs).journal.index.replay.map Record.envelope = p.learned cs := by
  refine Index.replay_eq_of_strict ?_ hstrict
  have hempty : (p.run cs).pending.values = [] := by
    rw [Table.values, List.map_eq_nil_iff.mp hpending, List.map_nil]
  exact (settled_run h cs).logged_perm hempty

/-- Once nothing waits, the whole journal leads to the book as it is. -/
theorem rebuild_run {r : Registry} {p : Processor} (h : Fresh r p) {cs : List Call}
    (hstrict : (p.readings cs).Pairwise fun s t => s.isBefore t = true)
    (hpending : (p.run cs).pendingIds = []) :
    ∃ report, rebuild (p.run cs).book.registry (p.run cs).journal.index
      = .ok (report, (p.run cs).book) := by
  have happlies := appliesAll_learned h cs (Registry.Extends.refl _)
  rw [← replay_eq_learned h hstrict hpending, List.map_map] at happlies
  exact rebuildFrom_eq_ok happlies

/-- **Bitemporal replay is exact.**  Take a run of a new processor in which the clock never shows
    one instant twice nor goes back, and after which nothing waits for the journal.  For any moment
    between two calls, let `t` be the last reading of the clock up to then, and `t'` any instant
    from `t` on and before the next reading.  What was known at `t'` leads, with the accounts that
    there are in the end, exactly to the book as it was at that moment; and the whole journal
    leads to the book as it is in the end. -/
theorem rebuildAsOf_eq_live {r : Registry} {p : Processor} (h : Fresh r p) {cs : List Call}
    (hstrict : (p.readings cs).Pairwise fun s t => s.isBefore t = true)
    (hpending : (p.run cs).pendingIds = []) :
    (∀ pre post, pre ++ post = cs → ∀ t t', (p.readings pre).getLast? = some t →
      t.notAfter t' = true →
      (∀ next, ((p.run pre).readings post).head? = some next → t'.isBefore next = true) →
      ∃ report b,
        rebuildAsOf (p.run cs).book.registry (p.run cs).journal.index t' = .ok (report, b) ∧
        b.snapshot = (p.run pre).book.snapshot ∧
        b = (p.run pre).book.withRegistry (p.run cs).book.registry) ∧
    ∃ report, rebuild (p.run cs).book.registry (p.run cs).journal.index
      = .ok (report, (p.run cs).book) := by
  have hreplay := replay_eq_learned h hstrict hpending
  constructor
  · rintro pre post rfl t t' ht hfrom huntil
    have hgrows : (p.run (pre ++ post)).book.registry.Extends (p.run pre).book.registry := by
      rw [run_append, book_run]
      exact Book.extends_run _ _
    have hknown : ((p.run (pre ++ post)).journal.index.replayAsOf t').map Record.envelope
        = p.learned pre := by
      -- to cut the records by what is known is to cut the history
      show (((p.run (pre ++ post)).journal.index.replay.filter
        ((fun e => e.knownAt t') ∘ Record.envelope)).map Record.envelope) = _
      rw [← List.filter_map, hreplay, learned_append]
      rw [readings, learned_append] at hstrict
      exact filter_knownAt hstrict ht hfrom huntil
    have happlies := appliesAll_learned h pre hgrows
    rw [← hknown, List.map_map] at happlies
    obtain ⟨report, hrebuild⟩ := rebuildFrom_eq_ok happlies
    exact ⟨report, _, hrebuild, rfl, rfl⟩
  · exact rebuild_run h hstrict hpending

/-- The journal has the two transactions in the wrong order; in the afternoon only the first was
    known. -/
theorem rebuildAsOf_eq_live_belated :
    (Sample.processor.run Sample.belatedRun).journal.envelopes.map Envelope.id
        = [Sample.secondId, Sample.firstId] ∧
      ∃ report b, rebuildAsOf (Sample.processor.run Sample.belatedRun).book.registry
          (Sample.processor.run Sample.belatedRun).journal.index Sample.afternoon
            = .ok (report, b) ∧
        b.snapshot = (Sample.processor.run (Sample.belatedRun.take 2)).book.snapshot ∧
        b.applied = [Sample.firstId] := by
  have hstrict : (Sample.processor.readings Sample.belatedRun).Pairwise
      fun s t => s.isBefore t = true := by decide
  have hpending : (Sample.processor.run Sample.belatedRun).pendingIds = [] := by decide
  have huntil : ∀ next, ((Sample.processor.run (Sample.belatedRun.take 2)).readings
      (Sample.belatedRun.drop 2)).head? = some next → Sample.afternoon.isBefore next = true := by
    intro next hnext
    have hevening : ((Sample.processor.run (Sample.belatedRun.take 2)).readings
        (Sample.belatedRun.drop 2)).head? = some Sample.evening := by decide
    rw [← Option.some.inj (hevening.symm.trans hnext)]
    decide
  have hlive := (rebuildAsOf_eq_live (fresh_start Sample.registry) hstrict hpending).1
    (Sample.belatedRun.take 2) (Sample.belatedRun.drop 2) rfl Sample.noon Sample.afternoon
    (by decide) (by decide) huntil
  obtain ⟨report, b, hrebuild, hsnapshot, hb⟩ := hlive
  have happlied : (Sample.processor.run (Sample.belatedRun.take 2)).book.applied
      = [Sample.firstId] := by decide
  exact ⟨by decide, report, b, hrebuild, hsnapshot, by rw [hb]; exact happlied⟩

end Processor
end Subledger
