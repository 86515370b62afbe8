/-
  THE JOURNAL AS A LIST OF ENVELOPES: what an addition does, and in which order replay goes.

  1. **Additions** (`append_cases`) — an addition puts its envelope at the end under a number one
     more than that of the last record, or finds the transaction journalled already, or fails; in
     the last two cases the records are what they were.  Everything else about additions is read off
     this.
  2. **The order** — `Record.replaysBefore` is a total order in which the knowledge time counts
     first (`replaysBefore_iff`), so replay lists the records in the order of their knowledge
     times.
  3. **The bridge** (`replay_eq_of_strict`) — if no two envelopes became known at one instant, the
     order of adding does not matter: replay lists them in the order in which they became known.
  4. **Orderly journals** (`Orderly`) — additions number the records upwards and put no transaction
     there twice; if they also come in the order in which things became known, replay goes by the
     order of adding (`Orderly.replay_eq`).
-/
import Subledger.Journal.Basic
import Mathlib

namespace Subledger

/-! ## Instants

  The order of instants as the replay uses it, strict and not. -/

namespace Instant

theorem notAfter_refl (t : Instant) : t.notAfter t = true := (notAfter_total t t).elim id id

/-- Before means not after the other way round. -/
theorem isBefore_iff {s t : Instant} : s.isBefore t = true ↔ ¬ t.notAfter s = true := by
  rw [notAfter, Bool.not_eq_true', Bool.not_eq_false]

theorem notAfter_of_isBefore {s t : Instant} (h : s.isBefore t = true) : s.notAfter t = true :=
  (notAfter_total s t).resolve_right (isBefore_iff.mp h)

theorem isBefore_of_notAfter_of_isBefore {s t u : Instant} (hst : s.notAfter t = true)
    (htu : t.isBefore u = true) : s.isBefore u = true := by
  rw [isBefore_iff] at htu ⊢
  intro hus
  exact htu (notAfter_trans hus hst)

/-- A strict step and a weak one make a strict one. -/
theorem isBefore_of_isBefore_of_notAfter {s t u : Instant} (hst : s.isBefore t = true)
    (htu : t.notAfter u = true) : s.isBefore u = true := by
  rw [isBefore_iff] at hst ⊢
  intro hus
  exact hst (notAfter_trans htu hus)

end Instant

/-! ## Additions

  All that an addition can do is listed once, for an index and for a journal; what later proofs say
  about additions is derived from the list. -/

namespace Index

/-- The envelopes of the records, in the order of adding. -/
def envelopes (x : Index) : List Envelope := x.records.map Record.envelope

/-- A name has no number exactly if it is not in the journal. -/
theorem sequenceOf?_eq_none_iff {x : Index} {id : TransactionId} :
    x.sequenceOf? id = none ↔ id ∉ x.envelopes.map Envelope.id := by
  rw [sequenceOf?, Option.map_eq_none_iff, List.find?_eq_none, envelopes, List.map_map]
  constructor
  · intro h hmem
    obtain ⟨r, hr, hid⟩ := List.mem_map.mp hmem
    exact h r hr (beq_iff_eq.mpr hid)
  · intro h r hr hid
    exact h (List.mem_map.mpr ⟨r, hr, beq_iff_eq.mp hid⟩)

/-- A number that a journal has for a name is that of one of its records. -/
theorem exists_of_sequenceOf? {x : Index} {id : TransactionId} {n : Nat}
    (h : x.sequenceOf? id = some n) : ∃ r ∈ x.records, r.id = id ∧ r.sequence = n := by
  obtain ⟨r, hr, hn⟩ := Option.map_eq_some_iff.mp h
  have hid := List.find?_some hr
  exact ⟨r, List.mem_of_find?_eq_some hr, beq_iff_eq.mp hid, hn⟩

/-- Records that are added behind do not change the number of a name. -/
theorem sequenceOf?_of_append {x y : Index} {id : TransactionId} {n : Nat} {rs : List Record}
    (hy : y.records = x.records ++ rs) (h : x.sequenceOf? id = some n) :
    y.sequenceOf? id = some n := by
  obtain ⟨r, hr, hn⟩ := Option.map_eq_some_iff.mp h
  rw [sequenceOf?, hy, List.find?_append, hr]
  exact congrArg some hn

/-- What is pushed under a new name has the number that it was pushed with. -/
theorem sequenceOf?_push {x : Index} {e : Envelope} {n : Nat} (h : x.sequenceOf? e.id = none) :
    (x.push ⟨n, e⟩).sequenceOf? e.id = some n := by
  have hfound : (Record.mk n e).id = e.id := rfl
  rw [sequenceOf?, Option.map_eq_none_iff] at h
  rw [sequenceOf?, push, List.find?_append, h]
  simp [hfound]

/-- The name of an envelope is found, or the envelope is pushed under the next number, or there is no
    number left for it. -/
theorem append_cases (x : Index) (e : Envelope) :
    (∃ n, x.sequenceOf? e.id = some n ∧ x.append e = .ok (.duplicate n, x)) ∨
    (x.sequenceOf? e.id = none ∧ x.nextSequence ≤ Json.Number.maxNatural ∧
      x.append e = .ok (.appended x.nextSequence, x.push ⟨x.nextSequence, e⟩)) ∨
    (x.sequenceOf? e.id = none ∧ Json.Number.maxNatural < x.nextSequence ∧
      x.append e = .error .noNumberLeft) := by
  cases hseq : x.sequenceOf? e.id with
  | some n => exact Or.inl ⟨n, rfl, by rw [append, hseq]⟩
  | none =>
    rw [append, hseq]
    rcases Nat.lt_or_ge Json.Number.maxNatural x.nextSequence with hfull | hroom
    · exact Or.inr (Or.inr ⟨rfl, hfull, if_neg hfull.not_ge⟩)
    · exact Or.inr (Or.inl ⟨rfl, hroom, if_pos hroom⟩)

/-- One envelope more, at the end. -/
theorem envelopes_push (x : Index) (n : Nat) (e : Envelope) :
    (x.push ⟨n, e⟩).envelopes = x.envelopes ++ [e] := by
  rw [push, envelopes, envelopes, List.map_append]
  rfl

end Index

namespace Journal

/-- The envelopes of a journal, in the order of adding. -/
def envelopes (j : Journal) : List Envelope := j.index.envelopes

/-- **What an addition can do**: it pushes a new envelope under the next number, or finds its name,
    or fails and leaves the records alone. -/
theorem append_cases (j : Journal) (e : Envelope) :
    (∃ j', j.append e = (.ok (.appended j.index.nextSequence), j') ∧
      j.index.sequenceOf? e.id = none ∧ j'.index = j.index.push ⟨j.index.nextSequence, e⟩) ∨
    (∃ n, j.append e = (.ok (.duplicate n), j) ∧ j.index.sequenceOf? e.id = some n) ∨
    ∃ cause j', j.append e = (.error cause, j') ∧ j'.index = j.index := by
  rcases j.index.append_cases e with ⟨n, hseq, hx⟩ | ⟨hseq, -, hx⟩ | ⟨-, -, hx⟩
  · exact Or.inr (Or.inl ⟨n, by rw [append, hx], hseq⟩)
  · rw [append, hx]
    cases j.medium with
    | memory => exact Or.inl ⟨_, rfl, hseq, rfl⟩
    | file f =>
      dsimp only
      rcases f.append (Record.line ⟨j.index.nextSequence, e⟩) with ⟨cause | _, f'⟩
      · exact Or.inr (Or.inr ⟨.io cause, _, rfl, rfl⟩)
      · exact Or.inl ⟨_, rfl, hseq, rfl⟩
  · exact Or.inr (Or.inr ⟨.io .noNumberLeft, j, by rw [append, hx], rfl⟩)

/-- An outage only adds one way to fail. -/
theorem appendUnder_index (outage : Option IoFailure) (j : Journal) (e : Envelope) :
    (∃ j', j.appendUnder outage e = (.ok (.appended j.index.nextSequence), j') ∧
      j.index.sequenceOf? e.id = none ∧ j'.index = j.index.push ⟨j.index.nextSequence, e⟩) ∨
    (∃ n, j.appendUnder outage e = (.ok (.duplicate n), j) ∧
      j.index.sequenceOf? e.id = some n) ∨
    ∃ cause j', j.appendUnder outage e = (.error cause, j') ∧ j'.index = j.index := by
  cases outage with
  | none => exact j.append_cases e
  | some cause => exact Or.inr (Or.inr ⟨.io cause, j, rfl, rfl⟩)

/-- An addition puts the envelope at the end, finds its transaction there, or fails. -/
theorem appendUnder_cases (outage : Option IoFailure) (j : Journal) (e : Envelope) :
    (∃ n j', j.appendUnder outage e = (.ok (.appended n), j') ∧
      e.id ∉ j.envelopes.map Envelope.id ∧ j'.envelopes = j.envelopes ++ [e]) ∨
    (∃ n, j.appendUnder outage e = (.ok (.duplicate n), j) ∧
      e.id ∈ j.envelopes.map Envelope.id) ∨
    ∃ cause j', j.appendUnder outage e = (.error cause, j') ∧ j'.envelopes = j.envelopes := by
  rcases j.appendUnder_index outage e with
    ⟨j', hj', hseq, hpushed⟩ | ⟨n, hj', hseq⟩ | ⟨cause, j', hj', hsame⟩
  · refine Or.inl ⟨_, j', hj', Index.sequenceOf?_eq_none_iff.mp hseq, ?_⟩
    rw [envelopes, hpushed, Index.envelopes_push, envelopes]
  · refine Or.inr (Or.inl ⟨n, hj', ?_⟩)
    by_contra hnew
    exact Option.some_ne_none n (hseq.symm.trans (Index.sequenceOf?_eq_none_iff.mpr hnew))
  · exact Or.inr (Or.inr ⟨cause, j', hj', congrArg Index.envelopes hsame⟩)

/-- A new envelope is journalled under the next number, or the journal holds what it held. -/
theorem appendUnder_of_new {j : Journal} {e : Envelope}
    (hnew : e.id ∉ j.envelopes.map Envelope.id) (outage : Option IoFailure) :
    (∃ j', j.appendUnder outage e = (.ok (.appended j.index.nextSequence), j') ∧
      j'.index = j.index.push ⟨j.index.nextSequence, e⟩) ∨
    ∃ cause j', j.appendUnder outage e = (.error cause, j') ∧ j'.index = j.index := by
  rcases j.appendUnder_index outage e with ⟨j', hj', -, hpushed⟩ | ⟨n, -, hseq⟩ | hfails
  · exact Or.inl ⟨j', hj', hpushed⟩
  · rw [Index.sequenceOf?_eq_none_iff.mpr hnew] at hseq
    exact nomatch hseq
  · exact Or.inr hfails

/-- An addition leaves the records alone, or pushes a new envelope under the next number. -/
theorem index_append (j : Journal) (e : Envelope) :
    (j.append e).2.index = j.index ∨ (j.index.sequenceOf? e.id = none ∧
      (j.append e).2.index = j.index.push ⟨j.index.nextSequence, e⟩) := by
  rcases j.append_cases e with ⟨j', hj', hseq, hpushed⟩ | ⟨n, hj', -⟩ | ⟨cause, j', hj', hsame⟩
  all_goals rw [hj']
  · exact Or.inr ⟨hseq, hpushed⟩
  · exact Or.inl rfl
  · exact Or.inl hsame

/-- A file that is changed from outside does not change what the journal holds. -/
theorem index_mapFile (j : Journal) (change : JournalFile → JournalFile) :
    (j.mapFile change).index = j.index := by
  unfold mapFile
  cases j.medium <;> rfl

end Journal

/-! ## The order of replay

  By the time at which they became known, and by number among equal times.  It is total and
  transitive, so the sort has what it needs. -/

namespace Record

/-- The order, without the nesting of its definition. -/
theorem replaysBefore_iff {a b : Record} : a.replaysBefore b = true ↔
    a.knowledgeTime.notAfter b.knowledgeTime = true ∧
      (a.knowledgeTime = b.knowledgeTime → a.sequence ≤ b.sequence) := by
  rw [replaysBefore, Bool.or_eq_true, Bool.and_eq_true, beq_iff_eq, decide_eq_true_eq]
  constructor
  · rintro (hbefore | ⟨htime, hseq⟩)
    · refine ⟨Instant.notAfter_of_isBefore hbefore, ?_⟩
      intro htime
      rw [htime] at hbefore
      exact absurd (Instant.notAfter_refl _) (Instant.isBefore_iff.mp hbefore)
    · exact ⟨by rw [htime]; exact Instant.notAfter_refl _, fun _ => hseq⟩
  · rintro ⟨hnot, hseq⟩
    by_cases htime : a.knowledgeTime = b.knowledgeTime
    · exact Or.inr ⟨htime, hseq htime⟩
    · refine Or.inl (Instant.isBefore_iff.mpr ?_)
      intro hback
      exact htime (Instant.eq_of_notAfter hnot hback)

/-- Records that are in order pairwise are in order. -/
theorem replaysBefore_trans (a b c : Record) (hab : a.replaysBefore b = true)
    (hbc : b.replaysBefore c = true) : a.replaysBefore c = true := by
  obtain ⟨hab, hseqab⟩ := replaysBefore_iff.mp hab
  obtain ⟨hbc, hseqbc⟩ := replaysBefore_iff.mp hbc
  refine replaysBefore_iff.mpr ⟨Instant.notAfter_trans hab hbc, ?_⟩
  intro hac
  have heq : a.knowledgeTime = b.knowledgeTime := Instant.eq_of_notAfter hab (hac ▸ hbc)
  exact (hseqab heq).trans (hseqbc (heq.symm.trans hac))

/-- Of two records one may be replayed first. -/
theorem replaysBefore_total (a b : Record) : (a.replaysBefore b || b.replaysBefore a) = true := by
  rw [Bool.or_eq_true, replaysBefore_iff, replaysBefore_iff]
  by_cases htime : a.knowledgeTime = b.knowledgeTime
  · rcases Nat.le_total a.sequence b.sequence with hseq | hseq
    · exact Or.inl ⟨by rw [htime]; exact Instant.notAfter_refl _, fun _ => hseq⟩
    · exact Or.inr ⟨by rw [htime]; exact Instant.notAfter_refl _, fun _ => hseq⟩
  · rcases Instant.notAfter_total a.knowledgeTime b.knowledgeTime with hnot | hnot
    · exact Or.inl ⟨hnot, fun h => absurd h htime⟩
    · exact Or.inr ⟨hnot, fun h => absurd h.symm htime⟩

end Record

namespace Index

/-- Replay leaves nothing out and adds nothing. -/
theorem replay_perm (x : Index) : x.replay.Perm x.records := List.mergeSort_perm _ _

/-- Replay goes by knowledge time, and at one instant by number. -/
theorem pairwise_replay (x : Index) : x.replay.Pairwise fun a b => a.replaysBefore b = true :=
  List.pairwise_mergeSort Record.replaysBefore_trans Record.replaysBefore_total _

/-- **The order of adding does not matter** if no two envelopes became known at one instant:
    replay lists them in the order in which they became known. -/
theorem replay_eq_of_strict {x : Index} {history : List Envelope}
    (hperm : x.envelopes.Perm history)
    (hstrict : (history.map Envelope.knowledgeTime).Pairwise fun s t => s.isBefore t = true) :
    x.replay.map Record.envelope = history := by
  have hdistinct : (history.map Envelope.knowledgeTime).Nodup := by
    refine hstrict.imp ?_
    intro s t hst heq
    rw [heq] at hst
    exact Instant.isBefore_iff.mp hst (Instant.notAfter_refl t)
  have hreplay : (x.replay.map Record.envelope).Perm history :=
    (x.replay_perm.map _).trans hperm
  -- both lists go by knowledge time, and the times tell the envelopes apart
  have hreplayed : (x.replay.map Record.envelope).Pairwise fun a b =>
      a.knowledgeTime.notAfter b.knowledgeTime = true := by
    refine List.pairwise_map.mpr (x.pairwise_replay.imp ?_)
    intro a b hab
    exact (Record.replaysBefore_iff.mp hab).1
  have hlearned : history.Pairwise fun a b => a.knowledgeTime.notAfter b.knowledgeTime = true :=
    (List.pairwise_map.mp hstrict).imp Instant.notAfter_of_isBefore
  refine List.Perm.eq_of_pairwise ?_ hreplayed hlearned hreplay
  intro a b ha hb hab hba
  exact List.inj_on_of_nodup_map hdistinct (hreplay.subset ha) hb
    (Instant.eq_of_notAfter hab hba)

/-! ## Orderly journals

  A journal that gave its numbers itself is orderly, and then no two records compare as equal, so
  there is one sorted order. -/

/-- The numbers go up in the order of adding, and no transaction is there twice. -/
structure Orderly (x : Index) : Prop where
  numbered : x.records.Pairwise fun a b => a.sequence < b.sequence
  distinct : (x.envelopes.map Envelope.id).Nodup

/-- An empty journal is orderly. -/
theorem orderly_empty : empty.Orderly := ⟨List.Pairwise.nil, List.nodup_nil⟩

/-- The next number is above all that there are. -/
theorem Orderly.lt_nextSequence {x : Index} (h : x.Orderly) :
    ∀ r ∈ x.records, r.sequence < x.nextSequence := by
  intro r hr
  obtain ⟨front, last, hrecords⟩ : ∃ front last, x.records = front ++ [last] :=
    ⟨_, _, (List.dropLast_append_getLast (List.ne_nil_of_mem hr)).symm⟩
  have hnext : x.nextSequence = last.sequence + 1 := by
    rw [nextSequence, hrecords, List.getLast?_concat]
  have hnumbered := h.numbered
  rw [hrecords] at hr hnumbered
  rw [hnext, Nat.lt_succ_iff]
  rcases List.mem_append.mp hr with hfront | hlast
  · exact ((List.pairwise_append.mp hnumbered).2.2 r hfront last List.mem_cons_self).le
  · rw [List.mem_singleton.mp hlast]

/-- Behind records that are numbered on, the numbers go on. -/
theorem nextSequence_append {x : Index} {rs : List Record}
    (h : rs.map Record.sequence = List.range' x.nextSequence rs.length) :
    (⟨x.records ++ rs⟩ : Index).nextSequence = x.nextSequence + rs.length := by
  rcases List.eq_nil_or_concat' rs with rfl | ⟨front, last, rfl⟩
  · rw [List.append_nil]
    rfl
  · rw [List.map_append, List.length_append, List.length_singleton, List.range'_concat] at h
    have hlast : last.sequence = x.nextSequence + 1 * front.length :=
      (List.cons.inj (List.append_inj_right' h rfl)).1
    have hnext : (⟨x.records ++ (front ++ [last])⟩ : Index).nextSequence = last.sequence + 1 := by
      rw [nextSequence, ← List.append_assoc, List.getLast?_concat]
    rw [hnext, List.length_append, List.length_singleton]
    omega

/-- Each addition takes the next number, and the next is one more. -/
theorem nextSequence_push (x : Index) (e : Envelope) :
    (x.push ⟨x.nextSequence, e⟩).nextSequence = x.nextSequence + 1 := by
  have hone : [Record.mk x.nextSequence e].map Record.sequence = List.range' x.nextSequence 1 := rfl
  exact nextSequence_append hone

/-- A new envelope under the next number keeps a journal orderly. -/
theorem Orderly.push {x : Index} (h : x.Orderly) {e : Envelope} (hseq : x.sequenceOf? e.id = none) :
    (x.push ⟨x.nextSequence, e⟩).Orderly := by
  refine ⟨?_, ?_⟩
  · refine List.pairwise_append.mpr ⟨h.numbered, List.pairwise_singleton _ _, ?_⟩
    intro r hr r' hr'
    rw [List.mem_singleton.mp hr']
    exact h.lt_nextSequence r hr
  · rw [envelopes_push, List.map_append]
    refine List.nodup_append.mpr ⟨h.distinct, List.nodup_singleton _, ?_⟩
    rintro id hid _ hlast rfl
    rw [List.mem_singleton.mp hlast] at hid
    exact sequenceOf?_eq_none_iff.mp hseq hid

/-- If what was added later was not learned earlier, replay goes by the order of adding. -/
theorem Orderly.replay_eq {x : Index} (h : x.Orderly)
    (htimes : (x.envelopes.map Envelope.knowledgeTime).Pairwise
      fun s t => s.notAfter t = true) : x.replay = x.records := by
  have hlearned : x.records.Pairwise fun a b => a.knowledgeTime.notAfter b.knowledgeTime = true :=
    List.pairwise_map.mp (List.pairwise_map.mp htimes)
  refine List.mergeSort_of_pairwise ((hlearned.and h.numbered).imp ?_)
  rintro a b ⟨hnot, hlt⟩
  exact Record.replaysBefore_iff.mpr ⟨hnot, fun _ => hlt.le⟩

end Index

namespace Journal

/-- An addition that an outage may prevent keeps a journal orderly. -/
theorem orderly_appendUnder {j : Journal} (h : j.index.Orderly) (outage : Option IoFailure)
    (e : Envelope) : (j.appendUnder outage e).2.index.Orderly := by
  cases outage with
  | some cause => exact h
  | none =>
    show (j.append e).2.index.Orderly
    rcases j.index_append e with hsame | ⟨hseq, hpushed⟩
    · rw [hsame]
      exact h
    · rw [hpushed]
      exact h.push hseq

end Journal
end Subledger
