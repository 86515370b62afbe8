/-
  NUMBERING: what a journal in memory has after any additions.

  1. **The records** (`adding_eq`) — the first envelope of each name, numbered from one on in the
     order of adding, up to the greatest number (`recordsOf`).  Whatever comes under a name that is
     there is not even looked at.
  2. **The answers** (`append_first`, `append_again`) — the first addition of a name gets as its number
     how many names there are by then, and every later one that same number.
  3. **The order** (`Index.Orderly.strict_replay`, `Index.Orderly.replay_filter_time`) — no two records
     of an orderly journal have one place in its replay, and those of one instant stay in the order
     of adding.
-/
import Subledger.Proofs.Firsts
import Subledger.Proofs.Journal.Forgetting
import Subledger.Proofs.Journal.Recovery

namespace Subledger

open Json.Number (maxNatural)

/-! ## The order

  The numbers go up in the order of adding, so equal times leave that order alone. -/

namespace Index.Orderly

variable {x : Index}

/-- The records of an orderly journal that have some property make up an orderly journal. -/
theorem filter (h : x.Orderly) (p : Record → Bool) : (⟨x.records.filter p⟩ : Index).Orderly := by
  refine ⟨h.numbered.filter p, h.distinct.sublist ?_⟩
  exact (List.filter_sublist.map Record.envelope).map Envelope.id

/-- Replay goes strictly up by knowledge time and number. -/
theorem strict_replay (h : x.Orderly) : x.replay.Pairwise fun a b =>
    a.knowledgeTime.isBefore b.knowledgeTime = true ∨
      a.knowledgeTime = b.knowledgeTime ∧ a.sequence < b.sequence := by
  have hdistinct : x.replay.Pairwise fun a b => a.sequence ≠ b.sequence := by
    have hnumbers : x.records.Pairwise fun a b => a.sequence ≠ b.sequence :=
      h.numbered.imp Nat.ne_of_lt
    exact x.replay_perm.symm.pairwise hnumbers fun hne => hne.symm
  refine (x.pairwise_replay.and hdistinct).imp ?_
  rintro a b ⟨hab, hne⟩
  obtain ⟨hnot, hle⟩ := Record.replaysBefore_iff.mp hab
  by_cases htime : a.knowledgeTime = b.knowledgeTime
  · exact Or.inr ⟨htime, Nat.lt_of_le_of_ne (hle htime) hne⟩
  · refine Or.inl (Instant.isBefore_iff.mpr fun hback => ?_)
    exact htime (Instant.eq_of_notAfter hnot hback)

/-- What became known at one instant is replayed in the order of adding. -/
theorem replay_filter_time (h : x.Orderly) (t : Instant) :
    (x.replay.filter fun r => r.knowledgeTime == t)
      = x.records.filter fun r => r.knowledgeTime == t := by
  rw [← replay_filter]
  refine (h.filter _).replay_eq ?_
  rw [List.pairwise_map, envelopes, List.pairwise_map]
  refine List.pairwise_of_forall_mem_list fun a ha b hb => ?_
  have hat : a.knowledgeTime = t := beq_iff_eq.mp (List.mem_filter.mp ha).2
  have hbt : b.knowledgeTime = t := beq_iff_eq.mp (List.mem_filter.mp hb).2
  show a.knowledgeTime.notAfter b.knowledgeTime = true
  rw [hat, hbt]
  exact Instant.notAfter_refl t

end Index.Orderly

namespace Journal

/-! ## The records

  The state after some additions, as a function of them.  A name that comes again adds nothing, and
  neither does anything once all numbers are given. -/

/-- The records of some additions: the first envelope of each name, numbered from one on as long as
    there are numbers. -/
def recordsOf (es : List Envelope) : List Record :=
  (((firsts Envelope.id [] es).take maxNatural).zipIdx 1).map fun p => ⟨p.2, p.1⟩

/-- How many names some envelopes have. -/
def namesIn (es : List Envelope) : Nat := (es.map Envelope.id).toFinset.card

variable {es : List Envelope} {e : Envelope}

/-- There are as many first envelopes as names. -/
theorem length_firsts_id (es : List Envelope) : (firsts Envelope.id [] es).length = namesIn es := by
  rw [length_firsts, namesIn]

/-- An envelope under a new name is a first one. -/
theorem firsts_new (h : e.id ∉ es.map Envelope.id) :
    firsts Envelope.id [] (es ++ [e]) = firsts Envelope.id [] es ++ [e] := by
  rw [firsts_concat, if_neg]
  rintro (hnil | hmem)
  · exact List.not_mem_nil hnil
  · exact h hmem

/-- And it makes the names one more. -/
theorem namesIn_new (h : e.id ∉ es.map Envelope.id) : namesIn (es ++ [e]) = namesIn es + 1 := by
  rw [← length_firsts_id, firsts_new h, List.length_append, List.length_singleton, length_firsts_id]

/-- The envelopes of the records are the first ones, as many as there are numbers for. -/
theorem envelopes_recordsOf (es : List Envelope) :
    (recordsOf es).map Record.envelope = (firsts Envelope.id [] es).take maxNatural := by
  rw [recordsOf, List.map_map]
  exact List.zipIdx_map_fst 1 _

/-- There are as many records as names, or as numbers. -/
theorem length_recordsOf (es : List Envelope) :
    (recordsOf es).length = min maxNatural (namesIn es) := by
  rw [recordsOf, List.length_map, List.length_zipIdx, List.length_take, length_firsts_id]

/-- They are numbered from one on. -/
theorem numbered_recordsOf (es : List Envelope) : (⟨recordsOf es⟩ : Index).Numbered := by
  show (recordsOf es).map Record.sequence = List.range' 1 (recordsOf es).length
  rw [recordsOf, List.map_map, List.length_map, List.length_zipIdx]
  exact List.zipIdx_map_snd 1 _

/-- The next number is one more than there are records. -/
theorem nextSequence_recordsOf (es : List Envelope) :
    (⟨recordsOf es⟩ : Index).nextSequence = min maxNatural (namesIn es) + 1 := by
  rw [(numbered_recordsOf es).nextSequence_eq, length_recordsOf]

/-- Where the names do not outrun the numbers, those of the records are all of them. -/
theorem mem_names_recordsOf (hfew : namesIn es ≤ maxNatural) {id : TransactionId} :
    id ∈ (⟨recordsOf es⟩ : Index).envelopes.map Envelope.id ↔ id ∈ es.map Envelope.id := by
  rw [Index.envelopes, envelopes_recordsOf, List.take_of_length_le (length_firsts_id es ▸ hfew),
    mem_keys_firsts]
  exact and_iff_right List.not_mem_nil

/-- A record has a name of the envelopes. -/
theorem mem_names_of_recordsOf {id : TransactionId}
    (h : id ∈ (⟨recordsOf es⟩ : Index).envelopes.map Envelope.id) : id ∈ es.map Envelope.id := by
  rw [Index.envelopes, envelopes_recordsOf] at h
  exact (mem_keys_firsts.mp (((List.take_sublist _ _).map _).subset h)).2

/-- So the records are in order and have different names. -/
theorem orderly_recordsOf (es : List Envelope) : (⟨recordsOf es⟩ : Index).Orderly := by
  refine ⟨List.pairwise_map.mp ?_, ?_⟩
  · rw [numbered_recordsOf es]
    exact List.pairwise_lt_range'
  · rw [Index.envelopes, envelopes_recordsOf]
    exact (nodup_keys_firsts [] es).sublist ((List.take_sublist _ _).map _)

/-- An envelope of a new name is one more record, if there is a number left. -/
theorem recordsOf_new (h : e.id ∉ es.map Envelope.id) (hroom : namesIn (es ++ [e]) ≤ maxNatural) :
    recordsOf (es ++ [e]) = recordsOf es ++ [⟨namesIn (es ++ [e]), e⟩] := by
  have hlength := length_firsts_id es
  rw [namesIn_new h] at hroom ⊢
  have hall : (firsts Envelope.id [] es ++ [e]).length ≤ maxNatural := by
    rw [List.length_append, List.length_singleton, hlength]
    exact hroom
  rw [recordsOf, recordsOf, firsts_new h, List.take_of_length_le hall,
    List.take_of_length_le (by omega), List.zipIdx_append, List.map_append, hlength,
    Nat.add_comm 1]
  rfl

/-- An envelope of a name that was there adds nothing. -/
theorem recordsOf_old (h : e.id ∈ es.map Envelope.id) : recordsOf (es ++ [e]) = recordsOf es := by
  rw [recordsOf, firsts_concat, if_pos (Or.inr h), List.append_nil]
  rfl

/-- Where all numbers are given no envelope adds anything. -/
theorem recordsOf_full (hfull : maxNatural ≤ namesIn es) (e : Envelope) :
    recordsOf (es ++ [e]) = recordsOf es := by
  by_cases hid : e.id ∈ es.map Envelope.id
  · exact recordsOf_old hid
  · rw [recordsOf, firsts_new hid, List.take_append_of_le_length (length_firsts_id es ▸ hfull),
      recordsOf]

/-- Later additions only add records behind. -/
theorem recordsOf_append (es more : List Envelope) :
    ∃ rs, recordsOf (es ++ more) = recordsOf es ++ rs := by
  induction more using List.reverseRecOn with
  | nil => exact ⟨[], by rw [List.append_nil, List.append_nil]⟩
  | append_singleton more e ih =>
    obtain ⟨rs, hrs⟩ := ih
    rw [← List.append_assoc]
    rcases Nat.lt_or_ge (namesIn (es ++ more)) maxNatural with hroom | hfull
    · by_cases hid : e.id ∈ (es ++ more).map Envelope.id
      · exact ⟨rs, by rw [recordsOf_old hid, hrs]⟩
      · refine ⟨rs ++ [⟨namesIn (es ++ more ++ [e]), e⟩], ?_⟩
        rw [recordsOf_new hid (namesIn_new hid ▸ hroom), hrs, List.append_assoc]
    · exact ⟨rs, by rw [recordsOf_full hfull, hrs]⟩

/-! ## The answers

  The answers are read off the state before each addition, which is known by the section above. -/

/-- The journal in memory after additions. -/
def adding (es : List Envelope) : Journal := inMemory.after (es.map .add)

/-- One use more is one step more. -/
theorem after_concat (j : Journal) (uses : List Use) (u : Use) :
    j.after (uses ++ [u]) = ((j.after uses).use u).2 := by
  induction uses generalizing j with
  | nil => rfl
  | cons v uses ih => exact ih (j.use v).2

/-- An addition of a new name to the records of earlier ones. -/
theorem append_new (h : e.id ∉ es.map Envelope.id) (hroom : namesIn (es ++ [e]) ≤ maxNatural) :
    append ⟨⟨recordsOf es⟩, .memory⟩ e
      = (.ok (.appended (namesIn (es ++ [e]))), ⟨⟨recordsOf (es ++ [e])⟩, .memory⟩) := by
  have hnone : (⟨recordsOf es⟩ : Index).sequenceOf? e.id = none :=
    Index.sequenceOf?_eq_none_iff.mpr (mt mem_names_of_recordsOf h)
  have hnext : (⟨recordsOf es⟩ : Index).nextSequence = namesIn (es ++ [e]) := by
    rw [nextSequence_recordsOf, namesIn_new h]
    rw [namesIn_new h] at hroom
    omega
  rw [append_memory hnone (hnext ▸ hroom), hnext, recordsOf_new h hroom]
  rfl

/-- **A journal in memory has the first envelope of each name**, numbered in the order of adding, as
    long as there are numbers. -/
theorem adding_eq (es : List Envelope) : adding es = ⟨⟨recordsOf es⟩, .memory⟩ := by
  induction es using List.reverseRecOn with
  | nil => rfl
  | append_singleton es e ih =>
    rw [adding, List.map_append, List.map_singleton, after_concat]
    show ((adding es).append e).2 = _
    rw [ih]
    have hnext := nextSequence_recordsOf es
    rcases (⟨recordsOf es⟩ : Index).append_cases e with
      ⟨n, hseq, -⟩ | ⟨hseq, hroom, -⟩ | ⟨hseq, hfull, -⟩
    · have hid : e.id ∈ es.map Envelope.id := by
        by_contra hnew
        rw [Index.sequenceOf?_eq_none_iff.mpr (mt mem_names_of_recordsOf hnew)] at hseq
        cases hseq
      rw [append_of_journalled hseq, recordsOf_old hid]
    · have hid : e.id ∉ es.map Envelope.id := by
        rw [← mem_names_recordsOf (by omega)]
        exact Index.sequenceOf?_eq_none_iff.mp hseq
      rw [append_new hid (by rw [namesIn_new hid]; omega)]
    · rw [append_of_full hseq hfull, recordsOf_full (by omega)]

/-- The first addition of a name is answered with the number of names. -/
theorem append_first (h : e.id ∉ es.map Envelope.id) (hroom : namesIn (es ++ [e]) ≤ maxNatural) :
    ((adding es).append e).1 = .ok (.appended (namesIn (es ++ [e]))) := by
  rw [adding_eq, append_new h hroom]

/-- However many additions there are in between, a name keeps the number of its first one. -/
theorem append_again {before later : List Envelope} {e e' : Envelope}
    (h : e.id ∉ before.map Envelope.id) (hroom : namesIn (before ++ [e]) ≤ maxNatural)
    (he : e'.id = e.id) :
    (adding (before ++ e :: later)).append e'
      = (.ok (.duplicate (namesIn (before ++ [e]))), adding (before ++ e :: later)) := by
  have hfirst : (⟨recordsOf (before ++ [e])⟩ : Index).sequenceOf? e.id
      = some (namesIn (before ++ [e])) := by
    rw [recordsOf_new h hroom]
    exact Index.sequenceOf?_push (x := ⟨recordsOf before⟩)
      (Index.sequenceOf?_eq_none_iff.mpr (mt mem_names_of_recordsOf h))
  obtain ⟨rs, hrs⟩ := recordsOf_append (before ++ [e]) later
  rw [List.append_assoc, List.singleton_append] at hrs
  refine append_of_journalled ?_
  rw [adding_eq, he]
  exact Index.sequenceOf?_of_append hrs hfirst

/-- **What a journal in memory has and answers.**  The first addition of a name is answered with the
    number of different names so far, it included, if sixty-four bits hold that number, and every
    later one, whatever comes under the name, with that number again, and changes nothing.  Replay
    lists the first envelope of each name, strictly in the order of knowledge time and number; the
    numbers are those from one to the number of names, given in the order of adding; and what became
    known at one instant is listed in the order of adding. -/
theorem numbers_each_name_once (es : List Envelope) :
    (∀ before e later, es = before ++ e :: later → e.id ∉ before.map Envelope.id →
      namesIn (before ++ [e]) ≤ maxNatural →
      ((adding before).append e).1 = .ok (.appended (namesIn (before ++ [e]))) ∧
      ∀ e', e'.id = e.id → (adding es).append e'
        = (.ok (.duplicate (namesIn (before ++ [e]))), adding es)) ∧
    (adding es).index.records.map Record.envelope
      = (firsts Envelope.id [] es).take maxNatural ∧
    (adding es).index.records.map Record.sequence = List.range' 1 (min maxNatural (namesIn es)) ∧
    (adding es).index.replay.Perm (adding es).index.records ∧
    ((adding es).index.replay.Pairwise fun a b =>
      a.knowledgeTime.isBefore b.knowledgeTime = true ∨
        a.knowledgeTime = b.knowledgeTime ∧ a.sequence < b.sequence) ∧
    ∀ t, ((adding es).index.replay.filter fun r => r.knowledgeTime == t)
      = (adding es).index.records.filter fun r => r.knowledgeTime == t := by
  have horderly : (adding es).index.Orderly := by
    rw [adding_eq]
    exact orderly_recordsOf es
  refine ⟨?_, ?_, ?_, Index.replay_perm _, horderly.strict_replay, horderly.replay_filter_time⟩
  · rintro before e later rfl hnew hroom
    exact ⟨append_first hnew hroom, fun e' he => append_again hnew hroom he⟩
  · rw [adding_eq, envelopes_recordsOf]
  · rw [adding_eq, ← length_recordsOf]
    exact numbered_recordsOf es

end Journal
end Subledger
