/-
  CHECKPOINTS READ AGAIN: when a follower can still find out where it was.

  A checkpoint is written with a date of as many digits as the year takes, and read by a reader that
  knows years of four digits only.  Journals hold instants of other years as well, since documents
  are read by a reader that takes them.  So there are checkpoints that can be written and not read.

  1. **The uses of a store** (`StoreUse`) — catch-ups under one name, by any followers and from any
     journals, and whatever is put under other keys.
  2. **The row** (`find?_run`) — the checkpoint's row holds the last checkpoint that was written, or
     what it held before.
  3. **The result** (`corrupt_iff_last_written`) — once a catch-up got through, a later one finds an
     unreadable checkpoint exactly if the last one written has a year beyond the four digits.
-/
import Subledger.Proofs.Replay.CatchUp

namespace Subledger

/-! ## The uses of a store -/

/-- A use of a store in which only catch-ups under a name write its checkpoint: a catch-up of any
    book from any journal, or bytes that are put under another key. -/
inductive StoreUse (name : String) where
  | catchUp (outage : CatchUpOutage) (book : Book) (x : Index)
  | put (key : String) (other : key ≠ checkpointKey name) (bytes : List UInt8)

namespace StoreUse

variable {name : String}

/-- A store after a use. -/
def step (s : StateStore) : StoreUse name → StateStore
  | .catchUp o b x => (Follower.catchUp o ⟨b, s⟩ x name).2.store
  | .put key _ bytes => s.insert key bytes

/-- The instant that a use writes as the checkpoint, if it writes one. -/
def writes (s : StateStore) : StoreUse name → Option Instant
  | .catchUp o b x =>
    match (Follower.catchUp o ⟨b, s⟩ x name).1 with
    | .ok report => report.lastKnowledgeTime
    | .error _ => none
  | .put _ _ _ => none

/-- A store after some uses. -/
def run (s : StateStore) (us : List (StoreUse name)) : StateStore := us.foldl step s

/-- The instants that some uses write as the checkpoint, in order. -/
def written (s : StateStore) : List (StoreUse name) → List Instant
  | [] => []
  | u :: us => (writes s u).toList ++ written (step s u) us

/-- Do the journals of a use hold instants of four-digit years only? -/
def Ordinary : StoreUse name → Prop
  | .catchUp _ _ x => ∀ r ∈ x.records, r.knowledgeTime.FourDigitYear
  | .put _ _ _ => True

/-! ## The checkpoint's row -/

/-- A use writes the row of the checkpoint, or leaves it. -/
theorem find?_step (s : StateStore) (u : StoreUse name) :
    (step s u).find? (checkpointKey name)
      = ((writes s u).map checkpointBytes).or (s.find? (checkpointKey name)) := by
  cases u with
  | put key other bytes => exact Table.find?_insert_of_ne s bytes other.symm
  | catchUp o b x =>
    rw [step, writes]
    rcases Follower.catchUp_cases o ⟨b, s⟩ x name with
      ⟨mark, report, f, hf, -, -, -, hstore⟩ | ⟨mark, e, taken, f, hf, -, -, -, hstore, -⟩ |
      ⟨e, hf, -⟩
    · rw [hf]
      dsimp only
      rw [hstore]
      cases report.lastKnowledgeTime with
      | none => rfl
      | some t => exact Table.find?_insert_self s _ _
    · rw [hf]
      dsimp only
      rw [hstore]
      rfl
    · rw [hf]
      rfl

/-- The row of the checkpoint holds what was written last, or what it held at first. -/
theorem find?_run (s : StateStore) (us : List (StoreUse name)) :
    (run s us).find? (checkpointKey name)
      = ((written s us).getLast?.map checkpointBytes).or (s.find? (checkpointKey name)) := by
  induction us generalizing s with
  | nil => rfl
  | cons u us ih =>
    have hlast : (written s (u :: us)).getLast?
        = (written (step s u) us).getLast?.or (writes s u) := by
      rw [written, List.getLast?_append]
      cases writes s u <;> rfl
    show (run (step s u) us).find? (checkpointKey name) = _
    rw [ih, find?_step, hlast, Option.map_or, Option.or_assoc]

/-- What is written is the knowledge time of a record. -/
theorem fourDigitYear_written {s : StateStore} {us : List (StoreUse name)}
    (h : ∀ u ∈ us, u.Ordinary) : ∀ t ∈ written s us, t.FourDigitYear := by
  induction us generalizing s with
  | nil => exact fun t ht => absurd ht List.not_mem_nil
  | cons u us ih =>
    intro t ht
    rcases List.mem_append.mp ht with hnow | hlater
    · have hu := h u List.mem_cons_self
      rw [Option.mem_toList] at hnow
      cases u with
      | put key other bytes => exact nomatch hnow
      | catchUp o b x =>
        rw [writes] at hnow
        rcases Follower.catchUp_cases o ⟨b, s⟩ x name with
          ⟨mark, report, f, hf, -, -, hlatest, -⟩ | ⟨mark, e, taken, f, hf, -⟩ | ⟨e, hf, -⟩
        · rw [hf] at hnow
          have hmem : t ∈ (x.replayFromMark mark).map Record.knowledgeTime := by
            rw [show report.lastKnowledgeTime = some t from hnow] at hlatest
            exact hlatest.1
          obtain ⟨r, hr, rfl⟩ := List.mem_map.mp hmem
          exact hu r (Index.mem_replayFromMark.mp hr).1
        · rw [hf] at hnow
          exact nomatch hnow
        · rw [hf] at hnow
          exact nomatch hnow
    · exact ih (fun v hv => h v (List.mem_cons_of_mem _ hv)) t hlater

end StoreUse

/-! ## Unreadable checkpoints -/

/-- Whatever is wrong with the bytes of a checkpoint, it is the checkpoint that is named. -/
theorem corrupt_of_readCheckpoint {key : String} {bytes : List UInt8} {e : ReplayError}
    (h : readCheckpoint key bytes = .error e) : ∃ reason, e = .corruptCheckpoint key reason := by
  rw [readCheckpoint] at h
  cases hdecode : Text.Utf8.decode bytes with
  | error fault =>
    rw [hdecode] at h
    exact ⟨_, (Except.error.inj h).symm⟩
  | ok cs =>
    rw [hdecode] at h
    dsimp only at h
    cases hread : Instant.readStrict cs with
    | error cause =>
      rw [hread] at h
      exact ⟨_, (Except.error.inj h).symm⟩
    | ok t =>
      rw [hread] at h
      cases h

namespace Follower

/-- A catch-up finds an unreadable checkpoint only where it looks for its checkpoint. -/
theorem catchUp_corrupt_iff (o : CatchUpOutage) (f : Follower) (x : Index) (name : String) :
    (∃ key reason, (f.catchUp o x name).1 = .error (.corruptCheckpoint key reason)) ↔
      ∃ key reason, f.checkpoint o name = .error (.corruptCheckpoint key reason) := by
  rcases catchUp_cases o f x name with
    ⟨mark, report, g, hg, hmark, -⟩ | ⟨mark, e, taken, g, hg, hmark, -, -, -, hnot⟩ |
    ⟨e, hg, hmark⟩
  · rw [hg, hmark]
    exact iff_of_false (fun ⟨_, _, h⟩ => nomatch h) (fun ⟨_, _, h⟩ => nomatch h)
  · rw [hg, hmark]
    refine iff_of_false ?_ (fun ⟨_, _, h⟩ => nomatch h)
    rintro ⟨key, reason, h⟩
    exact hnot key reason (Except.error.inj h)
  · rw [hg, hmark]
    exact exists₂_congr fun _ _ => ⟨fun h => congrArg _ (Except.error.inj h),
      fun h => congrArg _ (Except.error.inj h)⟩

/-- A checkpoint is unreadable if its row can be got and does not spell an instant. -/
theorem checkpoint_corrupt_iff (o : CatchUpOutage) (f : Follower) (name : String) :
    (∃ key reason, f.checkpoint o name = .error (.corruptCheckpoint key reason)) ↔
      o.store.get = false ∧ ∃ bytes e, f.store.find? (checkpointKey name) = some bytes ∧
        readCheckpoint (checkpointKey name) bytes = .error e := by
  rw [checkpoint_eq]
  cases o.store.get with
  | true => exact iff_of_false (fun ⟨_, _, h⟩ => nomatch h) (fun h => nomatch h.1)
  | false =>
    rw [if_neg Bool.false_ne_true]
    cases f.store.find? (checkpointKey name) with
    | none =>
      exact iff_of_false (fun ⟨_, _, h⟩ => nomatch h) (fun ⟨_, _, _, h, _⟩ => nomatch h)
    | some bytes =>
      dsimp only
      cases hread : readCheckpoint (checkpointKey name) bytes with
      | ok t =>
        refine iff_of_false (fun ⟨_, _, h⟩ => nomatch h) ?_
        rintro ⟨-, _, e, ⟨⟩, he⟩
        rw [hread] at he
        exact nomatch he
      | error e =>
        obtain ⟨reason, rfl⟩ := corrupt_of_readCheckpoint hread
        exact iff_of_true ⟨_, reason, rfl⟩ ⟨rfl, bytes, _, rfl, hread⟩

/-- The row of a checkpoint that could be looked at, if there is one, spells an instant. -/
theorem readCheckpoint_of_checkpoint {o : CatchUpOutage} {f : Follower} {name : String}
    {mark : Option Instant} {bytes : List UInt8} (h : f.checkpoint o name = .ok mark)
    (hrow : f.store.find? (checkpointKey name) = some bytes) :
    ∃ t, readCheckpoint (checkpointKey name) bytes = .ok t := by
  rw [checkpoint_eq, hrow] at h
  split at h
  · exact nomatch h
  · cases hread : readCheckpoint (checkpointKey name) bytes with
    | ok t => exact ⟨t, rfl⟩
    | error e =>
      dsimp only at h
      rw [hread] at h
      exact nomatch h

/-- **A checkpoint is read again exactly if four digits hold its year.**  Such a checkpoint gives
    back the instant that was written, and any other is refused.  So once a catch-up got through,
    a later one that can look at the store finds an unreadable checkpoint exactly if the last one
    written has another year; and while all journals hold four-digit years only, that never
    happens. -/
theorem corrupt_iff_last_written (name : String) (s : StateStore) :
    (∀ t, readCheckpoint (checkpointKey name) (checkpointBytes t)
      = if t.FourDigitYear then .ok t
        else .error (.corruptCheckpoint (checkpointKey name)
          Instant.ReadError.invalid.message)) ∧
    ∀ {o : CatchUpOutage} {b : Book} {x : Index} {report : ReplayReport} {f : Follower},
      catchUp o ⟨b, s⟩ x name = (.ok report, f) → ∀ (us : List (StoreUse name)) o' b' x',
        ((∃ key reason, (catchUp o' ⟨b', StoreUse.run f.store us⟩ x' name).1
            = .error (.corruptCheckpoint key reason)) ↔
          o'.store.get = false ∧
            ∃ t, (StoreUse.written s (.catchUp o b x :: us)).getLast? = some t ∧
              ¬ t.FourDigitYear) ∧
        ((∀ u ∈ StoreUse.catchUp o b x :: us, u.Ordinary) → ∀ key reason,
          (catchUp o' ⟨b', StoreUse.run f.store us⟩ x' name).1
            ≠ .error (.corruptCheckpoint key reason)) := by
  refine ⟨readCheckpoint_checkpointBytes _, ?_⟩
  intro o b x report f h us o' b' x'
  have hiff : (∃ key reason, (catchUp o' ⟨b', StoreUse.run f.store us⟩ x' name).1
        = .error (.corruptCheckpoint key reason)) ↔
      o'.store.get = false ∧
        ∃ t, (StoreUse.written s (.catchUp o b x :: us)).getLast? = some t ∧
          ¬ t.FourDigitYear := by
    have hrun : StoreUse.run f.store us = StoreUse.run s (.catchUp o b x :: us) := by
      show _ = StoreUse.run (catchUp o ⟨b, s⟩ x name).2.store us
      rw [h]
    obtain ⟨mark, hmark, -⟩ := catchUp_of_ok h
    rw [catchUp_corrupt_iff, checkpoint_corrupt_iff, hrun]
    dsimp only
    rw [StoreUse.find?_run]
    refine and_congr_right fun _ => ?_
    cases (StoreUse.written s (.catchUp o b x :: us)).getLast? with
    | none =>
      -- the row is still the one that the catch-up that got through could read
      refine iff_of_false ?_ (fun ⟨_, h, _⟩ => nomatch h)
      rintro ⟨bytes, e, hrow, hread⟩
      obtain ⟨t, ht⟩ := readCheckpoint_of_checkpoint hmark hrow
      rw [ht] at hread
      exact nomatch hread
    | some t =>
      rw [Option.map_some, Option.some_or]
      constructor
      · rintro ⟨bytes, e, hrow, hread⟩
        refine ⟨t, rfl, ?_⟩
        intro hyear
        rw [← Option.some.inj hrow, readCheckpoint_checkpointBytes, if_pos hyear] at hread
        exact nomatch hread
      · rintro ⟨_, ht, hyear⟩
        obtain rfl := Option.some.inj ht
        exact ⟨_, _, rfl, by rw [readCheckpoint_checkpointBytes, if_neg hyear]⟩
  refine ⟨hiff, ?_⟩
  intro hordinary key reason hcorrupt
  obtain ⟨-, t, ht, hyear⟩ := hiff.mp ⟨key, reason, hcorrupt⟩
  exact hyear (StoreUse.fourDigitYear_written hordinary t (List.mem_of_getLast? ht))

end Follower

/-! ## A sample journal

  One transfer, said to be known in a year of five digits. -/

namespace Sample

/-- Midnight of the first day of the year 10000. -/
def farOff : Instant :=
  ⟨253402300800, 0, Instant.epoch.nanos_lt, by decide, by decide, by decide⟩

/-- The journal of that transfer. -/
def farOffIndex : Index := ⟨[⟨1, .epoch, farOff, transfer firstId alice bob threeTenths⟩]⟩

end Sample

namespace Follower

/-- The first catch-up gets through and writes its checkpoint. -/
theorem catchUp_farOff : ∃ report b, report.lastKnowledgeTime = some Sample.farOff ∧
    Sample.follower.catchUp .none Sample.farOffIndex "gl" = (.ok report,
      ⟨b, Sample.follower.store.insert (checkpointKey "gl") (checkpointBytes Sample.farOff)⟩) := by
  have hrecords : Sample.farOffIndex.replayFromMark none = Sample.farOffIndex.records :=
    List.mergeSort_singleton _
  have hmark : Sample.follower.checkpoint .none "gl" = .ok none := rfl
  exact ⟨_, _, rfl, catchUp_of_replay hmark hrecords rfl rfl⟩

/-- The last checkpoint written is beyond the four digits, so the next catch-up finds it
    unreadable. -/
theorem corrupt_iff_last_written_farOff : ∃ report f,
    Sample.follower.catchUp .none Sample.farOffIndex "gl" = (.ok report, f) ∧
      ∃ key reason, (f.catchUp .none Sample.farOffIndex "gl").1
        = .error (.corruptCheckpoint key reason) := by
  obtain ⟨report, b, hlast, h⟩ := catchUp_farOff
  have hwritten : StoreUse.written Sample.follower.store
      [(.catchUp .none Sample.follower.book Sample.farOffIndex : StoreUse "gl")]
        = [Sample.farOff] := by
    show (match (Sample.follower.catchUp .none Sample.farOffIndex "gl").1 with
      | .ok report => report.lastKnowledgeTime
      | .error _ => none).toList ++ [] = _
    rw [h]
    dsimp only
    rw [hlast]
    rfl
  refine ⟨report, _, h, ?_⟩
  exact ((corrupt_iff_last_written "gl" Sample.follower.store).2 h [] .none b
    Sample.farOffIndex).1.mpr
    ⟨rfl, Sample.farOff, congrArg List.getLast? hwritten, by decide⟩

/-- **A checkpoint that is written and not read**: a knowledge time that documents may carry is
    taken for a checkpoint, and from then on each catch-up is refused. -/
theorem farOff_checkpoint_unreadable :
    (Json.Canonical.decode (.text "+10000-01-01T00:00:00Z") : Except Json.Error Instant)
        = .ok Sample.farOff ∧
      readCheckpoint (checkpointKey "gl") (checkpointBytes Sample.farOff) ≠ .ok Sample.farOff ∧
      ∃ report f, Sample.follower.catchUp .none Sample.farOffIndex "gl" = (.ok report, f) ∧
        (f.catchUp .none Sample.farOffIndex "gl").1
          = .error (.corruptCheckpoint (checkpointKey "gl") "input contains invalid characters") := by
  have hyear : ¬ Sample.farOff.FourDigitYear := by decide
  refine ⟨rfl, ?_, ?_⟩
  · intro hread
    rw [readCheckpoint_checkpointBytes, if_neg hyear] at hread
    exact nomatch hread
  · obtain ⟨report, b, -, h⟩ := catchUp_farOff
    refine ⟨report, _, h, ?_⟩
    rw [catchUp, outstanding_eq, checkpoint_of_insert rfl, if_neg hyear]
    rfl

end Follower
end Subledger
