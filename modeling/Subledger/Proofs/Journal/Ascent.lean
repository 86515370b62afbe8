/-
  ASCENT: when the numbers of a journal go on upwards.

  A number is one more than that of the last record.  What was opened may be any file, and its
  numbers are whatever the file says: two files joined, or lines in another order, are opened like
  any other.

  1. **One use** (`use_cases`) — a use leaves the records alone, or it is an addition that puts one
     record behind them, under the next number.
  2. **Runs** (`grown`) — so the records that a run adds are numbered on without a gap, and nothing
     else is added.  The crux is what comes first: the first number that is given is the next one of
     the journal that was opened (`first_addition`).
  3. **The result** (`never_repeats_iff`) — if anything is added, the numbers go on upwards exactly
     if those of the file stay below that first one.  The numbers of a journal that additions made do
     (`Tells.neverRepeats_of_orderly`).
-/
import Subledger.Proofs.Journal.Reopening

namespace Subledger.Journal

/-- The numbers of the records, in the order of adding. -/
def numbers (j : Journal) : List Nat := j.index.records.map Record.sequence

/-- At no time do two records have one number, and every number that is given is above all that
    there are. -/
structure NeverRepeats (j : Journal) (uses : List Use) : Prop where
  distinct : ∀ pre post, uses = pre ++ post → (j.after pre).numbers.Nodup
  above : ∀ pre e post n, uses = pre ++ .add e :: post →
    ((j.after pre).append e).1 = .ok (.appended n) → ∀ m ∈ (j.after pre).numbers, m < n

variable {j : Journal} {uses : List Use}

/-! ## One use

  What a use does to the numbers: it takes none, or the next one. -/

/-- A use leaves the records alone and gives no number, or it puts a record behind them under the
    next number. -/
theorem use_cases (h : j.Tells) (u : Use) :
    ((j.use u).2.index = j.index ∧ ∀ e n, u = .add e → (j.append e).1 ≠ .ok (.appended n)) ∨
    ∃ e, u = .add e ∧ (j.append e).1 = .ok (.appended j.index.nextSequence) ∧
      (j.use u).2.index = j.index.push ⟨j.index.nextSequence, e⟩ := by
  cases u with
  | add e =>
    rcases j.appendUnder_index none e with
      ⟨j', hj', -, hpushed⟩ | ⟨n, hj', -⟩ | ⟨cause, j', hj', hsame⟩
    all_goals
      change j.append e = _ at hj'
      rw [use, hj']
    · exact Or.inr ⟨e, rfl, congrArg Prod.fst hj', hpushed⟩
    · left
      refine ⟨rfl, ?_⟩
      rintro _ m ⟨⟩
      rw [hj']
      simp
    · left
      refine ⟨hsame, ?_⟩
      rintro _ m ⟨⟩
      rw [hj']
      simp
  | replay => exact Or.inl ⟨rfl, fun e n hu => by cases hu⟩
  | since t => exact Or.inl ⟨rfl, fun e n hu => by cases hu⟩
  | asOf t => exact Or.inl ⟨rfl, fun e n hu => by cases hu⟩
  | reopen =>
    left
    refine ⟨?_, fun e n hu => by cases hu⟩
    show j.reopen.2.index = j.index
    rw [h.reopen]

/-! ## Runs

  The numbers that a run gives are an interval that begins at the next number of the start.  Whether
  they are new is then a question about the start alone. -/

/-- A run puts records behind those that there are, numbered on from the next number. -/
theorem grown (h : j.Tells) (uses : List Use) :
    ∃ rs, (j.after uses).index.records = j.index.records ++ rs ∧
      rs.map Record.sequence = List.range' j.index.nextSequence rs.length := by
  induction uses generalizing j with
  | nil => exact ⟨[], (List.append_nil _).symm, rfl⟩
  | cons u uses ih =>
    obtain ⟨rs, hrecords, hnumbered⟩ := ih (h.use u)
    rcases use_cases h u with ⟨hsame, -⟩ | ⟨e, -, -, hpushed⟩
    · rw [hsame] at hrecords hnumbered
      exact ⟨rs, hrecords, hnumbered⟩
    · refine ⟨⟨j.index.nextSequence, e⟩ :: rs, ?_, ?_⟩
      · show ((j.use u).2.after uses).index.records = _
        rw [hrecords, hpushed, Index.push, List.append_assoc]
        rfl
      · rw [List.map_cons, hnumbered, hpushed, Index.nextSequence_push, List.length_cons,
          List.range'_succ]

/-- If a run adds anything, there is a first addition, to the records that there were. -/
theorem first_addition (h : j.Tells)
    (hadded : (j.after uses).index ≠ j.index) : ∃ pre e post, uses = pre ++ .add e :: post ∧
      (j.after pre).index = j.index ∧
      ((j.after pre).append e).1 = .ok (.appended j.index.nextSequence) := by
  induction uses generalizing j with
  | nil => exact absurd rfl hadded
  | cons u uses ih =>
    rcases use_cases h u with ⟨hsame, -⟩ | ⟨e, rfl, hanswer, -⟩
    · rw [← hsame] at hadded
      obtain ⟨pre, e, post, rfl, hbefore, hanswer⟩ := ih (h.use u) hadded
      rw [hsame] at hbefore hanswer
      exact ⟨u :: pre, e, post, rfl, hbefore, hanswer⟩
    · exact ⟨[], e, uses, rfl, rfl, hanswer⟩

/-! ## The result

  Numbers repeat in a run exactly if they did at the start or a given one meets an old one.  The
  first number given is the least of the interval, so it decides. -/

/-- Numbers never repeat in a run if they do not at its first use and in what follows. -/
theorem NeverRepeats.cons {u : Use} (hdistinct : j.numbers.Nodup)
    (habove : ∀ e n, u = .add e → (j.append e).1 = .ok (.appended n) → ∀ m ∈ j.numbers, m < n)
    (h : (j.use u).2.NeverRepeats uses) : j.NeverRepeats (u :: uses) := by
  refine ⟨?_, ?_⟩
  · rintro (_ | ⟨v, pre⟩) post huses
    · exact hdistinct
    · obtain ⟨rfl, hrest⟩ := List.cons_eq_cons.mp huses
      exact h.distinct pre post hrest
  · rintro (_ | ⟨v, pre⟩) e post n huses hanswer
    · obtain ⟨rfl, -⟩ := List.cons_eq_cons.mp huses
      exact habove e n rfl hanswer
    · obtain ⟨rfl, hrest⟩ := List.cons_eq_cons.mp huses
      exact h.above pre e post n hrest hanswer

/-- Numbers that go on above those that there are never repeat. -/
theorem Tells.neverRepeats (h : j.Tells) (hdistinct : j.numbers.Nodup)
    (hbelow : (j.after uses).index = j.index ∨ ∀ m ∈ j.numbers, m < j.index.nextSequence) :
    j.NeverRepeats uses := by
  induction uses generalizing j with
  | nil =>
    refine ⟨?_, ?_⟩
    · intro pre post huses
      obtain ⟨rfl, -⟩ := List.append_eq_nil_iff.mp huses.symm
      exact hdistinct
    · intro pre e post n huses
      simp at huses
  | cons u uses ih =>
    have hrest := ih (h.use u)
    rcases use_cases h u with ⟨hsame, hnone⟩ | ⟨e, rfl, hanswer, hpushed⟩
    · have hnumbers : (j.use u).2.numbers = j.numbers := by
        rw [numbers, hsame, numbers]
      rw [hnumbers, hsame] at hrest
      exact .cons hdistinct (fun e n hu hn => absurd hn (hnone e n hu)) (hrest hdistinct hbelow)
    · -- from here on something is added, so the numbers of `j` are below the one that is given
      have hadded : ((j.use (.add e)).2.after uses).index ≠ j.index := by
        obtain ⟨rs, hrecords, -⟩ := grown (h.use (.add e)) uses
        intro hsame
        have hlength := congrArg List.length hrecords
        rw [hsame, hpushed, Index.push] at hlength
        simp at hlength
      have hbelow := hbelow.resolve_left hadded
      have hnumbers : (j.use (.add e)).2.numbers = j.numbers ++ [j.index.nextSequence] := by
        rw [numbers, hpushed, Index.push, List.map_append]
        rfl
      refine .cons hdistinct ?_ (hrest ?_ (Or.inr ?_))
      · rintro _ n ⟨⟩ hn
        rw [hanswer] at hn
        cases hn
        exact hbelow
      · rw [hnumbers]
        refine List.nodup_append.mpr ⟨hdistinct, List.nodup_singleton _, ?_⟩
        intro m hm n hn
        rw [List.mem_singleton.mp hn]
        exact (hbelow m hm).ne
      · rw [hnumbers, hpushed, Index.nextSequence_push]
        intro m hm
        rcases List.mem_append.mp hm with hold | hlast
        · have := hbelow m hold
          omega
        · rw [List.mem_singleton.mp hlast]
          omega

/-- The numbers of a journal that is numbered upwards never repeat. -/
theorem Tells.neverRepeats_of_orderly (h : j.Tells) (horderly : j.index.Orderly) :
    j.NeverRepeats uses := by
  have hnumbers : j.numbers.Pairwise (· < ·) := List.pairwise_map.mpr horderly.numbered
  refine h.neverRepeats (hnumbers.imp Nat.ne_of_lt) (Or.inr ?_)
  intro m hm
  obtain ⟨r, hr, rfl⟩ := List.mem_map.mp hm
  exact horderly.lt_nextSequence r hr

/-- **The numbers go on upwards exactly if those of the file stay below the first that is given.**
    Whatever file a journal was opened from, a run puts numbers behind those of the file that follow
    one another, from the one after the last record's on.  So no number ever comes up twice, and
    each is above all before it, exactly if the numbers of the file are distinct and nothing is
    added or they are all below the first new one. -/
theorem never_repeats_iff {f f' : JournalFile} (hopened : ofFile f = (.ok j, f'))
    (uses : List Use) :
    (∃ k, (j.after uses).numbers = j.numbers ++ List.range' j.index.nextSequence k) ∧
    (j.NeverRepeats uses ↔ j.numbers.Nodup ∧
      ((j.after uses).index = j.index ∨ ∀ m ∈ j.numbers, m < j.index.nextSequence)) := by
  have h : j.Tells := tells_ofFile hopened
  refine ⟨?_, ?_, ?_⟩
  · obtain ⟨rs, hrecords, hnumbered⟩ := grown h uses
    refine ⟨rs.length, ?_⟩
    rw [numbers, hrecords, List.map_append, hnumbered, numbers]
  · intro hnever
    refine ⟨hnever.distinct [] uses rfl, or_iff_not_imp_left.mpr fun hadded => ?_⟩
    obtain ⟨pre, e, post, huses, hbefore, hanswer⟩ := first_addition h hadded
    have habove := hnever.above pre e post _ huses hanswer
    rwa [numbers, hbefore] at habove
  · rintro ⟨hdistinct, hbelow⟩
    exact h.neverRepeats hdistinct hbelow

end Subledger.Journal

/-! ## Two files joined

  Of two journals the file of one is put behind that of the other. -/

namespace Subledger

namespace Sample

/-- A third transfer. -/
def laterNews : Envelope := ⟨.epoch, .epoch, transfer thirdId alice bob threeTenths⟩

/-- The last record of one journal, and behind it the first of another. -/
def joinedRecords : List Record := [⟨2, news⟩, ⟨1, oldNews⟩]

/-- The file of these records. -/
def joinedFile : JournalFile := ⟨.regular (joinedRecords.flatMap Record.line), 0⟩

/-- The journal that is opened from it. -/
def joinedJournal : Journal := ⟨⟨joinedRecords⟩, .file joinedFile⟩

/-- The second journal's lines behind the first one's are read as records without a look at their
    numbers. -/
theorem ofFile_joinedFile : Journal.ofFile joinedFile = (.ok joinedJournal, joinedFile) := by
  have hopened := Journal.ofFile_records (show ∀ r ∈ joinedRecords, r.Held by decide) (by decide)
    (List.not_mem_nil : Record.newline ∉ []) 0
  rwa [List.append_nil] at hopened

end Sample

/-- The third transfer gets the number that the first one has. -/
theorem Journal.never_repeats_iff_joined :
    Journal.ofFile Sample.joinedFile = (.ok Sample.joinedJournal, Sample.joinedFile) ∧
    Sample.joinedJournal.numbers = [2, 1] ∧
    (Sample.joinedJournal.after [.add Sample.laterNews]).numbers = [2, 1, 2] ∧
    ¬ Sample.joinedJournal.NeverRepeats [.add Sample.laterNews] := by
  obtain ⟨-, hiff⟩ := never_repeats_iff Sample.ofFile_joinedFile [.add Sample.laterNews]
  refine ⟨Sample.ofFile_joinedFile, rfl, by decide +kernel, ?_⟩
  rw [hiff]
  rintro ⟨-, hsame | hbelow⟩
  · revert hsame
    decide +kernel
  · exact absurd (hbelow 2 (by decide)) (by decide)

/-- Not every file that is opened is one behind which the numbers never repeat, however small they
    are. -/
theorem Journal.numbers_repeat :
    ¬ ∀ (f : JournalFile) (j : Journal) (f' : JournalFile), ofFile f = (.ok j, f') →
      (∀ n ∈ j.numbers, n < Json.Number.maxNatural) → ∀ uses, j.NeverRepeats uses := by
  intro h
  have hnever := h _ _ _ Sample.ofFile_joinedFile (by decide) [.add Sample.laterNews]
  have hdistinct := hnever.distinct [.add Sample.laterNews] [] rfl
  revert hdistinct
  decide +kernel

end Subledger
