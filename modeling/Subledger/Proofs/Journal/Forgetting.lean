/-
  FORGETTING: a journal file without the lines that tell of later things.

  Lines are taken out of a file from outside, and the file is opened again.

  1. **Sorting a part** (`filter_mergeSort`) — sorting keeps records of one instant and one number in
     the order of adding, so the replay of a part of the journal is that part of its replay
     (`Index.replay_filter`).  Such ties are there: the numbers of a file are whatever it says.
  2. **The file** (`JournalFile.forget`) — a file without some of its lines is opened, and the journal
     is what it was but for their records (`load_forget`).  Where a transaction stands on two lines
     this fails: without the first line the second would count.
-/
import Subledger.Proofs.Journal.Legible

namespace Subledger

/-! ## Sorting a part

  Replay sorts by a relation that is total and transitive, and a stable sort is determined by
  that.  So leaving records out and sorting may be done in either order. -/

section Sorting

variable {α : Type} {le : α → α → Bool}

/-- A list is cut in one way only into a part that `q` refuses and a part that it takes. -/
theorem eq_of_cut {q : α → Bool} {xs ys us vs : List α} (h : xs ++ ys = us ++ vs)
    (hxs : ∀ b ∈ xs, q b = false) (hys : ∀ b ∈ ys, q b = true) (hus : ∀ b ∈ us, q b = false)
    (hvs : ∀ b ∈ vs, q b = true) : xs = us ∧ ys = vs := by
  have hcut : ∀ {zs ws : List α}, (∀ b ∈ zs, q b = false) → (∀ b ∈ ws, q b = true) →
      (zs ++ ws).filter q = ws := by
    intro zs ws hzs hws
    have hnone : zs.filter q = [] := by
      apply List.filter_eq_nil_iff.mpr
      intro b hb
      rw [hzs b hb]
      decide
    rw [List.filter_append, hnone, List.filter_eq_self.mpr hws, List.nil_append]
  have hback : ys = vs := by rw [← hcut hxs hys, h, hcut hus hvs]
  subst hback
  exact ⟨List.append_cancel_right h, rfl⟩

/-- **The sorted part is the part of the sorted list.** -/
theorem filter_mergeSort (trans : ∀ a b c, le a b = true → le b c = true → le a c = true)
    (total : ∀ a b, (le a b || le b a) = true) (p : α → Bool) (l : List α) :
    (l.mergeSort le).filter p = (l.filter p).mergeSort le := by
  induction l with
  | nil => rw [List.mergeSort_nil, List.filter_nil, List.mergeSort_nil]
  | cons a l ih =>
    obtain ⟨front, back, hall, hrest, hfront⟩ := List.mergeSort_cons trans total a l
    rw [hrest, List.filter_append] at ih
    rw [hall, List.filter_append]
    by_cases ha : p a = true
    · rw [List.filter_cons_of_pos ha, List.filter_cons_of_pos ha]
      obtain ⟨front', back', hall', hrest', hfront'⟩ :=
        List.mergeSort_cons trans total a (l.filter p)
      rw [hrest'] at ih
      -- `a` stands in front of the first element that it may precede, in both lists
      have hbehind : ∀ {us vs ws : List α}, ws.mergeSort le = us ++ a :: vs →
          ∀ b ∈ vs, le a b = true := by
        intro us vs ws hws b hb
        have hsorted := List.pairwise_mergeSort trans total ws
        rw [hws] at hsorted
        exact (List.pairwise_cons.mp (List.pairwise_append.mp hsorted).2.1).1 b hb
      have hbefore : ∀ b ∈ front.filter p, le a b = false := by
        intro b hb
        exact Bool.not_eq_true' _ |>.mp (hfront b (List.mem_filter.mp hb).1)
      have hafter : ∀ b ∈ back.filter p, le a b = true := by
        intro b hb
        exact hbehind hall b (List.mem_filter.mp hb).1
      have hbefore' : ∀ b ∈ front', le a b = false := by
        intro b hb
        exact Bool.not_eq_true' _ |>.mp (hfront' b hb)
      obtain ⟨hleft, hright⟩ := eq_of_cut ih hbefore hafter hbefore' (hbehind hall')
      rw [hall', hleft, hright]
    · rw [List.filter_cons_of_neg ha, List.filter_cons_of_neg ha]
      exact ih

end Sorting

/-- The replay of a part of the journal is that part of its replay. -/
theorem Index.replay_filter (x : Index) (p : Record → Bool) :
    (⟨x.records.filter p⟩ : Index).replay = x.replay.filter p :=
  (filter_mergeSort Record.replaysBefore_trans Record.replaysBefore_total p x.records).symm

/-- What was known at an instant is replayed as if there were nothing else. -/
theorem Index.replayAsOf_known (x : Index) (t : Instant) :
    (⟨x.records.filter fun r => r.envelope.knownAt t⟩ : Index).replayAsOf t = x.replayAsOf t := by
  rw [replayAsOf, replayAsOf, replay_filter, List.filter_filter]
  simp only [Bool.and_self]

/-! ## The file

  A line that tells of nothing later than `t` stays, with its newline; a line of a record that
  became known after `t` goes.  The numbers stay as they are, and so does the order. -/

/-- Does a line tell of nothing that became known after `t`? -/
def isKnownLine (t : Instant) (line : List UInt8) : Bool :=
  (recordOfLine? line).all fun r => r.envelope.knownAt t

/-- The records of the lines that are left are those that were known. -/
theorem filterMap_isKnownLine (t : Instant) (lines : List (List UInt8)) :
    (lines.filter (isKnownLine t)).filterMap recordOfLine?
      = (lines.filterMap recordOfLine?).filter fun r => r.envelope.knownAt t := by
  rw [List.filter_filterMap, List.filterMap_filter]
  apply List.filterMap_congr
  intro line _
  rw [isKnownLine]
  cases recordOfLine? line with
  | none => rfl
  | some r =>
    show (if r.envelope.knownAt t = true then some r else none) = (some r).filter _
    rw [Option.filter_some]

namespace JournalFile

/-- The file without all lines whose records became known after `t`; a torn last line stays. -/
def forget (f : JournalFile) (t : Instant) : JournalFile :=
  match f.state with
  | .regular bs =>
    { f with state := .regular (joinLines ((cutLines bs).1.filter (isKnownLine t)) ++
      (cutLines bs).2) }
  | _ => f

/-- The lines that are left are those that were known, and the torn one. -/
theorem cutLines_forget (f : JournalFile) (t : Instant) : cutLines (f.forget t).content
    = ((cutLines f.content).1.filter (isKnownLine t), (cutLines f.content).2) := by
  obtain ⟨state, limit⟩ := f
  cases state with
  | absent => rfl
  | unusable cause => rfl
  | regular bs =>
    obtain ⟨hlines, htorn⟩ := newline_not_mem_cutLines bs
    apply cutLines_joinLines _ htorn
    intro line hline
    exact hlines line (List.mem_filter.mp hline).1

/-- The records that are left are those that were known. -/
theorem recorded_forget (f : JournalFile) (t : Instant) :
    (f.forget t).recorded = f.recorded.filter fun r => r.envelope.knownAt t := by
  rw [recorded, cutLines_forget, filterMap_isKnownLine]
  rfl

/-- A file that could be read can be read when lines are left out. -/
theorem usable_forget {f : JournalFile} (h : ∀ cause, f.state ≠ .unusable cause) (t : Instant) :
    ∀ cause, (f.forget t).state ≠ .unusable cause := by
  obtain ⟨state, limit⟩ := f
  cases state with
  | absent => exact absent_usable
  | regular bytes => exact regular_usable _
  | unusable cause => exact absurd rfl (h cause)

/-- **A file of which lines were taken out is opened**, and the journal lacks their records only. -/
theorem load_forget {f : JournalFile} {x : Index} (h : f.load.1 = .ok x)
    (hdistinct : (f.recorded.map Record.id).Nodup) (t : Instant) :
    (f.forget t).load.1 = .ok ⟨x.records.filter fun r => r.envelope.knownAt t⟩ := by
  have husable := usable_of_load h
  have hleft := f.recorded_forget t
  rw [load_of_usable husable] at h
  obtain ⟨hlegible, rfl⟩ := (Index.load_eq_ok_iff (x := .empty) hdistinct 1).mp h
  rw [load_of_usable (usable_forget husable t)]
  apply (Index.load_eq_ok_iff (x := .empty) ?_ 1).mpr
  · refine ⟨?_, congrArg Index.mk hleft.symm⟩
    intro line hline
    rw [cutLines_forget] at hline
    exact hlegible line (List.mem_filter.mp hline).1
  · show ((f.forget t).recorded.map Record.id).Nodup
    rw [hleft]
    exact hdistinct.sublist (List.filter_sublist.map Record.id)

end JournalFile

end Subledger
