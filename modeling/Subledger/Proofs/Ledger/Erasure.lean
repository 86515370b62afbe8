/-
  ERASURE: what a run would have been without the calls of which nothing came.

  A call that is refused, a transaction that was applied before and an account that was registered
  before leave the book as it was.  So all of them may be struck out of a run: no later call is
  answered otherwise, and the run ends in the same book.

  1. **Answers** — `answer` is what a caller is told, `answers` the same for the calls of a run, each
     in the book it finds.
  2. **The crux** (`step_of_not_isEffect`) — from the answer alone one can tell that nothing changed.
  3. **The run** (`effective_run`) — by induction, striking out one call at a time.  The book is the
     same before every later call, whatever that call is.
  4. **Names** (`count_applied`, `answer_of_applied`) — each answer that says "applied" is one more
     name that the book knows, and a known name is never applied again.
-/
import Subledger.Proofs.Ledger.Registry
import Subledger.Proofs.Ledger.Run

namespace Subledger.Book

/-! ## Answers -/

/-- What a caller is told. -/
inductive Answer where
  | registered (done : Registration)
  | executed (outcome : Outcome)
  | refused (cause : LedgerError)
  deriving DecidableEq

/-- Does the answer tell that something came of the call: an account created, or a transaction
    applied? -/
def Answer.isEffect : Answer → Bool
  | .registered .created => true
  | .registered .unchanged => false
  | .executed .applied => true
  | .executed .alreadyApplied => false
  | .refused _ => false

/-- What a book answers to a call. -/
def answer (b : Book) : Call → Answer
  | .register a =>
    match b.register a with
    | .ok (done, _) => .registered done
    | .error cause => .refused cause
  | .execute t =>
    match b.execute t with
    | .ok (outcome, _) => .executed outcome
    | .error cause => .refused cause

/-- The answers to the calls of a run. -/
def answers (b : Book) : List Call → List Answer
  | [] => []
  | c :: cs => b.answer c :: (b.step c).answers cs

/-- The calls of a run of which something came; the others are struck out. -/
def effective (b : Book) : List Call → List Call
  | [] => []
  | c :: cs =>
    if (b.answer c).isEffect then c :: (b.step c).effective cs else (b.step c).effective cs

/-! ## Calls of which nothing came -/

theorem register_unchanged {b b' : Book} {a : Account} (h : b.register a = .ok (.unchanged, b')) :
    b' = b := by
  rcases b.registry.register_cases a with ⟨-, hcall⟩ | ⟨-, hcall⟩ | ⟨type, -, -, hcall⟩ <;>
    rw [register, hcall] at h
  · cases (Prod.mk.inj (Except.ok.inj h)).1
  · exact (Prod.mk.inj (Except.ok.inj h)).2.symm
  · cases h

/-- If nothing came of a call, the book is what it was. -/
theorem step_of_not_isEffect {b : Book} {c : Call} (h : (b.answer c).isEffect = false) :
    b.step c = b := by
  cases c with
  | register a =>
    rw [answer] at h
    rw [step]
    cases hr : b.register a with
    | error cause => rfl
    | ok p =>
      obtain ⟨done, b'⟩ := p
      rw [hr] at h
      cases done with
      | created => cases h
      | unchanged => exact register_unchanged hr
  | execute t =>
    rw [answer] at h
    rw [step]
    cases hexec : b.execute t with
    | error cause => rfl
    | ok p =>
      obtain ⟨outcome, b'⟩ := p
      rw [hexec] at h
      cases outcome with
      | applied => cases h
      | alreadyApplied => exact (execute_alreadyApplied_iff.mp hexec).2

/-- The calls that are left are answered as they were, and lead to the same book. -/
theorem effective_run (b : Book) (cs : List Call) :
    b.answers (b.effective cs) = (b.answers cs).filter Answer.isEffect ∧
      b.run (b.effective cs) = b.run cs := by
  induction cs generalizing b with
  | nil => exact ⟨rfl, rfl⟩
  | cons c cs ih =>
    obtain ⟨hanswers, hrun⟩ := ih (b.step c)
    rw [effective, answers]
    cases hc : (b.answer c).isEffect with
    | true =>
      rw [if_pos rfl, answers, hanswers, List.filter_cons_of_pos hc]
      exact ⟨rfl, hrun⟩
    | false =>
      rw [step_of_not_isEffect hc] at hanswers hrun ⊢
      rw [if_neg Bool.false_ne_true, List.filter_cons_of_neg (by rw [hc]; exact Bool.false_ne_true)]
      refine ⟨hanswers, ?_⟩
      rw [hrun, run, run, List.foldl_cons, step_of_not_isEffect hc]

/-! ## Names -/

theorem answer_eq_applied_iff {b : Book} {c : Call} :
    b.answer c = .executed .applied ↔ ∃ t, b.accepts c = some t := by
  cases c with
  | register a =>
    refine iff_of_false ?_ (by rintro ⟨_, ⟨⟩⟩)
    rw [answer]
    cases b.register a <;> rintro ⟨⟩
  | execute t =>
    rw [answer, accepts]
    cases b.execute t with
    | error cause => exact iff_of_false (by rintro ⟨⟩) (by rintro ⟨_, ⟨⟩⟩)
    | ok p =>
      obtain ⟨outcome, b'⟩ := p
      cases outcome with
      | applied => exact iff_of_true rfl ⟨t, rfl⟩
      | alreadyApplied => exact iff_of_false (by rintro ⟨⟩) (by rintro ⟨_, ⟨⟩⟩)

/-- There are as many answers that say "applied" as transactions that were applied. -/
theorem count_applied (b : Book) (cs : List Call) :
    (b.answers cs).count (.executed .applied) = (b.accepted cs).length := by
  induction cs generalizing b with
  | nil => rfl
  | cons c cs ih =>
    rw [answers, accepted, List.length_append, List.count_cons, ih, Nat.add_comm]
    congr 1
    cases hc : b.accepts c with
    | some t => rw [if_pos (beq_iff_eq.mpr (answer_eq_applied_iff.mpr ⟨t, hc⟩))]; rfl
    | none =>
      rw [if_neg, Option.toList_none, List.length_nil]
      intro h
      obtain ⟨t, ht⟩ := answer_eq_applied_iff.mp (beq_iff_eq.mp h)
      rw [hc] at ht
      cases ht

/-- A known name is answered as applied before, whatever comes under it. -/
theorem answer_of_applied {b : Book} {t : Transaction} (h : t.id ∈ b.applied) :
    b.answer (.execute t) = .executed .alreadyApplied := by
  rw [answer, execute_of_mem h]

/-- What was applied on the way is known at the end. -/
theorem mem_applied_of_answer {b : Book} {done later : List Call} {t : Transaction}
    (h : (b.run done).answer (.execute t) = .executed .applied) :
    t.id ∈ (b.run (done ++ .execute t :: later)).applied := by
  obtain ⟨s, hs⟩ := answer_eq_applied_iff.mp h
  obtain ⟨hcall, -⟩ := accepts_eq_some_iff.mp hs
  obtain rfl := Call.execute.inj hcall
  rw [applied_run, accepted_append, accepted, hs, Option.toList_some]
  refine List.mem_append_left _ (List.mem_reverse.mpr (List.mem_map_of_mem ?_))
  exact List.mem_append_right _ List.mem_cons_self

/-! ## The result -/

/-- **Calls of which nothing came leave no trace.**  Strike out of any run, from any book, the calls
    that were refused or answered with "applied before" or "registered before": the others are
    answered as they were, and the run ends in the same book.  No two transactions are applied under
    one name, the book counts one more for each answer that says "applied", and once a name was
    applied every transaction under it is answered with "applied before". -/
theorem ineffective_calls_leave_no_trace (b : Book) (cs : List Call) :
    (b.answers (b.effective cs) = (b.answers cs).filter Answer.isEffect ∧
      b.run (b.effective cs) = b.run cs) ∧
    ((b.accepted cs).map Transaction.id).Nodup ∧
    (b.run cs).appliedCount = b.appliedCount + (b.answers cs).count (.executed .applied) ∧
    ∀ done t later, cs = done ++ .execute t :: later →
      (b.run done).answer (.execute t) = .executed .applied →
      ∀ u : Transaction, u.id = t.id →
        (b.run cs).answer (.execute u) = .executed .alreadyApplied := by
  refine ⟨effective_run b cs, (accepted_new b cs).1, ?_, ?_⟩
  · rw [appliedCount, applied_run, List.length_append, List.length_reverse, List.length_map,
      count_applied, Nat.add_comm]
    rfl
  · rintro done t later rfl happlied u hu
    refine answer_of_applied ?_
    rw [hu]
    exact mem_applied_of_answer happlied

example : (ofRegistry Sample.registry).answers Sample.ordinaryRun
    = [.registered .unchanged, .executed .applied, .executed .alreadyApplied, .executed .applied,
      .refused (.invalidMove Sample.thirdId 0 (.selfTransfer Sample.alice))] := by decide

end Subledger.Book
