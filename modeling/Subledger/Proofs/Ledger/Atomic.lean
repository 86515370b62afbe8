/-
  ALL OR NOTHING: what becomes of a transaction, said without staging.

  Take a copy of the balances and post the moves straight into it, in their order, each out of its
  source and then into its destination.  If that works, the copy takes the place of the balances;
  if not, it is thrown away.  The book never makes such a copy, but it answers as if it did.

  1. **Wrong moves** (`firstViolation_eq_some_iff`) — the move that a refusal names is the first that
     breaks a rule, and the rule is the first of the three that it breaks.  No posting is made before
     all moves are looked at.
  2. **Overflows** (`postAll_eq_error_iff`) — the position that a refusal names is the first whose new
     balance cannot be held, as the postings before it have left the copy.
  3. **The verdict** (`Verdict`) — the four things that can become of a transaction, and that the
     book does just this (`execute_all_or_nothing`).
-/
import Subledger.Proofs.Ledger.Erasure

namespace Subledger

/-! ## Wrong moves

  The three rules in the order in which they are checked, and the moves in the order in which they
  stand. -/

/-- May this move be made?  It goes from one account to another, and both exist. -/
structure Move.IsRight (r : Registry) (m : Move) : Prop where
  other : m.source ≠ m.destination
  source : r.contains m.source = true
  destination : r.contains m.destination = true

/-- Which rule a move breaks.  The rules have an order; of those broken the first counts. -/
inductive Move.Breaks (r : Registry) (m : Move) : MoveViolation → Prop
  | selfTransfer (hself : m.source = m.destination) : Breaks r m (.selfTransfer m.source)
  | unknownSource (hother : m.source ≠ m.destination) (hsource : r.contains m.source = false) :
      Breaks r m (.unknownAccount .source m.source)
  | unknownDestination (hother : m.source ≠ m.destination)
      (hsource : r.contains m.source = true) (hdestination : r.contains m.destination = false) :
      Breaks r m (.unknownAccount .destination m.destination)

namespace Book

/-- A move passes the check exactly if it is right. -/
theorem violation?_eq_none_iff_isRight {r : Registry} {m : Move} :
    violation? r m = none ↔ m.IsRight r := by
  rw [violation?_eq_none_iff]
  exact ⟨fun h => ⟨h.1, h.2.1, h.2.2⟩, fun h => ⟨h.other, h.source, h.destination⟩⟩

/-- The check names the rule that is broken, and the first of several. -/
theorem violation?_eq_some_iff {r : Registry} {m : Move} {v : MoveViolation} :
    violation? r m = some v ↔ m.Breaks r v := by
  constructor
  · intro h
    unfold violation? at h
    split at h
    · rename_i hself
      obtain rfl := Option.some.inj h
      exact .selfTransfer hself
    · rename_i hother
      cases hsource : r.contains m.source <;> cases hdestination : r.contains m.destination <;>
        simp [hsource, hdestination] at h
      · exact h ▸ .unknownSource hother hsource
      · exact h ▸ .unknownSource hother hsource
      · exact h ▸ .unknownDestination hother hsource hdestination
  · rintro (hself | ⟨hother, hsource⟩ | ⟨hother, hsource, hdestination⟩)
    · rw [violation?, if_pos hself]
    · simp [violation?, hother, hsource]
    · simp [violation?, hother, hsource, hdestination]

/-- The first wrong move: the moves before it are right, and it breaks the rule that is named. -/
theorem firstViolation_eq_some_iff {r : Registry} {n i : Nat} {v : MoveViolation}
    {ms : List Move} : firstViolation r n ms = some (i, v) ↔
      ∃ before m after, ms = before ++ m :: after ∧ i = n + before.length ∧
        (∀ m' ∈ before, m'.IsRight r) ∧ m.Breaks r v := by
  induction ms generalizing n with
  | nil =>
    refine iff_of_false (by rintro ⟨⟩) ?_
    rintro ⟨before, m, after, hms, -⟩
    exact List.append_ne_nil_of_right_ne_nil before (List.cons_ne_nil m after) hms.symm
  | cons c ms ih =>
    rw [firstViolation]
    -- either `c` is the first wrong move, or it is one of those before it
    cases hc : violation? r c with
    | some w =>
      have hwrong := violation?_eq_some_iff.mp hc
      constructor
      · intro h
        obtain ⟨rfl, rfl⟩ := Prod.mk.inj (Option.some.inj h)
        exact ⟨[], c, ms, rfl, rfl, List.forall_mem_nil _, hwrong⟩
      · rintro ⟨before, m, after, hms, rfl, hright, hbreaks⟩
        rcases List.cons_eq_append_iff.mp hms with ⟨rfl, htail⟩ | ⟨before', rfl, -⟩
        · obtain ⟨rfl, rfl⟩ := List.cons.inj htail
          rw [violation?_eq_some_iff.mpr hbreaks] at hc
          obtain rfl := Option.some.inj hc
          rfl
        · rw [violation?_eq_none_iff_isRight.mpr (hright c List.mem_cons_self)] at hc
          cases hc
    | none =>
      have hfirst := violation?_eq_none_iff_isRight.mp hc
      show firstViolation r (n + 1) ms = some (i, v) ↔ _
      rw [ih]
      constructor
      · rintro ⟨before, m, after, rfl, rfl, hright, hbreaks⟩
        refine ⟨c :: before, m, after, rfl, ?_, List.forall_mem_cons.mpr ⟨hfirst, hright⟩, hbreaks⟩
        rw [List.length_cons]
        omega
      · rintro ⟨before, m, after, hms, rfl, hright, hbreaks⟩
        rcases List.cons_eq_append_iff.mp hms with ⟨rfl, htail⟩ | ⟨before', rfl, rfl⟩
        · obtain ⟨rfl, rfl⟩ := List.cons.inj htail
          rw [violation?_eq_some_iff.mpr hbreaks] at hc
          cases hc
        · refine ⟨before', m, after, rfl, ?_, (List.forall_mem_cons.mp hright).2, hbreaks⟩
          rw [List.length_cons]
          omega

/-- No move is wrong if all are right. -/
theorem firstViolation_eq_none_iff_isRight {r : Registry} {n : Nat} {ms : List Move} :
    firstViolation r n ms = none ↔ ∀ m ∈ ms, m.IsRight r := by
  rw [firstViolation_eq_none_iff]
  exact forall₂_congr fun m _ => violation?_eq_none_iff_isRight

/-! ## Overflows

  The copy is changed posting by posting, so which sum overflows depends on the postings before it,
  of the same transaction as well. -/

variable {id : TransactionId} {balances copy : Table Position Decimal} {ps : List Posting}

/-- The first posting that overflows: those before it went through. -/
theorem postAll_eq_error_iff {e : LedgerError} : postAll id balances ps = .error e ↔
    ∃ before p after copy, ps = before ++ p :: after ∧ postAll id balances before = .ok copy ∧
      (balanceIn copy p.position).add? p.amount = none ∧
      e = .overflow id p.position.account p.position.unit := by
  induction ps generalizing balances with
  | nil =>
    refine iff_of_false (by rintro ⟨⟩) ?_
    rintro ⟨before, p, after, _, hps, -⟩
    exact List.append_ne_nil_of_right_ne_nil before (List.cons_ne_nil p after) hps.symm
  | cons q ps ih =>
    -- as for the moves: `q` fails itself, or it went through before the one that does
    cases hq : (balanceIn balances q.position).add? q.amount with
    | none =>
      have hpost : postAll id balances (q :: ps)
          = .error (.overflow id q.position.account q.position.unit) := by
        rw [postAll, post, hq]
        rfl
      rw [hpost]
      constructor
      · intro h
        exact ⟨[], q, ps, balances, rfl, rfl, hq, (Except.error.inj h).symm⟩
      · rintro ⟨before, p, after, copy, hps, hbefore, -, rfl⟩
        rcases List.cons_eq_append_iff.mp hps with ⟨rfl, htail⟩ | ⟨before', rfl, -⟩
        · obtain ⟨rfl, rfl⟩ := List.cons.inj htail
          rfl
        · obtain ⟨y, hy, -⟩ := postAll_cons_eq_ok_iff.mp hbefore
          rw [hq] at hy
          cases hy
    | some y =>
      have hpost : ∀ rest, postAll id balances (q :: rest)
          = postAll id (balances.insert q.position y) rest := by
        intro rest
        rw [postAll, post, hq]
        rfl
      rw [hpost, ih]
      constructor
      · rintro ⟨before, p, after, copy, rfl, hbefore, hp, rfl⟩
        exact ⟨q :: before, p, after, copy, rfl, (hpost before).trans hbefore, hp, rfl⟩
      · rintro ⟨before, p, after, copy, hps, hbefore, hp, rfl⟩
        rcases List.cons_eq_append_iff.mp hps with ⟨rfl, htail⟩ | ⟨before', rfl, rfl⟩
        · obtain ⟨rfl, rfl⟩ := List.cons.inj htail
          obtain rfl := Except.ok.inj hbefore
          rw [hq] at hp
          cases hp
        · exact ⟨before', p, after, copy, rfl, (hpost before').symm.trans hbefore, hp, rfl⟩

/-- Postings leave the other rows alone. -/
theorem find?_postAll_of_untouched (h : postAll id balances ps = .ok copy) {p : Position}
    (hp : ∀ q ∈ ps, q.position ≠ p) : copy.find? p = balances.find? p := by
  induction ps generalizing balances with
  | nil =>
    obtain rfl := Except.ok.inj h
    rfl
  | cons q ps ih =>
    obtain ⟨hq, hrest⟩ := List.forall_mem_cons.mp hp
    obtain ⟨y, -, hmore⟩ := postAll_cons_eq_ok_iff.mp h
    rw [ih hmore hrest, Table.find?_insert_of_ne _ _ hq.symm]

/-! ## The verdict

  The four cases exclude each other, so the book's answer is determined by the case. -/

/-- What becomes of a transaction: what the book answers, and the book afterwards. -/
inductive Verdict (b : Book) (t : Transaction) : Answer → Book → Prop
  /-- Its name is known.  Nothing else is looked at. -/
  | known (hid : t.id ∈ b.applied) : Verdict b t (.executed .alreadyApplied) b
  /-- A move is wrong, and those before it are right. -/
  | wrong {before after : List Move} {m : Move} {v : MoveViolation} (hid : t.id ∉ b.applied)
      (hmoves : t.moves = before ++ m :: after) (hright : ∀ m' ∈ before, m'.IsRight b.registry)
      (hbreaks : m.Breaks b.registry v) :
      Verdict b t (.refused (.invalidMove t.id before.length v)) b
  /-- All moves are right, but on the way a new balance cannot be held. -/
  | overflow {before after : List Posting} {p : Posting} {copy : Table Position Decimal}
      (hid : t.id ∉ b.applied) (hright : ∀ m ∈ t.moves, m.IsRight b.registry)
      (hpostings : t.postings = before ++ p :: after)
      (hcopy : postAll t.id b.balances before = .ok copy)
      (hsum : (balanceIn copy p.position).add? p.amount = none) :
      Verdict b t (.refused (.overflow t.id p.position.account p.position.unit)) b
  /-- All moves are right and all postings go through. -/
  | applied {copy : Table Position Decimal} (hid : t.id ∉ b.applied)
      (hright : ∀ m ∈ t.moves, m.IsRight b.registry)
      (hcopy : postAll t.id b.balances t.postings = .ok copy) :
      Verdict b t (.executed .applied) ⟨b.registry, copy, t.id :: b.applied⟩

variable {b b' : Book} {t : Transaction}

/-- An answer that is no refusal goes with the book that it leaves. -/
theorem answer_of_ok {outcome : Outcome} (h : b.execute t = .ok (outcome, b')) :
    b.answer (.execute t) = .executed outcome ∧ b.step (.execute t) = b' := by
  rw [answer, step, h]
  exact ⟨rfl, rfl⟩

/-- A refusal leaves the book as it was. -/
theorem answer_of_error {e : LedgerError} (h : b.execute t = .error e) :
    b.answer (.execute t) = .refused e ∧ b.step (.execute t) = b := by
  rw [answer, step, h]
  exact ⟨rfl, rfl⟩

/-- The book has a verdict on every transaction. -/
theorem verdict_execute (b : Book) (t : Transaction) :
    Verdict b t (b.answer (.execute t)) (b.step (.execute t)) := by
  cases hexec : b.execute t with
  | error e =>
    obtain ⟨hanswer, hstep⟩ := answer_of_error hexec
    rw [hanswer, hstep]
    obtain ⟨hnew, hcause⟩ := execute_error_iff.mp hexec
    rw [isApplied_eq_false_iff] at hnew
    rcases hcause with ⟨i, v, hfirst, rfl⟩ | ⟨hright, hpost⟩
    · obtain ⟨before, m, after, hmoves, rfl, hright, hbreaks⟩ := firstViolation_eq_some_iff.mp hfirst
      rw [Nat.zero_add]
      exact .wrong hnew hmoves hright hbreaks
    · obtain ⟨before, p, after, copy, hpostings, hcopy, hsum, rfl⟩ := postAll_eq_error_iff.mp hpost
      exact .overflow hnew (firstViolation_eq_none_iff_isRight.mp hright) hpostings hcopy hsum
  | ok result =>
    obtain ⟨outcome, b'⟩ := result
    obtain ⟨hanswer, hstep⟩ := answer_of_ok hexec
    rw [hanswer, hstep]
    cases outcome with
    | applied =>
      obtain ⟨hnew, hright, copy, hcopy, rfl⟩ := execute_applied_iff.mp hexec
      exact .applied (isApplied_eq_false_iff.mp hnew)
        (firstViolation_eq_none_iff_isRight.mp hright) hcopy
    | alreadyApplied =>
      obtain ⟨hknown, rfl⟩ := execute_alreadyApplied_iff.mp hexec
      exact .known (isApplied_iff.mp hknown)

/-- There is one verdict only, the book's. -/
theorem Verdict.eq_execute {a : Answer} (h : Verdict b t a b') :
    b.answer (.execute t) = a ∧ b.step (.execute t) = b' := by
  cases h with
  | known hid =>
    exact answer_of_ok (execute_of_mem hid)
  | @wrong before after m v hid hmoves hright hbreaks =>
    have hfirst : firstViolation b.registry 0 t.moves = some (before.length, v) :=
      firstViolation_eq_some_iff.mpr
        ⟨before, m, after, hmoves, (Nat.zero_add _).symm, hright, hbreaks⟩
    exact answer_of_error (execute_error_iff.mpr
      ⟨isApplied_eq_false_iff.mpr hid, Or.inl ⟨_, _, hfirst, rfl⟩⟩)
  | @overflow before after p copy hid hright hpostings hcopy hsum =>
    have hpost : postAll t.id b.balances t.postings
        = .error (.overflow t.id p.position.account p.position.unit) :=
      postAll_eq_error_iff.mpr ⟨before, p, after, copy, hpostings, hcopy, hsum, rfl⟩
    exact answer_of_error (execute_error_iff.mpr ⟨isApplied_eq_false_iff.mpr hid,
      Or.inr ⟨firstViolation_eq_none_iff_isRight.mpr hright, hpost⟩⟩)
  | applied hid hright hcopy =>
    exact answer_of_ok (execute_applied_iff.mpr ⟨isApplied_eq_false_iff.mpr hid,
      firstViolation_eq_none_iff_isRight.mpr hright, _, hcopy, rfl⟩)

/-- A refusal leaves the book as it was, and the caller can mend it. -/
theorem Verdict.refused {e : LedgerError} (h : Verdict b t (.refused e) b') :
    e.isValidation = true ∧ b' = b := by
  cases h with
  | wrong => exact ⟨rfl, rfl⟩
  | overflow => exact ⟨rfl, rfl⟩

/-- Rows that no move touches stay as they are. -/
theorem Verdict.find?_of_untouched {a : Answer} (h : Verdict b t a b') {p : Position}
    (hp : ∀ q ∈ t.postings, q.position ≠ p) : b'.balances.find? p = b.balances.find? p := by
  cases h with
  | known => rfl
  | wrong => rfl
  | overflow => rfl
  | applied hid hright hcopy => exact find?_postAll_of_untouched hcopy hp

/-- **A transaction is applied as a whole or not at all.**  The book answers every transaction, and
    is left, as if it posted the moves one after the other into a copy of its balances: the verdict
    is the book's, and no other.  Whatever is refused leaves the whole book as it was and can be
    mended by the caller, and rows that no move touches stay as they are in any case. -/
theorem execute_all_or_nothing (b : Book) (t : Transaction) :
    (∀ a b', Verdict b t a b' ↔ b.answer (.execute t) = a ∧ b.step (.execute t) = b') ∧
    (∀ e, b.answer (.execute t) = .refused e →
      e.isValidation = true ∧ b.step (.execute t) = b) ∧
    ∀ p, (∀ q ∈ t.postings, q.position ≠ p) →
      (b.step (.execute t)).balances.find? p = b.balances.find? p := by
  have hverdict := verdict_execute b t
  refine ⟨fun a b' => ⟨Verdict.eq_execute, ?_⟩, fun e he => ?_, fun p hp => ?_⟩
  · rintro ⟨rfl, rfl⟩
    exact hverdict
  · rw [he] at hverdict
    exact hverdict.refused
  · exact hverdict.find?_of_untouched hp

end Book

open Sample in
/-- Alice has the largest amount and is to get more, but the second move is wrong: that counts. -/
example : ((Book.ofRegistry registry).run crowdedRun).answer (.execute
      ⟨thirdId, .epoch, [⟨bob, alice, euro, two, contract⟩, ⟨dave, dave, euro, two, contract⟩],
        List.cons_ne_nil _ _⟩)
    = .refused (.invalidMove thirdId 1 (.selfTransfer dave)) := by decide

end Subledger
