/-
  RUNS of a book: registrations and transactions one after the other.

  1. **The run** — `Book.step` is a book after one call, whatever the call answers; `Book.run` after
     many.  A book that such a run reaches from `Book.ofRegistry` is a reachable one.
  2. **What a call can do** (`step_cases`) — it applies one transaction, or it leaves the balances
     and the names of the applied transactions alone.
  3. **The history** — `Book.accepted` lists the transactions that a run applies.  They have
     different names (`nodup_accepted`), and their names are what the book remembers
     (`applied_run`).

  Properties of all reachable books are proved by one induction over the run, and each step of such
  an induction starts from `step_cases`.
-/
import Subledger.Proofs.Ledger.Posting

namespace Subledger.Book

/-- A call that may change a book. -/
inductive Call where
  | register (account : Account)
  | execute (transaction : Transaction)

/-- A book after a call; one that is refused leaves it as it was. -/
def step (b : Book) : Call → Book
  | .register a =>
    match b.register a with
    | .ok (_, b') => b'
    | .error _ => b
  | .execute t =>
    match b.execute t with
    | .ok (_, b') => b'
    | .error _ => b

/-- A book after some calls. -/
def run (b : Book) (cs : List Call) : Book := cs.foldl step b

/-- The transaction that a call applies, if it applies one. -/
def accepts (b : Book) : Call → Option Transaction
  | .register _ => none
  | .execute t =>
    match b.execute t with
    | .ok (.applied, _) => some t
    | _ => none

/-- The transactions that some calls apply, in order. -/
def accepted (b : Book) : List Call → List Transaction
  | [] => []
  | c :: cs => (b.accepts c).toList ++ (b.step c).accepted cs

/-- The transactions of some calls, applied or not. -/
def submitted : List Call → List Transaction
  | [] => []
  | .register _ :: cs => submitted cs
  | .execute t :: cs => t :: submitted cs

/-! ## One call

  What a call does is read off its verdict: there is one verdict under which balances move, and it
  names the transaction that was applied. -/

/-- A transaction counts as applied if the book says so; a repetition that is only acknowledged does
    not. -/
theorem accepts_eq_some_iff {b : Book} {c : Call} {t : Transaction} :
    b.accepts c = some t ↔ c = .execute t ∧ b.execute t = .ok (.applied, b.step c) := by
  cases c with
  | register a => exact iff_of_false (fun h => nomatch h) (fun h => nomatch h.1)
  | execute t' =>
    rw [accepts, step, Call.execute.injEq]
    constructor
    · intro h
      split at h
      · rename_i b' heq
        obtain rfl := Option.some.inj h
        exact ⟨rfl, by rw [heq]⟩
      · exact nomatch h
    · rintro ⟨rfl, h⟩
      rw [h]

/-- A registration moves no balance and makes the book forget no transaction. -/
theorem balances_register {b b' : Book} {a : Account} {done : Registration}
    (h : b.register a = .ok (done, b')) : b'.balances = b.balances ∧ b'.applied = b.applied := by
  unfold register at h
  cases hr : b.registry.register a with
  | error e =>
    rw [hr] at h
    exact nomatch h
  | ok p =>
    rw [hr] at h
    obtain ⟨-, rfl⟩ := Prod.mk.inj (Except.ok.inj h)
    exact ⟨rfl, rfl⟩

/-- A call applies a transaction, or leaves balances and names alone. -/
theorem step_cases (b : Book) (c : Call) :
    (b.accepts c = none ∧ (b.step c).balances = b.balances ∧ (b.step c).applied = b.applied) ∨
      ∃ t, c = .execute t ∧ b.accepts c = some t ∧ b.execute t = .ok (.applied, b.step c) := by
  cases c with
  | register a =>
    refine Or.inl ⟨rfl, ?_⟩
    rw [step]
    split
    · rename_i heq
      exact balances_register heq
    · exact ⟨rfl, rfl⟩
  | execute t =>
    cases h : b.execute t with
    | error e =>
      refine Or.inl ⟨by rw [accepts, h], ?_⟩
      rw [step, h]
      exact ⟨rfl, rfl⟩
    | ok p =>
      obtain ⟨o, b'⟩ := p
      cases o with
      | applied => exact Or.inr ⟨t, rfl, by rw [accepts, h], by rw [step, h]⟩
      | alreadyApplied =>
        obtain ⟨-, rfl⟩ := execute_alreadyApplied_iff.mp h
        refine Or.inl ⟨by rw [accepts, h], ?_⟩
        rw [step, h]
        exact ⟨rfl, rfl⟩

/-- What is applied was not known before, and is from then on. -/
theorem applied_of_accepts {b : Book} {c : Call} {t : Transaction} (h : b.accepts c = some t) :
    (b.step c).applied = t.id :: b.applied ∧ t.id ∉ b.applied := by
  obtain ⟨-, hexec⟩ := accepts_eq_some_iff.mp h
  obtain ⟨hnew, -, balances, -, hb'⟩ := execute_applied_iff.mp hexec
  refine ⟨by rw [hb'], ?_⟩
  exact isApplied_eq_false_iff.mp hnew

/-! ## Many calls

  The applied transactions of a history, in order, are its trace.  Balances and remembered names are
  functions of the trace, so the proofs about reachable books are inductions over it. -/

/-- A history goes on from the book it has reached. -/
theorem run_append (b : Book) (cs ds : List Call) : b.run (cs ++ ds) = (b.run cs).run ds :=
  List.foldl_append

theorem run_concat (b : Book) (cs : List Call) (c : Call) :
    b.run (cs ++ [c]) = (b.run cs).step c := run_append b cs [c]

/-- What a history applies is what its beginning does, and what the rest does from there. -/
theorem accepted_append (b : Book) (cs ds : List Call) :
    b.accepted (cs ++ ds) = b.accepted cs ++ (b.run cs).accepted ds := by
  induction cs generalizing b with
  | nil => rfl
  | cons c cs ih => rw [List.cons_append, accepted, accepted, ih, List.append_assoc]; rfl

/-- One more call adds at most one transaction to the trace. -/
theorem accepted_concat (b : Book) (cs : List Call) (c : Call) :
    b.accepted (cs ++ [c]) = b.accepted cs ++ ((b.run cs).accepts c).toList := by
  rw [accepted_append, accepted, accepted, List.append_nil]

theorem submitted_append (cs ds : List Call) :
    submitted (cs ++ ds) = submitted cs ++ submitted ds := by
  induction cs with
  | nil => rfl
  | cons c cs ih =>
    cases c with
    | register a => exact ih
    | execute t => exact congrArg (List.cons t) ih

/-- What is applied was submitted. -/
theorem accepted_subset_submitted (b : Book) (cs : List Call) :
    b.accepted cs ⊆ submitted cs := by
  induction cs generalizing b with
  | nil => exact List.Subset.refl _
  | cons c cs ih =>
    intro t ht
    rcases List.mem_append.mp ht with hnow | hlater
    · obtain ⟨rfl, -⟩ := accepts_eq_some_iff.mp (Option.mem_toList.mp hnow)
      exact List.mem_cons_self
    · have hmem := ih _ hlater
      cases c with
      | register a => exact hmem
      | execute t' => exact List.mem_cons_of_mem _ hmem

/-- A book remembers the names of what was applied, the latest first. -/
theorem applied_run (b : Book) (cs : List Call) :
    (b.run cs).applied = ((b.accepted cs).map Transaction.id).reverse ++ b.applied := by
  induction cs using List.reverseRecOn with
  | nil => rfl
  | append_singleton cs c ih =>
    rw [run_concat, accepted_concat]
    rcases step_cases (b.run cs) c with ⟨hnone, -, happlied⟩ | ⟨t, -, hsome, -⟩
    · rw [hnone, happlied, ih, Option.toList_none, List.append_nil]
    · rw [hsome, (applied_of_accepts hsome).1, ih, Option.toList_some, List.map_append,
        List.reverse_append]
      rfl

/-- What was applied is not applied again. -/
theorem execute_run_of_accepted {b : Book} {cs : List Call} {t : Transaction}
    (h : t ∈ b.accepted cs) : (b.run cs).execute t = .ok (.alreadyApplied, b.run cs) := by
  refine execute_of_mem ?_
  rw [applied_run]
  exact List.mem_append_left _ (List.mem_reverse.mpr (List.mem_map_of_mem h))

/-- No two applied transactions have one name. -/
theorem nodup_applied_run {b : Book} (hb : b.applied.Nodup) (cs : List Call) :
    (b.run cs).applied.Nodup := by
  induction cs using List.reverseRecOn with
  | nil => exact hb
  | append_singleton cs c ih =>
    rw [run_concat]
    rcases step_cases (b.run cs) c with ⟨-, -, happlied⟩ | ⟨t, -, hsome, -⟩
    · rw [happlied]
      exact ih
    · rw [(applied_of_accepts hsome).1]
      exact List.nodup_cons.mpr ⟨(applied_of_accepts hsome).2, ih⟩

/-- What some calls apply has names that were not applied before, each once. -/
theorem accepted_new (b : Book) (cs : List Call) :
    ((b.accepted cs).map Transaction.id).Nodup ∧ ∀ t ∈ b.accepted cs, t.id ∉ b.applied := by
  induction cs generalizing b with
  | nil => exact ⟨List.nodup_nil, fun t ht => absurd ht List.not_mem_nil⟩
  | cons c cs ih =>
    obtain ⟨hnodup, hnew⟩ := ih (b.step c)
    rw [accepted]
    rcases step_cases b c with ⟨hnone, -, happlied⟩ | ⟨t, -, hsome, -⟩
    · rw [hnone, Option.toList_none, List.nil_append]
      exact ⟨hnodup, happlied ▸ hnew⟩
    · obtain ⟨happlied, hfirst⟩ := applied_of_accepts hsome
      rw [happlied] at hnew
      rw [hsome, Option.toList_some, List.singleton_append, List.map_cons, List.forall_mem_cons]
      refine ⟨List.nodup_cons.mpr ⟨?_, hnodup⟩, hfirst, ?_⟩
      · intro hmem
        obtain ⟨s, hs, hid⟩ := List.mem_map.mp hmem
        exact hnew s hs (hid ▸ List.mem_cons_self)
      · intro s hs hold
        exact hnew s hs (List.mem_cons_of_mem _ hold)

/-- No two applied transactions have one name: a repetition is never applied again. -/
theorem nodup_accepted (r : Registry) (cs : List Call) :
    (((ofRegistry r).accepted cs).map Transaction.id).Nodup := (accepted_new (ofRegistry r) cs).1

end Subledger.Book

/-! ## A sample ledger

  Four accounts, one unit, and transfers of one move each; enough to show where a property of all
  runs stops. -/

namespace Subledger.Sample

def alice : AccountId := ⟨"alice", by decide⟩
def bob : AccountId := ⟨"bob", by decide⟩
def carol : AccountId := ⟨"carol", by decide⟩
def dave : AccountId := ⟨"dave", by decide⟩
def euro : UnitId := ⟨"EUR", by decide⟩
def contract : ContractId := ⟨"contract", by decide⟩
def firstId : TransactionId := ⟨"first", by decide⟩
def secondId : TransactionId := ⟨"second", by decide⟩
def thirdId : TransactionId := ⟨"third", by decide⟩

/-- The four accounts. -/
def registry : Registry :=
  ⟨.ofList [(alice, .cash), (bob, .cash), (carol, .cash), (dave, .cash)]⟩

/-- The largest amount that there is, `2^96 - 1`. -/
def largest : Quantity :=
  ⟨⟨false, 79228162514264337593543950335, 0, by decide, Decimal.zero.scale_le⟩, by decide,
    by decide⟩

/-- One transfer of euros. -/
def transfer (id : TransactionId) (source destination : AccountId) (q : Quantity) : Transaction :=
  ⟨id, .epoch, [⟨source, destination, euro, q, contract⟩], List.cons_ne_nil _ _⟩

/-- `0.3`. -/
def threeTenths : Quantity := ⟨⟨false, 3, 1, by decide, by decide⟩, by decide, by decide⟩

/-- `2`. -/
def two : Quantity := ⟨⟨false, 2, 0, by decide, Decimal.zero.scale_le⟩, by decide, by decide⟩

/-- Two transfers at once: Bob gets three tenths and gives two. -/
def passingOn : Transaction where
  id := secondId
  timestamp := .epoch
  moves := [⟨alice, bob, euro, threeTenths, contract⟩, ⟨bob, carol, euro, two, contract⟩]
  moves_ne := List.cons_ne_nil _ _

/-- A transfer, the same again, two transfers at once, and one that is refused. -/
def ordinaryRun : List Book.Call :=
  [.register ⟨alice, .cash⟩,
    .execute (transfer firstId alice bob threeTenths),
    .execute (transfer firstId alice bob threeTenths),
    .execute passingOn,
    .execute (transfer thirdId alice alice two)]

/-- The largest amount goes from Carol to Alice, and three tenths go from Bob to Alice. -/
def roundingRun : List Book.Call :=
  [.execute (transfer firstId carol alice largest),
    .execute (transfer secondId bob alice threeTenths)]

/-- The largest amount goes from Carol to Alice, and as much from Dave to Bob. -/
def crowdedRun : List Book.Call :=
  [.execute (transfer firstId carol alice largest),
    .execute (transfer secondId dave bob largest)]

end Subledger.Sample
