/-
  HISTORY: what a run applied, applied again.

  A book keeps nothing of the calls that it refused, and asks of the accounts only whether they are
  registered.  So the transactions that a run applied lead to the same balances when they are
  applied one after the other, in a book that has all the accounts from the beginning.  It does not
  matter when the accounts of the run were registered, nor that additions rounded: both times the
  same additions are made.

  1. **Registers** — `Registry.Extends`, and that a run only extends its register.
  2. **The step** (`execute_of_extends`) — with more accounts an applied transaction is applied all
     the same.
  3. **The run** (`appliesAll_accepted`).
-/
import Subledger.Proofs.Ledger.Registry
import Subledger.Proofs.Ledger.Run

namespace Subledger

/-! ## Registers that grow

  An account is never taken out of a register or given another type, so what was registered when a
  transaction was checked is registered at any later time. -/

namespace Registry

/-- Has a register all the accounts of another? -/
def Extends (R r : Registry) : Prop := ∀ a, r.contains a = true → R.contains a = true

/-- A register has its own accounts. -/
theorem Extends.refl (r : Registry) : r.Extends r := fun _ h => h

theorem Extends.trans {R r s : Registry} (hR : R.Extends r) (hr : r.Extends s) : R.Extends s :=
  fun a h => hR a (hr a h)

/-- A registration forgets no account: it adds one, or it changes nothing. -/
theorem extends_of_register {r r' : Registry} {a : Account} {done : Registration}
    (h : r.register a = .ok (done, r')) : r'.Extends r := by
  rcases r.register_cases a with ⟨-, hcall⟩ | ⟨-, hcall⟩ | ⟨type, -, -, hcall⟩ <;> rw [hcall] at h
  · obtain ⟨-, rfl⟩ := Prod.mk.inj (Except.ok.inj h)
    intro j hj
    show ((r.types.insert a.id a.type).find? j).isSome = true
    by_cases heq : j = a.id
    · rw [heq, Table.find?_insert_self]
      rfl
    · rw [Table.find?_insert_of_ne _ _ heq]
      exact hj
  · obtain ⟨-, rfl⟩ := Prod.mk.inj (Except.ok.inj h)
    exact Extends.refl r
  · exact absurd h error_ne_ok

end Registry

namespace Book

/-- A transaction does not change the register. -/
theorem registry_execute {b b' : Book} {t : Transaction} {outcome : Outcome}
    (h : b.execute t = .ok (outcome, b')) : b'.registry = b.registry := by
  cases outcome with
  | applied =>
    obtain ⟨-, -, balances, -, rfl⟩ := execute_applied_iff.mp h
    rfl
  | alreadyApplied =>
    obtain ⟨-, rfl⟩ := execute_alreadyApplied_iff.mp h
    rfl

/-- The register after a transaction is the one before, whatever the verdict. -/
theorem registry_step_execute (b : Book) (t : Transaction) :
    (b.step (.execute t)).registry = b.registry := by
  rw [step]
  split
  · rename_i outcome b' hexec
    exact registry_execute hexec
  · rfl

/-- A call only adds to the register. -/
theorem extends_step (b : Book) (c : Call) : (b.step c).registry.Extends b.registry := by
  cases c with
  | register a =>
    rw [step, register]
    cases hr : b.registry.register a with
    | error e => exact Registry.Extends.refl _
    | ok p => exact Registry.extends_of_register hr
  | execute t =>
    rw [registry_step_execute]
    exact Registry.Extends.refl _

/-- So a run only adds to the register. -/
theorem extends_run (b : Book) (cs : List Call) : (b.run cs).registry.Extends b.registry := by
  induction cs using List.reverseRecOn with
  | nil => exact Registry.Extends.refl _
  | append_singleton cs c ih =>
    rw [run_concat]
    exact (extends_step _ c).trans ih

/-! ## Applying again

  The postings of a transaction are made on the balances alone.  A book with more accounts makes the
  same ones, with the same roundings. -/

/-- A book with another register. -/
def withRegistry (b : Book) (R : Registry) : Book := ⟨R, b.balances, b.applied⟩

/-- A book applies transactions one after the other, all of them, and becomes another. -/
def AppliesAll (b : Book) : List Transaction → Book → Prop
  | [], b' => b = b'
  | t :: ts, b' => ∃ m, b.execute t = .ok (.applied, m) ∧ m.AppliesAll ts b'

/-- Transactions may be applied in two parts, with the book in the middle. -/
theorem AppliesAll.append {b m b' : Book} {ts us : List Transaction} (h : b.AppliesAll ts m)
    (hus : m.AppliesAll us b') : b.AppliesAll (ts ++ us) b' := by
  induction ts generalizing b with
  | nil =>
    obtain rfl := h
    exact hus
  | cons s ts ih =>
    obtain ⟨m', hs, hrest⟩ := h
    exact ⟨m', hs, ih hrest⟩

/-- One more transaction may be applied in the end. -/
theorem AppliesAll.concat {b m b' : Book} {ts : List Transaction} {t : Transaction}
    (h : b.AppliesAll ts m) (ht : m.execute t = .ok (.applied, b')) :
    b.AppliesAll (ts ++ [t]) b' := h.append ⟨b', ht, rfl⟩

/-- With more accounts an applied transaction is applied all the same. -/
theorem execute_of_extends {b b' : Book} {t : Transaction} {R : Registry}
    (h : b.execute t = .ok (.applied, b')) (hR : R.Extends b.registry) :
    (b.withRegistry R).execute t = .ok (.applied, b'.withRegistry R) := by
  -- the postings never look at the register; only the check of the moves does
  obtain ⟨hnew, hright, balances, hpost, rfl⟩ := execute_applied_iff.mp h
  refine execute_applied_iff.mpr ⟨hnew, ?_, balances, hpost, rfl⟩
  rw [firstViolation_eq_none_iff] at hright ⊢
  intro m hm
  obtain ⟨hself, hsource, hdestination⟩ := violation?_eq_none_iff.mp (hright m hm)
  exact violation?_eq_none_iff.mpr ⟨hself, hR _ hsource, hR _ hdestination⟩

/-- Transactions do not change the register. -/
theorem AppliesAll.registry_eq {b b' : Book} {ts : List Transaction} (h : b.AppliesAll ts b') :
    b'.registry = b.registry := by
  induction ts generalizing b with
  | nil =>
    obtain rfl := h
    rfl
  | cons t ts ih =>
    obtain ⟨m, hexec, hrest⟩ := h
    rw [ih hrest, registry_execute hexec]

/-- With more accounts the same transactions are applied all the same. -/
theorem AppliesAll.withRegistry {b b' : Book} {ts : List Transaction} (h : b.AppliesAll ts b')
    {R : Registry} (hR : R.Extends b.registry) :
    (b.withRegistry R).AppliesAll ts (b'.withRegistry R) := by
  induction ts generalizing b with
  | nil =>
    obtain rfl := h
    rfl
  | cons t ts ih =>
    obtain ⟨m, hexec, hrest⟩ := h
    refine ⟨m.withRegistry R, execute_of_extends hexec hR, ih hrest ?_⟩
    rw [registry_execute hexec]
    exact hR

/-- The names that are known after transactions were applied. -/
theorem AppliesAll.applied_eq {b b' : Book} {ts : List Transaction} (h : b.AppliesAll ts b') :
    b'.applied = (ts.map Transaction.id).reverse ++ b.applied := by
  induction ts generalizing b with
  | nil =>
    obtain rfl := h
    rfl
  | cons t ts ih =>
    obtain ⟨m, hexec, hrest⟩ := h
    obtain ⟨-, -, balances, -, rfl⟩ := execute_applied_iff.mp hexec
    rw [ih hrest, List.map_cons, List.reverse_cons, List.append_assoc]
    rfl

/-- **What a run applied can be applied again**, with all accounts there from the beginning, and
    leads to the same balances. -/
theorem appliesAll_accepted (b : Book) (cs : List Call) {R : Registry}
    (hR : R.Extends (b.run cs).registry) :
    (b.withRegistry R).AppliesAll (b.accepted cs) ((b.run cs).withRegistry R) := by
  induction cs using List.reverseRecOn with
  | nil => rfl
  | append_singleton cs c ih =>
    rw [run_concat] at hR ⊢
    have hbefore := ih (hR.trans (extends_step _ c))
    rw [accepted_concat]
    rcases step_cases (b.run cs) c with ⟨hnone, hbal, happlied⟩ | ⟨t, -, hsome, hexec⟩
    · have hsame : ((b.run cs).step c).withRegistry R = (b.run cs).withRegistry R := by
        rw [withRegistry, withRegistry, hbal, happlied]
      rw [hnone, hsame, Option.toList_none, List.append_nil]
      exact hbefore
    · rw [hsome, Option.toList_some]
      exact hbefore.concat (execute_of_extends hexec (hR.trans (extends_step _ c)))

end Book
end Subledger
