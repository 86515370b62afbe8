/-
  THERE AND BACK: what one transaction moves, another moves back, and nothing is left.

  1. **A pair** (`Book.Held`) — one account has an amount of a unit, another owes it, and no third
     has a row.  A transaction that moves the unit between the two keeps this (`Held.execute`), as
     long as the amount that it leads to can be held; one that moves other units does not matter.
  2. **A reversal** (`Book.Reversal`) — two transactions move the same amount, the one there and the
     other back.  As a name is applied once, the amount is at any time none, the one that was moved
     or its negative (`Book.outstanding`), and all of these can be held (`Held.concat`).
  3. **The run** (`Book.held_run`) — so the amount is kept exactly, in whatever order the two are
     applied, and whatever is done in other units.
-/
import Subledger.Proofs.Decimal.Value
import Subledger.Proofs.Ledger.Atomic
import Subledger.Proofs.Ledger.Run

namespace Subledger

open Decimal

/-! ## A unit between two accounts

  The balances of one unit in two accounts that are opposite, and nobody else has any. -/

/-- A unit is moved in the first move alone, from one account to another. -/
def Transaction.MovesOnce (t : Transaction) (u : UnitId) (source destination : AccountId)
    (amount : ℚ) : Prop :=
  ∃ quantity contract rest, t.moves = ⟨source, destination, u, quantity, contract⟩ :: rest ∧
    quantity.value.value = amount ∧ ∀ m ∈ rest, m.unit ≠ u

/-- A unit is not moved at all. -/
def Transaction.Spares (t : Transaction) (u : UnitId) : Prop := ∀ m ∈ t.moves, m.unit ≠ u

/-- A transaction that moves the unit is none of those that do not. -/
theorem Transaction.MovesOnce.ne_of_spares {s t : Transaction} {u : UnitId}
    {source destination : AccountId} {amount : ℚ} (ht : t.MovesOnce u source destination amount)
    (hs : s.Spares u) : s ≠ t := by
  rintro rfl
  obtain ⟨quantity, contract, rest, hmoves, -⟩ := ht
  exact hs ⟨source, destination, u, quantity, contract⟩ (hmoves ▸ List.mem_cons_self) rfl

namespace Book

/-- One account has an amount of a unit, another owes it, and no third account has a row. -/
structure Held (balances : Table Position Decimal) (u : UnitId) (holder issuer : AccountId)
    (amount : ℚ) : Prop where
  held : (balanceIn balances ⟨holder, u⟩).value = amount
  owed : (balanceIn balances ⟨issuer, u⟩).value = -amount
  alone : ∀ a, a ≠ holder → a ≠ issuer → balances.find? ⟨a, u⟩ = none

variable {balances balances' : Table Position Decimal} {u : UnitId} {holder issuer : AccountId}
  {x q : ℚ}

/-- Without rows nothing is held or owed. -/
theorem held_zero (h : ∀ a, balances.find? ⟨a, u⟩ = none) : Held balances u holder issuer 0 := by
  refine ⟨?_, ?_, fun a _ _ => h a⟩ <;> rw [balanceIn, h, Option.getD_none, value_zero]
  exact neg_zero.symm

/-- What one account owes is a negative amount that it has. -/
theorem Held.swap (h : Held balances u holder issuer x) : Held balances u issuer holder (-x) :=
  ⟨h.owed, by rw [neg_neg, h.held], fun a hi hh => h.alone a hh hi⟩

/-- Only the rows of the unit count. -/
theorem Held.congr (h : Held balances u holder issuer x)
    (hrows : ∀ a, balances'.find? ⟨a, u⟩ = balances.find? ⟨a, u⟩) :
    Held balances' u holder issuer x := by
  refine ⟨?_, ?_, fun a hh hi => (hrows a).trans (h.alone a hh hi)⟩
  · rw [balanceIn, hrows, ← balanceIn, h.held]
  · rw [balanceIn, hrows, ← balanceIn, h.owed]

/-- Postings in other units leave the rows of a unit alone. -/
theorem find?_postAll_of_spared {id : TransactionId} {ms : List Move}
    (h : postAll id balances (ms.flatMap Move.postings) = .ok balances')
    (hms : ∀ m ∈ ms, m.unit ≠ u) (a : AccountId) :
    balances'.find? ⟨a, u⟩ = balances.find? ⟨a, u⟩ := by
  refine find?_postAll_of_untouched h ?_
  intro p hp hposition
  obtain ⟨m, hm, hp⟩ := List.mem_flatMap.mp hp
  have hunit : p.position.unit = m.unit := by
    rcases List.mem_pair.mp hp with rfl | rfl <;> rfl
  rw [hposition] at hunit
  exact hms m hm hunit.symm

/-- A move from the one to the other adds to the amount, if the new amount can be held. -/
theorem Held.postAll {id : TransactionId} {quantity : Quantity} {contract : ContractId}
    {ps : List Posting} (h : Held balances u holder issuer x) (hother : issuer ≠ holder)
    (hfit : Representable (x + quantity.value.value))
    (hpost : postAll id balances
      (Move.postings ⟨issuer, holder, u, quantity, contract⟩ ++ ps) = .ok balances') :
    ∃ between, Book.postAll id between ps = .ok balances' ∧
      Held between u holder issuer (x + quantity.value.value) := by
  have hposition : ∀ {a b : AccountId}, a ≠ b → (⟨a, u⟩ : Position) ≠ ⟨b, u⟩ :=
    fun hab heq => hab (Position.mk.inj heq).1
  obtain ⟨y, hy, hpost⟩ := postAll_cons_eq_ok_iff.mp hpost
  obtain ⟨z, hz, hpost⟩ := postAll_cons_eq_ok_iff.mp hpost
  refine ⟨_, hpost, ?_⟩
  dsimp only at hy hz ⊢
  -- what the source owes is as large as what the other gets, so it can be held as well
  have howed : y.value = -(x + quantity.value.value) := by
    have hsum : (balanceIn balances ⟨issuer, u⟩).value + quantity.value.neg.value
        = -(x + quantity.value.value) := by
      rw [h.owed, value_neg]
      ring
    obtain ⟨y', hy', hvalue⟩ := add?_exact (by rw [hsum]; exact hfit.neg)
    obtain rfl := Option.some.inj (hy.symm.trans hy')
    rw [hvalue, hsum]
  have hheld : z.value = x + quantity.value.value := by
    have hsame : balanceIn (balances.insert ⟨issuer, u⟩ y) ⟨holder, u⟩
        = balanceIn balances ⟨holder, u⟩ := by
      rw [balanceIn, Table.find?_insert_of_ne _ _ (hposition hother.symm), balanceIn]
    rw [hsame] at hz
    rw [← h.held] at hfit ⊢
    obtain ⟨z', hz', hvalue⟩ := add?_exact hfit
    obtain rfl := Option.some.inj (hz.symm.trans hz')
    exact hvalue
  refine ⟨?_, ?_, ?_⟩
  · rw [balanceIn, Table.find?_insert_self, Option.getD_some, hheld]
  · rw [balanceIn, Table.find?_insert_of_ne _ _ (hposition hother), Table.find?_insert_self,
      Option.getD_some, howed]
  · intro a hh hi
    rw [Table.find?_insert_of_ne _ _ (hposition hh), Table.find?_insert_of_ne _ _ (hposition hi)]
    exact h.alone a hh hi

/-! ## One transaction

  What one execution does to such a pair: nothing, or it moves the amount that it should. -/

variable {b b' : Book} {t : Transaction}

/-- A transaction that spares a unit leaves all its rows alone. -/
theorem find?_execute_of_spares (hexec : b.execute t = .ok (.applied, b')) (ht : t.Spares u)
    (a : AccountId) : b'.balances.find? ⟨a, u⟩ = b.balances.find? ⟨a, u⟩ := by
  obtain ⟨-, -, copy, hpost, rfl⟩ := execute_applied_iff.mp hexec
  exact find?_postAll_of_spared hpost ht a

/-- A transaction that moves a unit from the one to the other adds to the amount. -/
theorem Held.execute (h : Held b.balances u holder issuer x)
    (hexec : b.execute t = .ok (.applied, b')) (ht : t.MovesOnce u issuer holder q)
    (hfit : Representable (x + q)) : Held b'.balances u holder issuer (x + q) := by
  obtain ⟨quantity, contract, rest, hmoves, rfl, hrest⟩ := ht
  obtain ⟨-, hright, copy, hpost, rfl⟩ := execute_applied_iff.mp hexec
  rw [hmoves, firstViolation_eq_none_iff_isRight, List.forall_mem_cons] at hright
  rw [Transaction.postings, hmoves, List.flatMap_cons] at hpost
  obtain ⟨between, hpost, hheld⟩ := h.postAll hright.1.other hfit hpost
  exact hheld.congr (find?_postAll_of_spared hpost hrest)

/-! ## There and back

  The amount is a function of which of the two were applied, as each is applied at most once. -/

/-- Two transactions move the same amount of a unit, the one there and the other back. -/
structure Reversal (u : UnitId) (holder issuer : AccountId) (q : ℚ) (out back : Transaction) :
    Prop where
  ids : out.id ≠ back.id
  out : out.MovesOnce u issuer holder q
  back : back.MovesOnce u holder issuer q
  fits : Representable q

/-- The amount that is out once these transactions are applied. -/
def outstanding (q : ℚ) (out back : Transaction) (done : List Transaction) : ℚ :=
  (if out ∈ done then q else 0) - (if back ∈ done then q else 0)

/-- The amount is nothing, the one moved or its negative, and all can be held. -/
theorem outstanding_representable (out back : Transaction) (hq : Representable q)
    (done : List Transaction) : Representable (outstanding q out back done) := by
  rw [outstanding]
  split <;> split
  · rw [sub_self]
    exact ⟨zero, value_zero⟩
  · rwa [sub_zero]
  · rw [zero_sub]
    exact hq.neg
  · rw [sub_zero]
    exact ⟨zero, value_zero⟩

/-- One more transaction adds to the amount if it is the one, and takes if it is the other. -/
theorem outstanding_concat {out back t : Transaction} {done : List Transaction} (hnew : t ∉ done) :
    outstanding q out back (done ++ [t]) = outstanding q out back done
      + ((if t = out then q else 0) - if t = back then q else 0) := by
  have hmore : ∀ x : Transaction, (if x ∈ done ++ [t] then q else 0)
      = (if x ∈ done then q else 0) + if t = x then q else 0 := by
    intro x
    by_cases hx : t = x
    · subst hx
      rw [if_pos List.mem_concat_self, if_neg hnew, if_pos rfl, zero_add]
    · have hmem : x ∈ done ++ [t] ↔ x ∈ done := by
        rw [List.mem_append, List.mem_singleton, or_iff_left (Ne.symm hx)]
      rw [if_neg hx, add_zero]
      exact if_congr hmem rfl rfl
  rw [outstanding, outstanding, hmore, hmore]
  ring

/-- Where nothing that is applied moves a unit, its rows stay as they are. -/
theorem find?_run_of_spared (b : Book) {cs : List Call} (h : ∀ t ∈ b.accepted cs, t.Spares u)
    (a : AccountId) : (b.run cs).balances.find? ⟨a, u⟩ = b.balances.find? ⟨a, u⟩ := by
  induction cs using List.reverseRecOn with
  | nil => rfl
  | append_singleton cs c ih =>
    rw [accepted_concat] at h
    rw [run_concat, ← ih fun t ht => h t (List.mem_append_left _ ht)]
    rcases step_cases (b.run cs) c with ⟨-, hbalances, -⟩ | ⟨t, -, hsome, hexec⟩
    · rw [hbalances]
    · refine find?_execute_of_spares hexec (h t (List.mem_append_right _ ?_)) a
      rw [hsome]
      exact List.mem_singleton_self t

/-- One of the two changes the amount, and another transaction that is applied does not. -/
theorem Held.concat {out back : Transaction} {done : List Transaction}
    (h : Held b.balances u holder issuer (outstanding q out back done))
    (hpair : Reversal u holder issuer q out back) (hexec : b.execute t = .ok (.applied, b'))
    (hnew : t ∉ done) (ht : t = out ∨ t = back ∨ t.Spares u) :
    Held b'.balances u holder issuer (outstanding q out back (done ++ [t])) := by
  have hfit := outstanding_representable out back hpair.fits (done ++ [t])
  have hids : out ≠ back := fun heq => hpair.ids (heq ▸ rfl)
  rw [outstanding_concat hnew] at hfit ⊢
  rcases ht with rfl | rfl | hspares
  · rw [if_pos rfl, if_neg hids, sub_zero] at hfit ⊢
    exact h.execute hexec hpair.out hfit
  · -- the way back is the way there with the two accounts swapped
    rw [if_neg hids.symm, if_pos rfl, zero_sub] at hfit ⊢
    have hback := (h.swap.execute hexec hpair.back ?_).swap
    · rwa [neg_add, neg_neg] at hback
    · rw [← neg_neg (_ + q), neg_add, neg_neg]
      exact hfit.neg
  · rw [if_neg (hpair.out.ne_of_spares hspares), if_neg (hpair.back.ne_of_spares hspares),
      sub_zero, add_zero]
    exact h.congr (find?_execute_of_spares hexec hspares)

/-- **There and back is nothing**, whatever else happens and in whatever order. -/
theorem held_run {out back : Transaction} (hpair : Reversal u holder issuer q out back)
    (hnone : ∀ a, b.balances.find? ⟨a, u⟩ = none) {cs : List Call}
    (hothers : ∀ t ∈ b.accepted cs, t = out ∨ t = back ∨ t.Spares u) :
    Held (b.run cs).balances u holder issuer (outstanding q out back (b.accepted cs)) := by
  induction cs using List.reverseRecOn with
  | nil =>
    rw [show outstanding q out back (b.accepted []) = 0 from sub_self 0]
    exact held_zero hnone
  | append_singleton cs c ih =>
    have hnodup := (accepted_new b (cs ++ [c])).1
    rw [accepted_concat] at hothers hnodup ⊢
    rw [run_concat]
    specialize ih fun t ht => hothers t (List.mem_append_left _ ht)
    rcases step_cases (b.run cs) c with ⟨hnothing, hbalances, -⟩ | ⟨t, -, hsome, hexec⟩
    · rw [hnothing, Option.toList_none, List.append_nil]
      exact ih.congr fun a => by rw [hbalances]
    · rw [hsome, Option.toList_some] at hothers hnodup ⊢
      have hnew : t ∉ b.accepted cs := by
        intro ht
        rw [List.map_append] at hnodup
        exact (List.disjoint_of_nodup_append hnodup) (List.mem_map_of_mem ht) List.mem_cons_self
      exact ih.concat hpair hexec hnew (hothers t List.mem_concat_self)

end Book
end Subledger
