/-
  SNAPSHOTS answer as the book does.

  A snapshot has the balances in normal form, the book has them as they came about.  So the sums of
  the one are sums of other decimals than the sums of the other, and yet they are equal.

  1. **Rows** — a snapshot has the rows of the book in their order, each balance in normal form
     (`normal_normalize`), and finds the same of them (`balance_snapshot`).
  2. **The crux** (`Snapshot.sumFrom_value_congr`) — what is kept of a sum, and whether it overflows,
     depends on the values of its parts only.  So two sums over the same values take the same way.
  3. **The result** (`snapshot_answers_alike`) — balances, supplies and the reconciliation can be read
     off a snapshot, also where additions round or overflow.
-/
import Subledger.Proofs.Decimal.Rounding
import Subledger.Proofs.Ledger.Arrival
import Subledger.Proofs.Ledger.Reconciliation

namespace Subledger

open Decimal

/-- There is no shorter way to write it: no zero ends its places, and no sign stands before a zero. -/
def Decimal.Normal (x : Decimal) : Prop :=
  (x.scale = 0 ∨ x.magnitude % 10 ≠ 0) ∧ (x.negative = true → x.value < 0)

/-- What was normalized is in normal form. -/
theorem Decimal.normal_normalize (x : Decimal) : x.normalize.Normal := by
  refine ⟨stripZeros_stripped x.magnitude x.scale, ?_⟩
  intro hnegative
  rw [value_normalize]
  exact (value_neg_iff x).mpr hnegative

/-! ## Sums over the same values

  A sum is folded from the left, and each addition keeps what a decimal can hold of the exact
  sum.  So a fold over other decimals of the same values goes through the same values. -/

namespace Snapshot

/-- Sums over the same values are equal, or both overflow. -/
theorem sumFrom_value_congr {x y : Decimal} {xs ys : List Decimal} (hfirst : x.value = y.value)
    (hrest : xs.map value = ys.map value) :
    (sumFrom x xs).map value = (sumFrom y ys).map value := by
  induction xs generalizing x y ys with
  | nil =>
    obtain rfl := List.map_eq_nil_iff.mp hrest.symm
    exact congrArg some hfirst
  | cons a xs ih =>
    obtain ⟨b, ys, rfl, hb, hys⟩ := List.map_eq_cons_iff.mp hrest.symm
    have hadd := add?_value_congr hfirst hb.symm
    rw [sumFrom, sumFrom]
    cases hx : x.add? a with
    | none =>
      rw [hx, Option.map_none, eq_comm, Option.map_eq_none_iff] at hadd
      rw [hadd]
      rfl
    | some z =>
      rw [hx, Option.map_some, eq_comm] at hadd
      obtain ⟨w, hw, hvalue⟩ := Option.map_eq_some_iff.mp hadd
      rw [hw]
      exact ih hvalue.symm hys.symm

end Snapshot

/-! ## Rows and look-ups

  The entries of a snapshot are the rows of the book one by one. -/

/-- What a row is the balance of. -/
def BalanceEntry.position (e : BalanceEntry) : Position := ⟨e.account, e.unit⟩

namespace Book

/-- The positions of the entries are the keys of the balances. -/
theorem positions_snapshot (b : Book) :
    b.snapshot.entries.map BalanceEntry.position = b.balances.keys := by
  show (b.balances.rows.map _).map _ = b.balances.rows.map Prod.fst
  rw [List.map_map]
  rfl

/-- And they are in their order. -/
theorem sorted_snapshot (b : Book) :
    b.snapshot.entries.Pairwise fun e f => compare e.position f.position = .lt :=
  List.pairwise_map.mpr b.balances.sorted

/-- The balances of a unit in a snapshot are those in the book, in normal form. -/
theorem balances_snapshot (b : Book) (u : UnitId) :
    (b.snapshot.entries.filter fun e => e.unit == u).map BalanceEntry.balance
      = (b.holdings u).map normalize := by
  show ((b.balances.rows.map _).filter _).map _ = ((b.balances.rows.filter _).map _).map _
  rw [List.filter_map, List.map_map, List.map_map]
  rfl

/-- The row of a position is found. -/
theorem find?_entries (rows : List (Position × Decimal)) (account : AccountId) (u : UnitId) :
    ((rows.map fun r => (⟨r.1.account, r.1.unit, r.2.normalize⟩ : BalanceEntry)).find?
        fun e => e.account == account && e.unit == u)
      = (Table.findRow ⟨account, u⟩ rows).map fun x => ⟨account, u, x.normalize⟩ := by
  induction rows with
  | nil => rfl
  | cons r rows ih =>
    rw [List.map_cons, Table.findRow_cons, List.find?_cons]
    by_cases hr : r.1 = ⟨account, u⟩
    · have heq : compare (⟨account, u⟩ : Position) r.1 = .eq :=
        Std.LawfulEqOrd.compare_eq_iff_eq.mpr hr.symm
      rw [if_pos heq, hr, beq_self_eq_true, beq_self_eq_true]
      rfl
    · have hne : compare (⟨account, u⟩ : Position) r.1 ≠ .eq := fun h =>
        hr (Std.LawfulEqOrd.compare_eq_iff_eq.mp h).symm
      have hother : (r.1.account == account && r.1.unit == u) = false := by
        rw [Bool.eq_false_iff, Ne, Bool.and_eq_true, beq_iff_eq, beq_iff_eq]
        rintro ⟨rfl, rfl⟩
        exact hr rfl
      rw [if_neg hne, hother]
      exact ih

/-- A balance in a snapshot is that in the book, in normal form. -/
theorem balance_snapshot (b : Book) (account : AccountId) (u : UnitId) :
    b.snapshot.balance account u = (b.balance account u).normalize := by
  rw [Snapshot.balance, balance, Table.find?, snapshot, find?_entries]
  cases Table.findRow ⟨account, u⟩ b.balances.rows <;> rfl

/-! ## Supplies

  A supply is the sum of the balances of a unit.  Book and snapshot sum the same rows in the same
  order, each balance as it stands there. -/

/-- A snapshot finds the supply that the book finds, or neither finds one. -/
theorem totalSupply_snapshot (b : Book) (u : UnitId) :
    (b.snapshot.totalSupply u).map value = (Snapshot.sumFrom zero (b.holdings u)).map value := by
  rw [Snapshot.totalSupply, balances_snapshot]
  refine Snapshot.sumFrom_value_congr rfl ?_
  rw [List.map_map]
  exact List.map_congr_left fun x _ => value_normalize x

/-- A supply fails in one way only. -/
theorem totalSupply_eq_error_iff {b : Book} {u : UnitId} {e : LedgerError} :
    b.totalSupply u = .error e ↔
      Snapshot.sumFrom zero (b.holdings u) = none ∧ e = .supplyOverflow u := by
  unfold totalSupply holdings
  split
  · rename_i x hsum
    rw [hsum]
    exact iff_of_false error_ne_ok.symm fun h => Option.some_ne_none x h.1
  · rename_i hsum
    rw [and_iff_right hsum]
    constructor
    · intro h
      exact (Except.error.inj h).symm
    · rintro rfl
      rfl

/-- A supply of some value is found in a snapshot exactly if it is found in the book. -/
theorem exists_totalSupply_snapshot_iff {b : Book} {u : UnitId} {q : ℚ} :
    (∃ x, b.snapshot.totalSupply u = some x ∧ x.value = q) ↔
      ∃ y, b.totalSupply u = .ok y ∧ y.value = q := by
  simp only [totalSupply_eq_ok_iff]
  rw [← Option.map_eq_some_iff, ← Option.map_eq_some_iff, totalSupply_snapshot]

/-- A snapshot has no supply where the book overflows. -/
theorem totalSupply_snapshot_eq_none_iff {b : Book} {u : UnitId} :
    b.snapshot.totalSupply u = none ↔ b.totalSupply u = .error (.supplyOverflow u) := by
  rw [totalSupply_eq_error_iff, and_iff_left rfl, ← Option.map_eq_none_iff (f := value),
    totalSupply_snapshot, Option.map_eq_none_iff]

/-- The reconciliation, read off a snapshot. -/
theorem verifyConservation_snapshot_iff {b : Book} : b.verifyConservation = .ok () ↔
    ∀ e ∈ b.snapshot.entries, ∃ x, b.snapshot.totalSupply e.unit = some x ∧ x.value = 0 := by
  rw [verifyConservation, verifyUnits_eq_ok_iff]
  constructor
  · intro h e he
    obtain ⟨r, hr, rfl⟩ := List.mem_map.mp he
    exact exists_totalSupply_snapshot_iff.mpr (h _ (mem_units_iff.mpr ⟨r, hr, rfl⟩))
  · intro h u hu
    obtain ⟨r, hr, rfl⟩ := mem_units_iff.mp hu
    exact exists_totalSupply_snapshot_iff.mp (h _ (List.mem_map_of_mem hr))

/-! ## The result -/

/-- A snapshot from which the answers of a book can be read off. -/
structure Mirrors (s : Snapshot) (b : Book) : Prop where
  rows : s.entries.map BalanceEntry.position = b.balances.keys
  increasing : s.entries.Pairwise fun e f => compare e.position f.position = .lt
  normal : ∀ e ∈ s.entries, e.balance.Normal
  balance : ∀ account u, (s.balance account u).value = (b.balance account u).value
  overflow : ∀ u, s.totalSupply u = none ↔ b.totalSupply u = .error (.supplyOverflow u)
  /-- A supply that is found in the one is found in the other, with the same value. -/
  supply : ∀ u q, (∃ x, s.totalSupply u = some x ∧ x.value = q) ↔
    ∃ y, b.totalSupply u = .ok y ∧ y.value = q
  conserved : b.verifyConservation = .ok () ↔
    ∀ e ∈ s.entries, ∃ x, s.totalSupply e.unit = some x ∧ x.value = 0

/-- **A snapshot answers as its book does**, for every book.  It has a row for each balance, in strict
    order of account and unit, and in normal form.  Every balance and every supply is equal in
    value to that of the book, also where additions round, and a supply is missing exactly if that
    of the book overflows.  So the reconciliation passes exactly if the snapshot has a supply of
    zero of every unit with a row. -/
theorem snapshot_answers_alike (b : Book) : Mirrors b.snapshot b where
  rows := b.positions_snapshot
  increasing := b.sorted_snapshot
  normal e he := by
    obtain ⟨r, -, rfl⟩ := List.mem_map.mp he
    exact normal_normalize r.2
  balance account u := by rw [balance_snapshot, value_normalize]
  overflow _ := totalSupply_snapshot_eq_none_iff
  supply _ _ := exists_totalSupply_snapshot_iff
  conserved := verifyConservation_snapshot_iff

end Book
end Subledger
