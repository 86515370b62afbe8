/-
  TOTALS: debits and credits that are added up, and what they come to.

  A projection and its trial balances add amounts to pairs of totals, which stand by themselves or in
  the rows of a table.  The additions may round, and overflow.

  1. **Bookings** — `bookAll` adds amounts to one pair of totals, and `bookRows` to the rows of a
     table.  `additions` and `rowAdditions` list the additions that are made on the way.
  2. **What they come to** (`value_bookAll`, `heldOn_bookRows`) — the amounts that were booked on the
     side, and the slips of the additions.  What is booked for one key goes to its row in order, and
     there are no rows but those of the keys (`bookAll_bookRows`, `isSome_find?_bookRows`).
  3. **Bounded amounts** (`bookAll_exact`, `bookRows_exact`) — where the amounts are whole multiples
     of one `10^-k` and few enough, nothing overflows or slips.  The crux is that the totals never
     hold more than what was booked, since no amount is below zero.
-/
import Subledger.GeneralLedger.Report
import Subledger.Proofs.Ledger.BoundedVolume

namespace Subledger

open Decimal

/-- A side of a pair of totals. -/
inductive Side where
  | debit
  | credit
  deriving DecidableEq

/-- The sign of the balances that go to a side. -/
def Side.sign : Side → ℚ
  | .debit => 1
  | .credit => -1

/-- An amount that is added on one side. -/
structure Booking where
  side : Side
  amount : Decimal

/-- An addition that is made on one side: the total as it then stands, and the amount. -/
structure Addition where
  side : Side
  total : Decimal
  amount : Decimal

/-- What is booked on a side, exactly. -/
def booked (s : Side) (xs : List Booking) : ℚ :=
  ((xs.filter fun x => x.side = s).map fun x => x.amount.value).sum

/-- The additions on a side. -/
def onSide (s : Side) (as : List Addition) : List (Decimal × Decimal) :=
  (as.filter fun a => a.side = s).map fun a => (a.total, a.amount)

/-- What is booked on the debits, less what is booked on the credits. -/
def excess (xs : List Booking) : ℚ := booked .debit xs - booked .credit xs

/-- How far the debits are led away from the credits by rounding. -/
def drift (as : List Addition) : ℚ :=
  totalSlip (onSide .debit as) - totalSlip (onSide .credit as)

/-- What is booked by two lists is added. -/
theorem booked_append (s : Side) (xs ys : List Booking) :
    booked s (xs ++ ys) = booked s xs + booked s ys := by
  rw [booked, booked, booked, List.filter_append, List.map_append, List.sum_append]

theorem onSide_append (s : Side) (as bs : List Addition) :
    onSide s (as ++ bs) = onSide s as ++ onSide s bs := by
  rw [onSide, onSide, onSide, List.filter_append, List.map_append]

/-- So is the excess of the debits. -/
theorem excess_append (xs ys : List Booking) : excess (xs ++ ys) = excess xs + excess ys := by
  rw [excess, excess, excess, booked_append, booked_append]
  ring

/-- What many lists book together is the sum of what each does. -/
theorem booked_flatMap {α : Type} (s : Side) (l : List α) (f : α → List Booking) :
    booked s (l.flatMap f) = (l.map fun a => booked s (f a)).sum := by
  induction l with
  | nil => rfl
  | cons a l ih => rw [List.flatMap_cons, booked_append, ih, List.map_cons, List.sum_cons]

theorem excess_flatMap {α : Type} (l : List α) (f : α → List Booking) :
    excess (l.flatMap f) = (l.map fun a => excess (f a)).sum := by
  induction l with
  | nil => exact sub_zero 0
  | cons a l ih => rw [List.flatMap_cons, excess_append, ih, List.map_cons, List.sum_cons]

namespace Totals

/-! ## One pair of totals

  A pair is booked on one amount at a time.  An amount goes to one side and leaves the other alone,
  so the two sides can be followed one by one; each comes to what was booked on it, but for what
  rounding adds or takes away (`Decimal.slip`). -/

/-- The total of a side. -/
def on (t : Totals) : Side → Decimal
  | .debit => t.debit
  | .credit => t.credit

/-- The totals with another one on a side. -/
def put (t : Totals) (s : Side) (x : Decimal) : Totals :=
  match s with
  | .debit => { t with debit := x }
  | .credit => { t with credit := x }

/-- Adds one amount, if the sum is not too large. -/
def book (t : Totals) (x : Booking) : Option Totals :=
  ((t.on x.side).add? x.amount).map (t.put x.side)

/-- Adds some amounts, one after the other. -/
def bookAll (t : Totals) : List Booking → Option Totals
  | [] => some t
  | x :: xs => (t.book x).bind fun t => t.bookAll xs

/-- The additions that are made when some amounts are added. -/
def additions (t : Totals) : List Booking → List Addition
  | [] => []
  | x :: xs =>
    ⟨x.side, t.on x.side, x.amount⟩ :: match t.book x with
      | some t => t.additions xs
      | none => []

variable {t t' : Totals} {x : Booking} {xs : List Booking}

/-- Totals begin at nothing. -/
theorem value_zero (s : Side) : (zero.on s).value = 0 := by cases s <;> exact Decimal.value_zero

/-- Setting one side leaves the other. -/
theorem on_put (t : Totals) (s s' : Side) (x : Decimal) :
    (t.put s x).on s' = if s = s' then x else t.on s' := by
  cases s <;> cases s' <;> rfl

/-- One amount is added to its side, with the slip of that one addition. -/
theorem value_book (h : t.book x = some t') (s : Side) :
    (t'.on s).value = (t.on s).value + booked s [x]
      + totalSlip (onSide s [⟨x.side, t.on x.side, x.amount⟩]) := by
  obtain ⟨y, hadd, rfl⟩ := Option.map_eq_some_iff.mp h
  rw [on_put]
  by_cases hs : x.side = s
  · subst hs
    rw [if_pos rfl, value_of_add? hadd]
    simp [booked, onSide, totalSlip]
  · rw [if_neg hs]
    simp [booked, onSide, totalSlip, hs]

/-- Booking two lists is booking one and then the other, as long as the first does not overflow. -/
theorem bookAll_append (t : Totals) (xs ys : List Booking) :
    t.bookAll (xs ++ ys) = (t.bookAll xs).bind fun t => t.bookAll ys := by
  induction xs generalizing t with
  | nil => rfl
  | cons x xs ih =>
    rw [List.cons_append, bookAll, bookAll, Option.bind_assoc]
    exact congrArg _ (funext fun t => ih t)

/-- What a side comes to: what it was, what is booked on it, and the slips. -/
theorem value_bookAll (h : t.bookAll xs = some t') (s : Side) :
    (t'.on s).value = (t.on s).value + booked s xs + totalSlip (onSide s (t.additions xs)) := by
  induction xs generalizing t with
  | nil =>
    obtain rfl := Option.some.inj h
    simp [booked, onSide, totalSlip, additions]
  | cons x xs ih =>
    obtain ⟨w, hw, hrest⟩ := Option.bind_eq_some_iff.mp h
    have hadditions : t.additions (x :: xs)
        = [⟨x.side, t.on x.side, x.amount⟩] ++ w.additions xs := by
      rw [additions, hw]
      rfl
    have hbooked : booked s (x :: xs) = booked s [x] + booked s xs := booked_append s [x] xs
    rw [hadditions, onSide_append, totalSlip_append, hbooked, ih hrest, value_book hw]
    ring

end Totals

/-! ## The totals of a table

  In a table each key has its own pair of totals.  The amounts of a row are booked on the pair of
  its key, and the other pairs stay; so what a set of keys holds together is again a sum that each
  row changes by what it books.  The set is given by a test `p` on keys: one key, one unit, or all
  of them. -/

section Rows

variable {κ : Type}

/-- What is booked for some keys. -/
def bookingsFor (p : κ → Bool) (rows : List (κ × List Booking)) : List Booking :=
  (rows.filter fun r => p r.1).flatMap Prod.snd

/-- The additions for some keys. -/
def additionsFor (p : κ → Bool) (as : List (κ × Addition)) : List Addition :=
  (as.filter fun a => p a.1).map Prod.snd

/-- The rows of a list, one by one: a row counts if its key does. -/
theorem bookingsFor_cons (p : κ → Bool) (k : κ) (xs : List Booking)
    (rest : List (κ × List Booking)) :
    bookingsFor p ((k, xs) :: rest) = (if p k then xs else []) ++ bookingsFor p rest := by
  rw [bookingsFor, List.filter_cons]
  cases p k <;> simp [bookingsFor]

/-- What holds of all amounts holds of those that are booked for some keys. -/
theorem forall_mem_bookingsFor {P : Booking → Prop} {rows : List (κ × List Booking)}
    (h : ∀ r ∈ rows, ∀ x ∈ r.2, P x) (p : κ → Bool) : ∀ x ∈ bookingsFor p rows, P x := by
  intro x hx
  obtain ⟨r, hr, hxr⟩ := List.mem_flatMap.mp hx
  exact h r (List.mem_filter.mp hr).1 x hxr

theorem additionsFor_append (p : κ → Bool) (as bs : List (κ × Addition)) :
    additionsFor p (as ++ bs) = additionsFor p as ++ additionsFor p bs := by
  rw [additionsFor, additionsFor, additionsFor, List.filter_append, List.map_append]

/-- The additions of one row count together or not at all. -/
theorem additionsFor_map (p : κ → Bool) (k : κ) (as : List Addition) :
    additionsFor p (as.map (Prod.mk k)) = if p k then as else [] := by
  rw [additionsFor, List.filter_map, List.map_map]
  cases hk : p k <;> simp [Function.comp_def, hk]

variable [Ord κ] [Std.TransOrd κ] [Std.LawfulEqOrd κ]

/-- The totals of a key; nothing, if it has no row. -/
def totalsAt (t : Table κ Totals) (k : κ) : Totals := (t.find? k).getD .zero

/-- Adds amounts to the totals of keys, one key after the other. -/
def bookRows (t : Table κ Totals) : List (κ × List Booking) → Option (Table κ Totals)
  | [] => some t
  | (k, xs) :: rest => ((totalsAt t k).bookAll xs).bind fun s => bookRows (t.insert k s) rest

/-- The additions that are made on the way, each with its key. -/
def rowAdditions (t : Table κ Totals) : List (κ × List Booking) → List (κ × Addition)
  | [] => []
  | (k, xs) :: rest =>
    ((totalsAt t k).additions xs).map (Prod.mk k) ++ match (totalsAt t k).bookAll xs with
      | some s => rowAdditions (t.insert k s) rest
      | none => []

/-- What the totals of some keys hold together on a side. -/
def heldOn (s : Side) (p : κ → Bool) (t : Table κ Totals) : ℚ :=
  t.sumOver fun k totals => if p k then (totals.on s).value else 0

/-- Setting the totals of one key changes what the keys hold by the difference, if that key counts.
    -/
theorem heldOn_insert (s : Side) (p : κ → Bool) (t : Table κ Totals) (k : κ) (totals : Totals) :
    heldOn s p (t.insert k totals) = heldOn s p t
      + if p k then (totals.on s).value - ((totalsAt t k).on s).value else 0 := by
  rw [heldOn, Table.sumOver_insert, ← heldOn, totalsAt]
  cases hk : p k with
  | false => cases t.find? k <;> simp
  | true =>
    cases t.find? k with
    | none => simp [Totals.value_zero]
    | some old => simp

/-- What the totals of some keys come to: what they were, what is booked for them, and the slips. -/
theorem heldOn_bookRows {t t' : Table κ Totals} {rows : List (κ × List Booking)}
    (h : bookRows t rows = some t') (s : Side) (p : κ → Bool) :
    heldOn s p t' = heldOn s p t + booked s (bookingsFor p rows)
      + totalSlip (onSide s (additionsFor p (rowAdditions t rows))) := by
  induction rows generalizing t with
  | nil =>
    obtain rfl := Option.some.inj h
    simp [booked, onSide, totalSlip, rowAdditions, bookingsFor, additionsFor]
  | cons row rest ih =>
    obtain ⟨k, xs⟩ := row
    obtain ⟨totals, htotals, hrest⟩ := Option.bind_eq_some_iff.mp h
    have hadditions : rowAdditions t ((k, xs) :: rest)
        = ((totalsAt t k).additions xs).map (Prod.mk k)
          ++ rowAdditions (t.insert k totals) rest := by
      rw [rowAdditions, htotals]
    have hfirst := Totals.value_bookAll htotals s
    rw [ih hrest, heldOn_insert, hadditions, bookingsFor_cons, additionsFor_append,
      additionsFor_map, onSide_append, totalSlip_append, booked_append]
    cases p k with
    | true =>
      simp only [if_true]
      rw [hfirst]
      ring
    | false => simp [booked, onSide, totalSlip]

omit [Std.TransOrd κ] [Std.LawfulEqOrd κ] in
/-- An empty table holds nothing. -/
theorem heldOn_empty (s : Side) (p : κ → Bool) : heldOn s p .empty = 0 := rfl

/-- What a key by itself holds on a side. -/
theorem heldOn_single [DecidableEq κ] (s : Side) (k : κ) (t : Table κ Totals) :
    heldOn s (fun j => j == k) t = ((totalsAt t k).on s).value := by
  have hothers : ∀ j (totals : Totals), j ≠ k →
      (if j == k then (totals.on s).value else 0) = 0 := by
    intro j totals hj
    rw [if_neg (mt beq_iff_eq.mp hj)]
  rw [heldOn, Table.sumOver_single t hothers, totalsAt]
  cases t.find? k with
  | none => exact (Totals.value_zero s).symm
  | some totals => simp

theorem totalsAt_insert_self (t : Table κ Totals) (k : κ) (totals : Totals) :
    totalsAt (t.insert k totals) k = totals := by
  rw [totalsAt, Table.find?_insert_self]
  rfl

/-- Setting the totals of one key leaves those of the others. -/
theorem totalsAt_insert_of_ne (t : Table κ Totals) {k j : κ} (totals : Totals) (h : j ≠ k) :
    totalsAt (t.insert k totals) j = totalsAt t j := by
  rw [totalsAt, Table.find?_insert_of_ne _ _ h, totalsAt]

/-- A table has the keys that it had, and those that were booked on. -/
theorem isSome_find?_bookRows {t t' : Table κ Totals} {rows : List (κ × List Booking)}
    (h : bookRows t rows = some t') (k : κ) :
    (t'.find? k).isSome = true ↔ (t.find? k).isSome = true ∨ k ∈ rows.map Prod.fst := by
  induction rows generalizing t with
  | nil =>
    obtain rfl := Option.some.inj h
    simp
  | cons row rest ih =>
    obtain ⟨j, xs⟩ := row
    obtain ⟨totals, -, hrest⟩ := Option.bind_eq_some_iff.mp h
    rw [ih hrest, List.map_cons, List.mem_cons]
    by_cases hk : k = j
    · rw [hk, Table.find?_insert_self]
      simp
    · rw [Table.find?_insert_of_ne _ _ hk]
      simp [hk]

/-- The totals of a key are what they were, and what is booked for it is added in order. -/
theorem bookAll_bookRows [DecidableEq κ] {t t' : Table κ Totals} {rows : List (κ × List Booking)}
    (h : bookRows t rows = some t') (k : κ) :
    (totalsAt t k).bookAll (bookingsFor (fun j => j == k) rows) = some (totalsAt t' k) := by
  induction rows generalizing t with
  | nil =>
    obtain rfl := Option.some.inj h
    rfl
  | cons row rest ih =>
    obtain ⟨j, xs⟩ := row
    obtain ⟨totals, htotals, hrest⟩ := Option.bind_eq_some_iff.mp h
    rw [← ih hrest, bookingsFor_cons, Totals.bookAll_append]
    by_cases hk : j = k
    · subst hk
      rw [if_pos (beq_self_eq_true j), htotals, Option.bind_some, totalsAt_insert_self]
    · rw [if_neg (mt beq_iff_eq.mp hk), totalsAt_insert_of_ne _ _ (Ne.symm hk)]
      rfl

end Rows

/-! ## Bounded amounts

  Nothing is rounded where the amounts are whole multiples of a small enough power of ten and all
  that is ever booked on a side stays below what a decimal can hold.  Since no amount is below zero,
  a total on the way is at most the total in the end, so the bound on the end is enough. -/

/-- An amount that is a whole multiple of `10^-k`, and not below zero. -/
def Whole (k : Nat) (x : Decimal) : Prop := x.value ∈ Book.multiples k ∧ 0 ≤ x.value

/-- Few multiples add up without being rounded. -/
theorem Whole.add? {k : Nat} {x y : Decimal} (hx : Whole k x) (hy : Whole k y) (hk : k ≤ 28)
    (hfew : (x.value + y.value) * (tenTo k : ℚ) < (twoTo 96 : ℚ)) :
    ∃ z, x.add? y = some z ∧ Whole k z ∧ z.value = x.value + y.value := by
  have hnonneg : 0 ≤ x.value + y.value := add_nonneg hx.2 hy.2
  have hmultiple : x.value + y.value ∈ Book.multiples k := add_mem hx.1 hy.1
  obtain ⟨z, hadd, hz⟩ := add?_exact
    (Book.representable_of_multiple hk hmultiple (by rwa [abs_of_nonneg hnonneg]))
  exact ⟨z, hadd, by rw [Whole, hz]; exact ⟨hmultiple, hnonneg⟩, hz⟩

/-- Amounts that are not below zero never add up to less than nothing. -/
theorem booked_nonneg {k : Nat} {xs : List Booking} (hxs : ∀ x ∈ xs, Whole k x.amount) (s : Side) :
    0 ≤ booked s xs := by
  refine List.sum_nonneg ?_
  intro q hq
  obtain ⟨x, hx, rfl⟩ := List.mem_map.mp hq
  exact (hxs x (List.mem_filter.mp hx).1).2

namespace Totals

/-- Totals of whole multiples. -/
def Whole (k : Nat) (t : Totals) : Prop := ∀ s, Subledger.Whole k (t.on s)

theorem whole_zero (k : Nat) : zero.Whole k := by
  intro s
  rw [Subledger.Whole, value_zero]
  exact ⟨zero_mem _, le_refl _⟩

variable {k : Nat} {t : Totals} {xs : List Booking}

/-- One amount is booked without being rounded. -/
theorem book_exact {x : Booking} (hk : k ≤ 28) (ht : t.Whole k) (hx : Subledger.Whole k x.amount)
    (hfew : ((t.on x.side).value + booked x.side [x]) * (tenTo k : ℚ) < (twoTo 96 : ℚ)) :
    ∃ t', t.book x = some t' ∧ t'.Whole k ∧
      ∀ s, (t'.on s).value = (t.on s).value + booked s [x] := by
  have hone : booked x.side [x] = x.amount.value := by simp [booked]
  rw [hone] at hfew
  obtain ⟨y, hadd, hy, hval⟩ := (ht x.side).add? hx hk hfew
  refine ⟨t.put x.side y, by rw [book, hadd]; rfl, ?_, ?_⟩
  · intro s
    rw [on_put]
    split
    · exact hy
    · exact ht s
  · intro s
    rw [on_put]
    split
    · rename_i hs
      subst hs
      rw [hval, hone]
    · rename_i hs
      simp [booked, hs]

/-- Few amounts are booked without being rounded. -/
theorem bookAll_exact (hk : k ≤ 28) (ht : t.Whole k) (hxs : ∀ x ∈ xs, Subledger.Whole k x.amount)
    (hfew : ∀ s, ((t.on s).value + booked s xs) * (tenTo k : ℚ) < (twoTo 96 : ℚ)) :
    ∃ t', t.bookAll xs = some t' ∧ t'.Whole k ∧
      ∀ s, (t'.on s).value = (t.on s).value + booked s xs := by
  induction xs generalizing t with
  | nil => exact ⟨t, rfl, ht, fun s => by simp [booked]⟩
  | cons x xs ih =>
    obtain ⟨hx, hxs⟩ := List.forall_mem_cons.mp hxs
    have hsplit : ∀ s, booked s (x :: xs) = booked s [x] + booked s xs :=
      fun s => booked_append s [x] xs
    have hfirst : ((t.on x.side).value + booked x.side [x]) * (tenTo k : ℚ) < (twoTo 96 : ℚ) := by
      refine lt_of_le_of_lt (mul_le_mul_of_nonneg_right ?_ (cast_tenTo_pos k).le) (hfew x.side)
      rw [hsplit]
      linarith [booked_nonneg hxs x.side]
    obtain ⟨w, hw, hwhole, hval⟩ := book_exact hk ht hx hfirst
    obtain ⟨t', ht', hwhole', hval'⟩ := ih hwhole hxs fun s => by
      rw [hval, add_assoc, ← hsplit]
      exact hfew s
    refine ⟨t', by rw [bookAll, hw]; exact ht', hwhole', ?_⟩
    intro s
    rw [hval', hval, hsplit, add_assoc]

end Totals

section Rows

variable {κ : Type} [Ord κ] [Std.TransOrd κ] [Std.LawfulEqOrd κ] {k : Nat} {t : Table κ Totals}

/-- A table of totals of whole multiples. -/
def WholeRows (k : Nat) (t : Table κ Totals) : Prop := ∀ key, (totalsAt t key).Whole k

omit [Std.TransOrd κ] in
/-- The totals in a row are those of its key. -/
theorem totalsAt_of_mem {row : κ × Totals} (h : row ∈ t.rows) : totalsAt t row.1 = row.2 := by
  rw [totalsAt, Table.mem_rows_iff.mp h]
  rfl

omit [Std.TransOrd κ] [Std.LawfulEqOrd κ] in
theorem wholeRows_empty (k : Nat) : WholeRows k (.empty : Table κ Totals) :=
  fun _ => Totals.whole_zero k

/-- Setting whole totals in a table of whole totals. -/
theorem WholeRows.insert (ht : WholeRows k t) (key : κ) {totals : Totals}
    (htotals : totals.Whole k) : WholeRows k (t.insert key totals) := by
  intro j
  by_cases hj : j = key
  · rw [hj, totalsAt_insert_self]
    exact htotals
  · rw [totalsAt_insert_of_ne _ _ hj]
    exact ht j

omit [Std.TransOrd κ] in
/-- The totals of a key are not above those of the table. -/
theorem WholeRows.on_le (ht : WholeRows k t) (key : κ) (s : Side) :
    ((totalsAt t key).on s).value ≤ heldOn s (fun _ => true) t := by
  have hnonneg : ∀ q ∈ t.rows.map fun r => (r.2.on s).value, 0 ≤ q := by
    intro q hq
    obtain ⟨row, hrow, rfl⟩ := List.mem_map.mp hq
    rw [← totalsAt_of_mem hrow]
    exact (ht row.1 s).2
  have hheld : heldOn s (fun _ => true) t = (t.rows.map fun r => (r.2.on s).value).sum := by
    simp [heldOn, Table.sumOver]
  rw [hheld]
  cases hkey : t.find? key with
  | none =>
    rw [totalsAt, hkey, Option.getD_none, Totals.value_zero]
    exact List.sum_nonneg hnonneg
  | some totals =>
    have hrow : (key, totals) ∈ t.rows := Table.mem_rows_iff.mpr hkey
    rw [totalsAt_of_mem hrow]
    exact List.single_le_sum hnonneg _ (List.mem_map_of_mem hrow)

/-- Few amounts are booked on the rows of a table without being rounded. -/
theorem bookRows_exact {rows : List (κ × List Booking)} (hk : k ≤ 28) (ht : WholeRows k t)
    (hrows : ∀ r ∈ rows, ∀ x ∈ r.2, Whole k x.amount)
    (hfew : ∀ s, (heldOn s (fun _ => true) t + booked s (bookingsFor (fun _ => true) rows))
      * (tenTo k : ℚ) < (twoTo 96 : ℚ)) :
    ∃ t', bookRows t rows = some t' ∧ WholeRows k t' ∧
      ∀ s p, heldOn s p t' = heldOn s p t + booked s (bookingsFor p rows) := by
  induction rows generalizing t with
  | nil => exact ⟨t, rfl, ht, fun s p => by simp [booked, bookingsFor]⟩
  | cons row rest ih =>
    obtain ⟨key, xs⟩ := row
    obtain ⟨hxs, hrest⟩ := List.forall_mem_cons.mp hrows
    have hsplit : ∀ s, booked s (bookingsFor (fun _ => true) ((key, xs) :: rest))
        = booked s xs + booked s (bookingsFor (fun _ => true) rest) := by
      intro s
      rw [bookingsFor_cons, if_pos rfl, booked_append]
    -- the totals of one key are part of what the table holds
    have hone : ∀ s, (((totalsAt t key).on s).value + booked s xs) * (tenTo k : ℚ)
        < (twoTo 96 : ℚ) := by
      intro s
      refine lt_of_le_of_lt (mul_le_mul_of_nonneg_right ?_ (cast_tenTo_pos k).le) (hfew s)
      have hlater := booked_nonneg (forall_mem_bookingsFor hrest fun _ => true) s
      rw [hsplit]
      linarith [ht.on_le key s]
    obtain ⟨totals, htotals, hwhole, hval⟩ := Totals.bookAll_exact hk (ht key) hxs hone
    have hinsert : ∀ s p, heldOn s p (t.insert key totals)
        = heldOn s p t + booked s (if p key then xs else []) := by
      intro s p
      rw [heldOn_insert, hval]
      cases p key <;> simp [booked]
    obtain ⟨t', ht', hrows', hheld⟩ := ih (ht.insert key hwhole) hrest fun s => by
      rw [hinsert, if_pos rfl, add_assoc, ← hsplit]
      exact hfew s
    refine ⟨t', by rw [bookRows, htotals]; exact ht', hrows', ?_⟩
    intro s p
    rw [hheld, hinsert, bookingsFor_cons, booked_append, add_assoc]

/-- The same on the rows of a new table. -/
theorem bookRows_empty_exact {rows : List (κ × List Booking)} (hk : k ≤ 28)
    (hrows : ∀ r ∈ rows, ∀ x ∈ r.2, Whole k x.amount)
    (hfew : ∀ s, booked s (bookingsFor (fun _ => true) rows) * (tenTo k : ℚ) < (twoTo 96 : ℚ)) :
    ∃ t, bookRows .empty rows = some t ∧ WholeRows k t ∧
      ∀ s p, heldOn s p t = booked s (bookingsFor p rows) := by
  obtain ⟨t, ht, hwhole, hheld⟩ := bookRows_exact hk (wholeRows_empty k) hrows fun s => by
    rw [heldOn_empty, zero_add]
    exact hfew s
  refine ⟨t, ht, hwhole, ?_⟩
  intro s p
  rw [hheld, heldOn_empty, zero_add]

end Rows
end Subledger
