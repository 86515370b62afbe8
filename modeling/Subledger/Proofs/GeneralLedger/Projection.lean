/-
  PROJECTION: what a report holds of the balances that it was made of.

  1. **Bookings** — a projection books each balance of a mapped account on its key, and then the
     totals of the keys on those of the report; a check by units books the entries on their units
     (`group_eq_ok_iff`, `addToReport_eq_ok_iff`, `unitTotals_eq_ok_iff`).
  2. **Balances** (`excess_amounts`) — a balance is what it brings to the debits, less what it brings
     to the credits.
  3. **What a report holds** (`excess_of_ofSnapshot`) — so the debits of the entries, less their
     credits, are the mapped balances and the drift of the additions, also for each unit by itself.
  4. **Few balances** (`groups_exact`) — where the balances are whole multiples of one `10^-k` and few
     enough, a report is made of them and all its totals are exact.
-/
import Subledger.GeneralLedger.Projection
import Subledger.Proofs.Except
import Subledger.Proofs.GeneralLedger.Totals

namespace Subledger

open Decimal

/-! ## Balances

  A projection books a balance on one side and a check books a pair of totals on both.  Both become
  lists of bookings here, so that one law about booking lists serves the two. -/

/-- A balance as an amount on the side of its sign. -/
def Decimal.amounts (x : Decimal) : List Booking :=
  if x.isNegative then [⟨.credit, x.abs⟩] else [⟨.debit, x⟩]

/-- A pair of totals as an amount on each side. -/
def Totals.amounts (t : Totals) : List Booking := [⟨.debit, t.debit⟩, ⟨.credit, t.credit⟩]

/-- A side gets of a balance what the balance has on that side, and nothing of one with the other
    sign. -/
theorem booked_amounts (s : Side) (x : Decimal) :
    booked s x.amounts = max (s.sign * x.value) 0 := by
  unfold Decimal.amounts
  split
  · rename_i hneg
    have hx : x.value < 0 := (value_neg_iff x).mpr hneg
    cases s with
    | debit => simp [booked, Side.sign, hx.le]
    | credit => simp [booked, Side.sign, value_abs, abs_of_neg hx, hx.le]
  · rename_i hneg
    have hx : 0 ≤ x.value := not_lt.mp fun h => hneg ((value_neg_iff x).mp h)
    cases s with
    | debit => simp [booked, Side.sign, hx]
    | credit => simp [booked, Side.sign, hx]

/-- A pair of totals, as amounts, books each of them on its side. -/
theorem Totals.booked_amounts (t : Totals) (s : Side) : booked s t.amounts = (t.on s).value := by
  cases s <;> simp [booked, amounts, on]

/-- Debits less credits is the balance again, whichever side it is booked on. -/
theorem excess_amounts (x : Decimal) : excess x.amounts = x.value := by
  rw [excess, booked_amounts, booked_amounts, Side.sign, Side.sign, one_mul, neg_one_mul]
  exact max_zero_sub_max_neg_zero_eq_self x.value

/-- Adding two pairs of totals is adding the debits and then the credits; the second is not tried if
    the first fails. -/
theorem Totals.bookAll_amounts (t s : Totals) : t.bookAll s.amounts =
    (t.debit.add? s.debit).bind fun d => (t.credit.add? s.credit).map fun c => ⟨d, c⟩ := by
  simp only [bookAll, book, amounts, on]
  cases t.debit.add? s.debit with
  | none => rfl
  | some d =>
    show ((t.credit.add? s.credit).map _).bind _ = (t.credit.add? s.credit).map _
    cases t.credit.add? s.credit <;> rfl

/-! ## Bookings

  The three loops are three runs of `bookRows` and `bookAll`, failure included: each answers exactly
  if the run of its bookings has room, and with the same totals. -/

namespace GlReport

/-- One balance is one booking, a debit or a credit. -/
theorem addBalance_eq (t : Totals) (x : Decimal) : addBalance t x = t.bookAll x.amounts := by
  unfold addBalance Decimal.amounts
  split
  · simp only [Totals.bookAll, Totals.book, Totals.on]
    cases t.credit.add? x.abs <;> rfl
  · simp only [Totals.bookAll, Totals.book, Totals.on]
    cases t.debit.add? x <;> rfl

/-- The key that a balance goes to, if its account is mapped. -/
def keyOf? (mappings : GlMappings) (e : BalanceEntry) : Option GlKey :=
  (mappings.find? e.account).map fun m => ⟨m.code, e.unit, m.type⟩

/-- The balances of mapped accounts. -/
def mappedRows (mappings : GlMappings) (es : List BalanceEntry) : List BalanceEntry :=
  es.filter fun e => (mappings.find? e.account).isSome

/-- What a projection books: each balance of a mapped account on the key of its mapping. -/
def postings (mappings : GlMappings) (es : List BalanceEntry) : List (GlKey × List Booking) :=
  es.filterMap fun e => (mappings.find? e.account).map fun m =>
    (⟨m.code, e.unit, m.type⟩, e.balance.amounts)

/-- Grouping the balances is booking the mapped ones on their keys: unmapped ones are passed over,
    and a failure of the one is a failure of the other. -/
theorem group_eq_ok_iff {mappings : GlMappings} {es : List BalanceEntry}
    {g g' : Table GlKey Totals} :
    es.foldlM (group mappings) g = .ok g' ↔ bookRows g (postings mappings es) = some g' := by
  induction es generalizing g with
  | nil => exact ok_eq_ok_iff
  | cons e es ih =>
    rw [List.foldlM_cons, postings, List.filterMap_cons, group]
    cases hm : mappings.find? e.account with
    | none => exact ih
    | some m =>
      simp only [Option.map_some, addBalance_eq]
      rw [bookRows, totalsAt]
      cases ((g.find? ⟨m.code, e.unit, m.type⟩).getD .zero).bookAll e.balance.amounts with
      | none => exact error_eq_ok_iff
      | some t => exact ih

/-- Totalling the groups is booking each one's pair of totals on the report's. -/
theorem addToReport_eq_ok_iff {rows : List (GlKey × Totals)} {t t' : Totals} :
    rows.foldlM addToReport t = .ok t' ↔
      t.bookAll (rows.flatMap fun row => row.2.amounts) = some t' := by
  induction rows generalizing t with
  | nil => exact ok_eq_ok_iff
  | cons row rows ih =>
    rw [List.foldlM_cons, List.flatMap_cons, Totals.bookAll_append, Totals.bookAll_amounts,
      addToReport]
    cases t.debit.add? row.2.debit with
    | none => exact error_eq_ok_iff
    | some d =>
      rw [Option.bind_some]
      cases t.credit.add? row.2.credit with
      | none => exact error_eq_ok_iff
      | some c => exact ih

/-- What the checks book: the totals of each entry on its unit. -/
def bookings (r : GlReport) : List (UnitId × List Booking) :=
  r.entries.map fun e => (e.unit, Totals.amounts ⟨e.debits, e.credits⟩)

/-- Totalling by units is booking each entry's pair of totals on its unit. -/
theorem addToUnit_eq_ok_iff {es : List GlEntry} {t t' : Table UnitId Totals} :
    es.foldlM addToUnit t = .ok t' ↔
      bookRows t (es.map fun e => (e.unit, Totals.amounts ⟨e.debits, e.credits⟩)) = some t' := by
  induction es generalizing t with
  | nil => exact ok_eq_ok_iff
  | cons e es ih =>
    rw [List.foldlM_cons, List.map_cons, bookRows, Totals.bookAll_amounts, totalsAt, addToUnit]
    dsimp only
    cases ((t.find? e.unit).getD .zero).debit.add? e.debits with
    | none => exact error_eq_ok_iff
    | some d =>
      rw [Option.bind_some]
      cases ((t.find? e.unit).getD .zero).credit.add? e.credits with
      | none => exact error_eq_ok_iff
      | some c => exact ih

/-- The report of the totals of some keys. -/
def ofGroups (asOf : Instant) (g : Table GlKey Totals) (totals : Totals) : GlReport :=
  ⟨asOf, g.rows.map fun row => ⟨row.1.code, row.1.unit, row.1.type, row.2.debit, row.2.credit⟩,
    totals.debit, totals.credit⟩

/-- A report is made of the totals that its balances are booked on, and of their totals. -/
theorem ofSnapshot_eq_ok_iff {s : Snapshot} {mappings : GlMappings} {asOf : Instant}
    {r : GlReport} : ofSnapshot s mappings asOf = .ok r ↔
      ∃ g totals, bookRows .empty (postings mappings s.entries) = some g ∧
        Totals.zero.bookAll (g.rows.flatMap fun row => row.2.amounts) = some totals ∧
        r = ofGroups asOf g totals := by
  rw [ofSnapshot, bind_eq_ok]
  simp only [group_eq_ok_iff, bind_eq_ok, addToReport_eq_ok_iff]
  constructor
  · rintro ⟨g, hg, totals, htotals, hr⟩
    exact ⟨g, totals, hg, htotals, (Except.ok.inj hr).symm⟩
  · rintro ⟨g, totals, hg, htotals, rfl⟩
    exact ⟨g, hg, totals, htotals, rfl⟩

/-- The entries of a report are its groups, so the checks book again what the projection had
    totalled. -/
theorem bookings_ofGroups (asOf : Instant) (g : Table GlKey Totals) (totals : Totals) :
    (ofGroups asOf g totals).bookings = g.rows.map fun row => (row.1.unit, row.2.amounts) := by
  rw [bookings, ofGroups, List.map_map]
  rfl

/-- The totals by units are there exactly if all additions of the check have room. -/
theorem unitTotals_eq_ok_iff {r : GlReport} {t : Table UnitId Totals} :
    r.unitTotals = .ok t ↔ bookRows .empty r.bookings = some t := addToUnit_eq_ok_iff

/-! ## What a report holds

  A total is the sum of what was booked on it and the slips of the additions that were made on the
  way.  Summed with the sign of the side, the bookings are the mapped balances, so the slips are all
  that a report can be off by. -/

/-- The additions of a projection to the totals of its keys. -/
def groupAdditions (mappings : GlMappings) (s : Snapshot) : List (GlKey × Addition) :=
  rowAdditions .empty (postings mappings s.entries)

/-- The additions that make the totals of a report of those of its entries. -/
def totalAdditions (r : GlReport) : List Addition :=
  Totals.zero.additions (bookingsFor (fun _ => true) r.bookings)

/-- The additions of the check by units. -/
def unitAdditions (r : GlReport) : List (UnitId × Addition) := rowAdditions .empty r.bookings

/-- The mapped balances of some units, exactly. -/
def mappedBalance (mappings : GlMappings) (p : UnitId → Bool) (es : List BalanceEntry) : ℚ :=
  ((es.filter fun e => (mappings.find? e.account).isSome && p e.unit).map fun e =>
    e.balance.value).sum

/-- What a projection books for some keys are the amounts of the balances that go to them. -/
theorem bookingsFor_postings_keys (mappings : GlMappings) (p : GlKey → Bool)
    (es : List BalanceEntry) : bookingsFor p (postings mappings es)
      = (es.filter fun e => (keyOf? mappings e).any p).flatMap fun e => e.balance.amounts := by
  induction es with
  | nil => rfl
  | cons e es ih =>
    rw [postings, List.filterMap_cons, List.filter_cons, keyOf?]
    cases mappings.find? e.account with
    | none => exact ih
    | some m =>
      simp only [Option.map_some, Option.any_some]
      rw [bookingsFor_cons, ← postings, ih]
      by_cases hp : p ⟨m.code, e.unit, m.type⟩ = true
      · rw [if_pos hp, if_pos hp, List.flatMap_cons]
      · rw [if_neg hp, if_neg hp, List.nil_append]

/-- What a projection books for some units are the amounts of their mapped balances. -/
theorem bookingsFor_postings (mappings : GlMappings) (p : UnitId → Bool) (es : List BalanceEntry) :
    bookingsFor (fun k => p k.unit) (postings mappings es)
      = (es.filter fun e => (mappings.find? e.account).isSome && p e.unit).flatMap fun e =>
        e.balance.amounts := by
  have hunits : ∀ e, (keyOf? mappings e).any (fun k => p k.unit)
      = ((mappings.find? e.account).isSome && p e.unit) := by
    intro e
    rw [keyOf?]
    cases mappings.find? e.account with
    | none => rfl
    | some m => exact (Bool.true_and _).symm
  simp only [bookingsFor_postings_keys, hunits]

/-- The postings of some units, debits less credits, are the mapped balances of those units: each
    balance is posted once, under its own unit. -/
theorem excess_postings (mappings : GlMappings) (p : UnitId → Bool) (es : List BalanceEntry) :
    excess (bookingsFor (fun k => p k.unit) (postings mappings es))
      = mappedBalance mappings p es := by
  simp only [bookingsFor_postings, excess_flatMap, excess_amounts, mappedBalance]

/-- What the entries of some units book is what the keys of the units hold. -/
theorem booked_bookings (s : Side) (p : UnitId → Bool) (asOf : Instant) (g : Table GlKey Totals)
    (totals : Totals) : booked s (bookingsFor p (ofGroups asOf g totals).bookings)
      = heldOn s (fun k => p k.unit) g := by
  rw [bookings_ofGroups, heldOn, Table.sumOver]
  induction g.rows with
  | nil => rfl
  | cons row rows ih =>
    rw [List.map_cons, bookingsFor_cons, booked_append, ih, List.map_cons, List.sum_cons]
    cases p row.1.unit with
    | true => rw [if_pos rfl, if_pos rfl, Totals.booked_amounts]
    | false => rfl

/-- The totals of the report book what the entries book, taken together and without the units. -/
theorem flatMap_amounts (asOf : Instant) (g : Table GlKey Totals) (totals : Totals) :
    (g.rows.flatMap fun row => row.2.amounts)
      = bookingsFor (fun _ => true) (ofGroups asOf g totals).bookings := by
  rw [bookings_ofGroups, bookingsFor, List.filter_true, List.flatMap_map]

variable {s : Snapshot} {mappings : GlMappings} {asOf : Instant} {r : GlReport}

/-- The debits of the entries of some units, less their credits, are the mapped balances and the
    drift of the additions. -/
theorem excess_of_ofSnapshot (h : ofSnapshot s mappings asOf = .ok r) (p : UnitId → Bool) :
    excess (bookingsFor p r.bookings) = mappedBalance mappings p s.entries
      + drift (additionsFor (fun k => p k.unit) (groupAdditions mappings s)) := by
  obtain ⟨g, totals, hg, -, rfl⟩ := ofSnapshot_eq_ok_iff.mp h
  rw [excess, booked_bookings, booked_bookings, heldOn_bookRows hg, heldOn_bookRows hg,
    heldOn_empty, heldOn_empty, ← excess_postings, excess, drift, groupAdditions]
  ring

/-- The debits of a report, less its credits. -/
theorem debits_sub_credits (h : ofSnapshot s mappings asOf = .ok r) :
    r.debits.value - r.credits.value
      = excess (bookingsFor (fun _ => true) r.bookings) + drift r.totalAdditions := by
  obtain ⟨g, totals, -, htotals, rfl⟩ := ofSnapshot_eq_ok_iff.mp h
  rw [flatMap_amounts asOf g totals] at htotals
  have hon : ∀ side, (totals.on side).value
      = booked side (bookingsFor (fun _ => true) (ofGroups asOf g totals).bookings)
        + totalSlip (onSide side (totalAdditions (ofGroups asOf g totals))) := by
    intro side
    rw [Totals.value_bookAll htotals side, Totals.value_zero, zero_add, totalAdditions]
  show (totals.on .debit).value - (totals.on .credit).value = _
  rw [hon, hon, excess, drift]
  ring

/-- The debits of a unit, less its credits, in the check by units. -/
theorem unit_debits_sub_credits {t : Table UnitId Totals} (h : r.unitTotals = .ok t) (u : UnitId) :
    (totalsAt t u).debit.value - (totalsAt t u).credit.value
      = excess (bookingsFor (fun j => j == u) r.bookings)
        + drift (additionsFor (fun j => j == u) r.unitAdditions) := by
  have hon : ∀ side, ((totalsAt t u).on side).value
      = booked side (bookingsFor (fun j => j == u) r.bookings)
        + totalSlip (onSide side (additionsFor (fun j => j == u) r.unitAdditions)) := by
    intro side
    rw [← heldOn_single, heldOn_bookRows (unitTotals_eq_ok_iff.mp h), heldOn_empty, zero_add,
      unitAdditions]
  show ((totalsAt t u).on .debit).value - ((totalsAt t u).on .credit).value = _
  rw [hon, hon, excess, drift]
  ring

/-! ## Few balances

  Where all amounts are multiples of one `10^-k` and their sum stays in range, no addition slips, so
  the equations above hold without a drift.  The bound is carried from the balances to the bookings
  of each of the three runs. -/

/-- What balances bring to a side: those of its sign, without the sign. -/
theorem booked_postings (side : Side) (p : UnitId → Bool) (es : List BalanceEntry) :
    booked side (bookingsFor (fun k => p k.unit) (postings mappings es))
      = ((es.filter fun e => (mappings.find? e.account).isSome && p e.unit).map fun e =>
        max (side.sign * e.balance.value) 0).sum := by
  simp only [bookingsFor_postings, booked_flatMap, booked_amounts]

/-- A balance that is a whole multiple is booked as one. -/
theorem whole_amounts {k : Nat} {x : Decimal} (hx : x.value ∈ Book.multiples k) :
    ∀ b ∈ x.amounts, Whole k b.amount := by
  intro b hb
  unfold Decimal.amounts at hb
  split at hb
  · rename_i hneg
    obtain rfl := List.mem_singleton.mp hb
    have habs : x.abs.value = -x.value := by
      rw [value_abs, abs_of_neg ((value_neg_iff x).mpr hneg)]
    rw [Whole, habs]
    exact ⟨neg_mem hx, neg_nonneg.mpr ((value_neg_iff x).mpr hneg).le⟩
  · rename_i hneg
    obtain rfl := List.mem_singleton.mp hb
    exact ⟨hx, not_lt.mp fun h => hneg ((value_neg_iff x).mp h)⟩

/-- So are all balances of mapped accounts, on their keys. -/
theorem whole_postings {k : Nat} {es : List BalanceEntry}
    (hes : ∀ e ∈ mappedRows mappings es, e.balance.value ∈ Book.multiples k) :
    ∀ row ∈ postings mappings es, ∀ b ∈ row.2, Whole k b.amount := by
  intro row hrow b hb
  obtain ⟨e, he, hsome⟩ := List.mem_filterMap.mp hrow
  obtain ⟨m, hm, rfl⟩ := Option.map_eq_some_iff.mp hsome
  exact whole_amounts (hes e (List.mem_filter.mpr ⟨he, by rw [hm]; rfl⟩)) b hb

/-- The totals of groups that hold whole multiples are whole multiples, and these are what the
    checks book. -/
theorem whole_bookings {k : Nat} {g : Table GlKey Totals} (hg : WholeRows k g) (asOf : Instant)
    (totals : Totals) :
    ∀ row ∈ (ofGroups asOf g totals).bookings, ∀ b ∈ row.2, Whole k b.amount := by
  intro row hrow b hb
  rw [bookings_ofGroups] at hrow
  obtain ⟨r, hr, rfl⟩ := List.mem_map.mp hrow
  have hwhole : r.2.Whole k := totalsAt_of_mem hr ▸ hg r.1
  rcases List.mem_pair.mp hb with rfl | rfl
  · exact hwhole .debit
  · exact hwhole .credit

/-- Of few balances that are whole multiples a report is made, and its totals, those of its entries
    and those of its units are exact. -/
theorem groups_exact {k : Nat} (asOf : Instant) (hk : k ≤ 28)
    (hwhole : ∀ e ∈ mappedRows mappings s.entries, e.balance.value ∈ Book.multiples k)
    (hfew : ∀ side, booked side (bookingsFor (fun _ => true) (postings mappings s.entries))
      * (tenTo k : ℚ) < (twoTo 96 : ℚ)) :
    ∃ g totals t, ofSnapshot s mappings asOf = .ok (ofGroups asOf g totals) ∧
      (ofGroups asOf g totals).unitTotals = .ok t ∧
      (∀ side p, heldOn side p g = booked side (bookingsFor p (postings mappings s.entries))) ∧
      (∀ side, (totals.on side).value
        = booked side (bookingsFor (fun _ => true) (postings mappings s.entries))) ∧
      ∀ side u, ((totalsAt t u).on side).value
        = booked side (bookingsFor (fun key => key.unit == u) (postings mappings s.entries)) := by
  obtain ⟨g, hg, hgroups, hheld⟩ := bookRows_empty_exact hk (whole_postings hwhole) hfew
  -- the entries book as much as the keys hold, which is what the balances brought
  have hbooked : ∀ totals side p, booked side (bookingsFor p (ofGroups asOf g totals).bookings)
      = booked side (bookingsFor (fun key => p key.unit) (postings mappings s.entries)) := by
    intro totals side p
    rw [booked_bookings, hheld]
  obtain ⟨totals, htotals, -, hvalue⟩ := Totals.bookAll_exact hk (Totals.whole_zero k)
    (forall_mem_bookingsFor (whole_bookings hgroups asOf .zero) fun _ => true)
    fun side => by
      rw [Totals.value_zero, zero_add, hbooked]
      exact hfew side
  obtain ⟨t, ht, -, hunits⟩ := bookRows_empty_exact hk (whole_bookings hgroups asOf totals)
    fun side => by
      rw [hbooked]
      exact hfew side
  rw [← flatMap_amounts] at htotals
  refine ⟨g, totals, t, ofSnapshot_eq_ok_iff.mpr ⟨g, totals, hg, htotals, rfl⟩,
    unitTotals_eq_ok_iff.mpr ht, hheld, ?_, ?_⟩
  · intro side
    rw [hvalue, Totals.value_zero, zero_add, hbooked]
  · intro side u
    rw [← heldOn_single, hunits, hbooked]

/-- So the totals and those of the units differ by the mapped balances. -/
theorem ofSnapshot_exact {k : Nat} (asOf : Instant) (hk : k ≤ 28)
    (hwhole : ∀ e ∈ s.entries, e.balance.value ∈ Book.multiples k)
    (hfew : ∀ side, booked side (bookingsFor (fun _ => true) (postings mappings s.entries))
      * (tenTo k : ℚ) < (twoTo 96 : ℚ)) :
    ∃ r t, ofSnapshot s mappings asOf = .ok r ∧ r.unitTotals = .ok t ∧
      r.debits.value - r.credits.value = mappedBalance mappings (fun _ => true) s.entries ∧
      ∀ u, (totalsAt t u).debit.value - (totalsAt t u).credit.value
        = mappedBalance mappings (fun j => j == u) s.entries := by
  obtain ⟨g, totals, t, hr, ht, -, htotals, hunits⟩ :=
    groups_exact asOf hk (fun e he => hwhole e (List.mem_filter.mp he).1) hfew
  refine ⟨ofGroups asOf g totals, t, hr, ht, ?_, ?_⟩
  · show (totals.on .debit).value - (totals.on .credit).value = _
    rw [htotals, htotals, ← excess_postings, excess]
  · intro u
    show ((totalsAt t u).on .debit).value - ((totalsAt t u).on .credit).value = _
    rw [hunits, hunits, ← excess_postings, excess]

end GlReport
end Subledger
