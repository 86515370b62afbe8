/-
  TRIAL BALANCES: when the report of a book balances.

  The debits of a report are the balances above zero, and its credits those below.  So the report of
  a book whose balances add up to zero would balance if additions were exact.  They are not, and the
  sides of a report are added up in another order than the reconciliation adds the balances up in.

  1. **The checks** (`trialBalance_eq_ok_iff`, `trialBalanceByUnit_eq_ok_iff`) — they compare values,
     also where the difference of the totals is rounded.
  2. **The book** (`mappedBalance_snapshot`) — if every account is mapped, the balances of a report
     are those of the book.
  3. **The condition** (`trial_balances_exact_condition`) — a verified book balances exactly if the
     report drifts as far as the slips of the reconciliation, and `trial_balances_off` is a book of
     exact supply zero of which neither trial balance passes.
  4. **Bounded volume** (`trial_balances_of_bounded_volume`) — if the quantities are few, every
     report of every reachable book balances.
-/
import Subledger.Proofs.Decimal.RoundTrip
import Subledger.Proofs.GeneralLedger.Projection

namespace Subledger

open Decimal

namespace GlReport

/-! ## The checks -/

/-- The check of a report, said of the values of its totals. -/
theorem trialBalance_eq (r : GlReport) : r.trialBalance =
    if (twoTo 96 : ℚ) - 1 / 2 ≤ |r.debits.value - r.credits.value| then
      .error (.differenceOverflow r.debits r.credits)
    else if r.debits.value = r.credits.value then .ok .zero
    else .error (.unbalanced r.debits r.credits) := by
  rw [trialBalance]
  cases hsub : r.debits.sub? r.credits with
  | none => rw [if_pos (sub?_eq_none_iff.mp hsub)]
  | some d =>
    have hnear : ¬(twoTo 96 : ℚ) - 1 / 2 ≤ |r.debits.value - r.credits.value| := by
      rw [← sub?_eq_none_iff, hsub]
      exact Option.some_ne_none d
    rw [if_neg hnear]
    exact if_congr (sub?_isZero_iff hsub) rfl rfl

/-- Whatever the report, its totals are compared by value. -/
theorem trialBalance_eq_ok_iff {r : GlReport} :
    r.trialBalance = .ok .zero ↔ r.debits.value = r.credits.value := by
  rw [trialBalance_eq]
  split
  · rename_i hfar
    refine iff_of_false (by rintro ⟨⟩) ?_
    intro heq
    rw [heq, sub_self, abs_zero] at hfar
    norm_num [twoTo] at hfar
  · split
    · rename_i heq
      exact iff_of_true rfl heq
    · rename_i hne
      exact iff_of_false (by rintro ⟨⟩) hne

theorem firstUnbalanced_eq_ok_iff {rows : List (UnitId × Totals)} :
    firstUnbalanced rows = .ok () ↔ ∀ row ∈ rows, row.2.debit.value = row.2.credit.value := by
  induction rows with
  | nil => exact iff_of_true rfl (fun row h => absurd h List.not_mem_nil)
  | cons row rest ih =>
    rw [List.forall_mem_cons, ← ih, ← same_iff_value, firstUnbalanced]
    cases row.2.debit.same row.2.credit with
    | true => exact (and_iff_right rfl).symm
    | false => exact iff_of_false (fun h => nomatch h) (fun h => nomatch h.1)

/-- The check by units passes exactly if the totals of the units are found, and agree. -/
theorem trialBalanceByUnit_eq_ok_iff {r : GlReport} : r.trialBalanceByUnit = .ok () ↔
    ∃ t, r.unitTotals = .ok t ∧ ∀ u, (totalsAt t u).debit.value = (totalsAt t u).credit.value := by
  rw [trialBalanceByUnit, bind_eq_ok]
  refine exists_congr ?_
  intro t
  rw [firstUnbalanced_eq_ok_iff]
  refine and_congr_right ?_
  intro _
  constructor
  · intro h u
    rw [totalsAt]
    cases hu : t.find? u with
    | none => rfl
    | some totals => exact h (u, totals) (Table.mem_rows_iff.mpr hu)
  · intro h row hrow
    rw [← totalsAt_of_mem hrow]
    exact h row.1

end GlReport

/-! ## The balances of a book -/

/-- Every balance of the book has a mapping. -/
def FullyMapped (mappings : GlMappings) (b : Book) : Prop :=
  ∀ row ∈ b.balances.rows, (mappings.find? row.1.account).isSome = true

instance (mappings : GlMappings) (b : Book) : Decidable (FullyMapped mappings b) :=
  inferInstanceAs (Decidable (∀ row ∈ b.balances.rows, _))

namespace Book

variable {b : Book} {mappings : GlMappings}

theorem mappedBalance_snapshot (h : FullyMapped mappings b) (p : UnitId → Bool) :
    GlReport.mappedBalance mappings p b.snapshot.entries
      = ((b.balances.rows.filter fun row => p row.1.unit).map fun row => row.2.value).sum := by
  have hall : b.balances.rows.filter (fun row => (mappings.find? row.1.account).isSome
      && p row.1.unit) = b.balances.rows.filter fun row => p row.1.unit := by
    refine List.filter_congr ?_
    intro row hrow
    rw [h row hrow, Bool.true_and]
  rw [← hall, GlReport.mappedBalance, snapshot, List.filter_map, List.map_map]
  refine congrArg List.sum (List.map_congr_left ?_)
  intro row _
  exact value_normalize row.2

/-- The mapped balances of a unit are its supply. -/
theorem mappedBalance_unit (h : FullyMapped mappings b) (u : UnitId) :
    GlReport.mappedBalance mappings (fun j => j == u) b.snapshot.entries = b.supply u := by
  rw [mappedBalance_snapshot h, supply, holdings, List.map_map]
  rfl

/-- Each amount weighs in the supply of its own unit only. -/
theorem sum_weight {S : Finset UnitId} {rows : List (Position × Decimal)}
    (h : ∀ row ∈ rows, row.1.unit ∈ S) :
    ∑ u ∈ S, (rows.map fun row => weight u row.1 row.2).sum
      = (rows.map fun row => row.2.value).sum := by
  induction rows with
  | nil => exact Finset.sum_const_zero
  | cons row rows ih =>
    obtain ⟨hrow, hrows⟩ := List.forall_mem_cons.mp h
    simp only [List.map_cons, List.sum_cons]
    rw [Finset.sum_add_distrib, ih hrows]
    simp only [weight]
    rw [Finset.sum_ite_eq, if_pos hrow]

/-- The mapped balances of all units are their supplies. -/
theorem mappedBalance_all (h : FullyMapped mappings b) :
    GlReport.mappedBalance mappings (fun _ => true) b.snapshot.entries
      = ∑ u ∈ b.units.toFinset, b.supply u := by
  have hunits : ∀ row ∈ b.balances.rows, row.1.unit ∈ b.units.toFinset := by
    intro row hrow
    exact List.mem_toFinset.mpr (mem_units_iff.mpr ⟨row, hrow, rfl⟩)
  simp only [supply_eq_sumOver, Table.sumOver]
  rw [mappedBalance_snapshot h, List.filter_true, sum_weight hunits]

/-- In a verified book the slips of the reconciliation make up for the supply of each unit. -/
theorem supply_of_verified (h : b.verifyConservation = .ok ()) (u : UnitId) :
    b.supply u = -totalSlip (b.supplyAdditions u) := by
  by_cases hu : u ∈ b.units
  · obtain ⟨x, hx, hzero⟩ := verifyUnits_eq_ok_iff.mp h u hu
    rw [value_of_totalSupply hx] at hzero
    exact eq_neg_of_add_eq_zero_left hzero
  · rw [supply, supplyAdditions, holdings_eq_nil hu]
    rfl

end Book

/-! ## When a verified book balances -/

namespace GlReport

/-- **The exact condition of a balance.**  Take a book that is verified, mappings of all its
    accounts, and the report that is made of it.  The report balances exactly if its additions lead
    the debits as far away from the credits as the slips of the reconciliation come to; and it
    balances by units exactly if the totals of the units can be held and this is so for each unit. -/
theorem trial_balances_exact_condition {b : Book} {mappings : GlMappings} {asOf : Instant}
    {r : GlReport} (hverified : b.verifyConservation = .ok ()) (hmapped : FullyMapped mappings b)
    (hr : ofSnapshot b.snapshot mappings asOf = .ok r) :
    (r.trialBalance = .ok .zero ↔
      drift (additionsFor (fun _ => true) (groupAdditions mappings b.snapshot))
          + drift r.totalAdditions
        = ∑ u ∈ b.units.toFinset, totalSlip (b.supplyAdditions u)) ∧
    (r.trialBalanceByUnit = .ok () ↔ (∃ t, r.unitTotals = .ok t) ∧ ∀ u,
      drift (additionsFor (fun key => key.unit == u) (groupAdditions mappings b.snapshot))
          + drift (additionsFor (fun j => j == u) r.unitAdditions)
        = totalSlip (b.supplyAdditions u)) := by
  constructor
  · have hdiff : r.debits.value - r.credits.value
        = drift (additionsFor (fun _ => true) (groupAdditions mappings b.snapshot))
          + drift r.totalAdditions - ∑ u ∈ b.units.toFinset, totalSlip (b.supplyAdditions u) := by
      rw [debits_sub_credits hr, excess_of_ofSnapshot hr, Book.mappedBalance_all hmapped]
      simp only [Book.supply_of_verified hverified]
      rw [Finset.sum_neg_distrib]
      ring
    rw [trialBalance_eq_ok_iff, ← sub_eq_zero, hdiff, sub_eq_zero]
  · have hdiff : ∀ t, r.unitTotals = .ok t → ∀ u,
        (totalsAt t u).debit.value - (totalsAt t u).credit.value
          = drift (additionsFor (fun key => key.unit == u) (groupAdditions mappings b.snapshot))
            + drift (additionsFor (fun j => j == u) r.unitAdditions)
            - totalSlip (b.supplyAdditions u) := by
      intro t ht u
      rw [unit_debits_sub_credits ht, excess_of_ofSnapshot hr, Book.mappedBalance_unit hmapped,
        Book.supply_of_verified hverified]
      ring
    rw [trialBalanceByUnit_eq_ok_iff]
    constructor
    · rintro ⟨t, ht, hbalanced⟩
      refine ⟨⟨t, ht⟩, ?_⟩
      intro u
      rw [← sub_eq_zero, ← hdiff t ht u, sub_eq_zero]
      exact hbalanced u
    · rintro ⟨⟨t, ht⟩, hdrift⟩
      refine ⟨t, ht, ?_⟩
      intro u
      rw [← sub_eq_zero, hdiff t ht u, sub_eq_zero]
      exact hdrift u

end GlReport

namespace Sample

/-- A fifth account. -/
def erin : AccountId := ⟨"erin", by decide⟩

/-- `2^96 - 2`. -/
def nextToLargest : Quantity :=
  ⟨⟨false, 79228162514264337593543950334, 0, by decide, Decimal.zero.scale_le⟩, by decide,
    by decide⟩

/-- `0.4`. -/
def fourTenths : Quantity := ⟨⟨false, 4, 1, by decide, threeTenths.value.scale_le⟩, by decide,
  by decide⟩

/-- `0.8`. -/
def eightTenths : Quantity := ⟨⟨false, 8, 1, by decide, threeTenths.value.scale_le⟩, by decide,
  by decide⟩

/-- An amount next to the largest goes from Bob to Alice, and twice four tenths go from Erin. -/
def scatteredRun : List Book.Call :=
  [.register ⟨erin, .cash⟩,
    .execute (transfer firstId bob alice nextToLargest),
    .execute (transfer secondId erin carol fourTenths),
    .execute (transfer thirdId erin dave fourTenths)]

/-- The balances of that run add up to zero. -/
theorem supply_scatteredRun (u : UnitId) :
    ((Book.ofRegistry registry).run scatteredRun).supply u = 0 := by
  have hunits : ((Book.ofRegistry registry).run scatteredRun).units = [euro] := by decide
  have hheld : ((Book.ofRegistry registry).run scatteredRun).holdings euro
      = [nextToLargest.value, nextToLargest.value.neg, fourTenths.value, fourTenths.value,
        eightTenths.value.neg] := by decide
  have hfour : fourTenths.value.value = 4 / 10 := by
    show ((4 : ℤ) : ℚ) / ((10 : ℕ) : ℚ) = 4 / 10
    norm_num
  have height : eightTenths.value.value = 8 / 10 := by
    show ((8 : ℤ) : ℚ) / ((10 : ℕ) : ℚ) = 8 / 10
    norm_num
  by_cases hu : u = euro
  · rw [hu, Book.supply, hheld]
    simp only [List.map_cons, List.map_nil, List.sum_cons, List.sum_nil, value_neg, hfour, height]
    ring
  · have hnot : u ∉ ((Book.ofRegistry registry).run scatteredRun).units := by
      rw [hunits, List.mem_singleton]
      exact hu
    rw [Book.supply, Book.holdings_eq_nil hnot]
    rfl

/-- All accounts on one code. -/
def oneCode : GlMappings :=
  .ofList ([alice, bob, carol, dave, erin].map fun a => (a, ⟨"1000", .asset⟩))

/-- The report of that run: the four tenths are rounded away from the debits, one after the other,
    and together they round the credits up. -/
def scatteredReport : GlReport :=
  ⟨.epoch, [⟨"1000", euro, .asset, nextToLargest.value, largest.value⟩], nextToLargest.value,
    largest.value⟩

/-- The report of a run in which Bob's three tenths were rounded away at Alice. -/
def roundedReport : GlReport :=
  ⟨.epoch, [⟨"1000", euro, .asset, largest.value, largest.value⟩], largest.value, largest.value⟩

end Sample

namespace GlReport

/-- Bob's three tenths are rounded away from the credits of the report as well, so it balances. -/
theorem trial_balances_exact_condition_rounded :
    ((Book.ofRegistry Sample.registry).run Sample.roundingRun).verifyConservation = .ok () ∧
      FullyMapped Sample.oneCode ((Book.ofRegistry Sample.registry).run Sample.roundingRun) ∧
      ofSnapshot ((Book.ofRegistry Sample.registry).run Sample.roundingRun).snapshot Sample.oneCode
        .epoch = .ok Sample.roundedReport ∧
      drift (additionsFor (fun _ => true) (groupAdditions Sample.oneCode
          ((Book.ofRegistry Sample.registry).run Sample.roundingRun).snapshot))
          + drift Sample.roundedReport.totalAdditions
        = ∑ u ∈ ((Book.ofRegistry Sample.registry).run Sample.roundingRun).units.toFinset,
          totalSlip
            (((Book.ofRegistry Sample.registry).run Sample.roundingRun).supplyAdditions u) := by
  have hverified : ((Book.ofRegistry Sample.registry).run Sample.roundingRun).verifyConservation
      = .ok () := by rfl
  have hmapped : FullyMapped Sample.oneCode
      ((Book.ofRegistry Sample.registry).run Sample.roundingRun) := by decide
  have hreport : ofSnapshot ((Book.ofRegistry Sample.registry).run Sample.roundingRun).snapshot
      Sample.oneCode .epoch = .ok Sample.roundedReport := by rfl
  exact ⟨hverified, hmapped, hreport,
    (trial_balances_exact_condition hverified hmapped hreport).1.mp (by rfl)⟩

/-- Both trial balances of a report are off, although the balances of its book are verified, and add
    up to zero also exactly. -/
theorem trial_balances_off :
    (¬ ∀ (r : Registry) (cs : List Book.Call) (mappings : GlMappings) (asOf : Instant)
      (report : GlReport), (∀ u, ((Book.ofRegistry r).run cs).supply u = 0) →
      ((Book.ofRegistry r).run cs).verifyConservation = .ok () →
      FullyMapped mappings ((Book.ofRegistry r).run cs) →
      ofSnapshot ((Book.ofRegistry r).run cs).snapshot mappings asOf = .ok report →
      report.trialBalance = .ok .zero) ∧
    ¬ ∀ (r : Registry) (cs : List Book.Call) (mappings : GlMappings) (asOf : Instant)
      (report : GlReport), (∀ u, ((Book.ofRegistry r).run cs).supply u = 0) →
      ((Book.ofRegistry r).run cs).verifyConservation = .ok () →
      FullyMapped mappings ((Book.ofRegistry r).run cs) →
      ofSnapshot ((Book.ofRegistry r).run cs).snapshot mappings asOf = .ok report →
      report.trialBalanceByUnit = .ok () := by
  have hverified : ((Book.ofRegistry Sample.registry).run Sample.scatteredRun).verifyConservation
      = .ok () := by rfl
  have hmapped : FullyMapped Sample.oneCode
      ((Book.ofRegistry Sample.registry).run Sample.scatteredRun) := by decide
  have hreport : ofSnapshot ((Book.ofRegistry Sample.registry).run Sample.scatteredRun).snapshot
      Sample.oneCode .epoch = .ok Sample.scatteredReport := by rfl
  constructor
  · intro h
    have hbalanced := h _ _ _ _ _ Sample.supply_scatteredRun hverified hmapped hreport
    have hoff : Sample.scatteredReport.trialBalance
        = .error (.unbalanced Sample.nextToLargest.value Sample.largest.value) := by rfl
    rw [hoff] at hbalanced
    exact nomatch hbalanced
  · intro h
    have hbalanced := h _ _ _ _ _ Sample.supply_scatteredRun hverified hmapped hreport
    have hoff : Sample.scatteredReport.trialBalanceByUnit = .error
        (.unbalancedUnit Sample.euro Sample.nextToLargest.value Sample.largest.value) := by rfl
    rw [hoff] at hbalanced
    exact nomatch hbalanced

end GlReport

/-! ## Bounded volume -/

namespace Book

/-- The balances on one side of zero add up to all that is on the side. -/
theorem sum_side (side : Side) (rows : List (Position × Decimal)) :
    (rows.map fun row => max (side.sign * row.2.value) 0).sum
      = side.sign * ((rows.filter fun row => 0 < side.sign * row.2.value).map fun row =>
        row.2.value).sum := by
  induction rows with
  | nil => simp
  | cons row rows ih =>
    rw [List.map_cons, List.sum_cons, ih, List.filter_cons]
    by_cases hrow : 0 < side.sign * row.2.value
    · rw [if_pos (decide_eq_true hrow), List.map_cons, List.sum_cons, max_eq_left hrow.le]
      ring
    · rw [if_neg (by simpa using hrow), max_eq_right (not_lt.mp hrow), zero_add]

variable {k : Nat} {b : Book} {ms : List Move}

/-- What balances that track postings bring to a side is a flow, so it is few. -/
theorem Tracks.booked_lt (h : Tracks b.balances (ms.flatMap Move.postings))
    (hvol : BoundedVolume k ms) (mappings : GlMappings) (side : Side) :
    booked side (bookingsFor (fun _ => true) (GlReport.postings mappings b.snapshot.entries))
      * (tenTo k : ℚ) < (twoTo 96 : ℚ) := by
  have hrows : (b.snapshot.entries.filter fun e => (mappings.find? e.account).isSome && true).map
        (fun e => max (side.sign * e.balance.value) 0)
      = (b.balances.rows.filter fun row => (mappings.find? row.1.account).isSome && true).map
        fun row => max (side.sign * row.2.value) 0 := by
    rw [snapshot, List.filter_map, List.map_map]
    refine List.map_congr_left ?_
    intro row _
    simp only [Function.comp_apply, value_normalize]
  have hsign : |side.sign| = 1 := by cases side <;> simp [Side.sign]
  rw [GlReport.booked_postings side fun _ => true, hrows, sum_side,
    h.sum_rows (List.filter_sublist.trans List.filter_sublist)]
  refine lt_of_le_of_lt (mul_le_mul_of_nonneg_right (le_abs_self _) (cast_tenTo_pos k).le) ?_
  rw [abs_mul, hsign, one_mul]
  exact hvol.flow_lt _ (List.prefix_refl _)

/-- Balances that track postings of whole multiples are whole multiples. -/
theorem Tracks.whole (h : Tracks b.balances (ms.flatMap Move.postings))
    (hvol : BoundedVolume k ms) : ∀ e ∈ b.snapshot.entries, e.balance.value ∈ multiples k := by
  intro e he
  obtain ⟨row, hrow, rfl⟩ := List.mem_map.mp he
  have hfound : b.balances.find? row.1 = some row.2 := Table.mem_rows_iff.mp hrow
  have hflow : row.2.value = flow {row.1} (ms.flatMap Move.postings) := by
    rw [← h.value, balanceIn, hfound]
    rfl
  rw [value_normalize, hflow]
  exact hvol.flow_mem _ (List.prefix_refl _)

/-- **On bounded volume every report balances.**  Let the quantities of all submitted moves be whole
    multiples of one `10^-k`, with `k` at most 28, and all of them together below `2^96` of those
    multiples.  Then a report is made of the book that is reached, whatever the codes its accounts
    are mapped to, and both trial balances pass. -/
theorem trial_balances_of_bounded_volume {r : Registry} {cs : List Call}
    (h : BoundedVolume k (movesOf (submitted cs).dedup)) {mappings : GlMappings}
    (hmapped : FullyMapped mappings ((ofRegistry r).run cs)) (asOf : Instant) :
    ∃ report, GlReport.ofSnapshot ((ofRegistry r).run cs).snapshot mappings asOf = .ok report ∧
      report.trialBalance = .ok .zero ∧ report.trialBalanceByUnit = .ok () := by
  have htracks := tracks_run r h (List.prefix_refl cs)
  rw [← flatMap_postings] at htracks
  have hvol := h.of_subperm_transactions (accepted_subperm r (List.prefix_refl cs))
  obtain ⟨report, t, hreport, ht, hall, hunit⟩ := GlReport.ofSnapshot_exact asOf h.places_le
    (htracks.whole hvol) (htracks.booked_lt hvol mappings)
  refine ⟨report, hreport, ?_, ?_⟩
  · rw [GlReport.trialBalance_eq_ok_iff, ← sub_eq_zero, hall, mappedBalance_all hmapped]
    exact Finset.sum_eq_zero fun u _ => htracks.supply_eq_zero u
  · refine GlReport.trialBalanceByUnit_eq_ok_iff.mpr ⟨t, ht, ?_⟩
    intro u
    rw [← sub_eq_zero, hunit, mappedBalance_unit hmapped]
    exact htracks.supply_eq_zero u

end Book
end Subledger
