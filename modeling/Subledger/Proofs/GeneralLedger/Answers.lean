/-
  ANSWERS of the trial balances, for every report.

  A report that was read is taken as it stands.  Its totals may have any sign, and may be so far apart
  that no decimal has their difference; then the check of the whole report has no answer.  The
  check by units compares and does not subtract, and has an answer for every report.

  1. **The whole report** (`trial_balances_answer`) — what comes of the check depends on how far apart
     the totals are, and on nothing else.
  2. **Unit by unit** (`trialBalanceByUnit_error`) — a failed check names a unit whose totals differ, or
     the unit of an entry whose amounts could not be added.
  3. **Reports that were made** (`totals_nonneg`) — the totals of a projection are not below zero, so
     they are no further apart than the larger of them is large.  The crux is that no addition of
     such amounts is rounded to below zero.
  4. **Where there is no answer** (`no_answer_to_far_totals`) — a document with totals of either sign.
-/
import Subledger.Proofs.Decimal.Twice
import Subledger.Proofs.GeneralLedger.Aggregation

namespace Subledger

open Decimal

/-! ## Totals that are not below zero -/

/-- Neither total is below zero. -/
def Totals.Nonneg (t : Totals) : Prop := ∀ side, 0 ≤ (t.on side).value

namespace Totals

theorem nonneg_zero : zero.Nonneg := fun side => (value_zero side).ge

variable {t t' : Totals}

/-- Booking an amount that is not negative leaves no negative total: it is added to one side and the
    other stays. -/
theorem Nonneg.book {x : Booking} (ht : t.Nonneg) (hx : 0 ≤ x.amount.value)
    (h : t.book x = some t') : t'.Nonneg := by
  obtain ⟨y, hadd, rfl⟩ := Option.map_eq_some_iff.mp h
  intro side
  rw [on_put]
  split
  · exact add?_nonneg hadd (ht x.side) hx
  · exact ht side

/-- The same for any number of bookings, one after the other. -/
theorem Nonneg.bookAll {xs : List Booking} (ht : t.Nonneg) (hxs : ∀ x ∈ xs, 0 ≤ x.amount.value)
    (h : t.bookAll xs = some t') : t'.Nonneg := by
  induction xs generalizing t with
  | nil => exact Option.some.inj h ▸ ht
  | cons x xs ih =>
    obtain ⟨hx, hrest⟩ := List.forall_mem_cons.mp hxs
    obtain ⟨s, hs, h⟩ := Option.bind_eq_some_iff.mp h
    exact ih (ht.book hx hs) hrest h

/-- The two amounts of an entry are its totals, so they are not negative either. -/
theorem Nonneg.amounts (ht : t.Nonneg) : ∀ x ∈ t.amounts, 0 ≤ x.amount.value := by
  intro x hx
  rcases List.mem_pair.mp hx with rfl | rfl
  · exact ht .debit
  · exact ht .credit

end Totals

/-- The amount of a balance has no sign. -/
theorem Decimal.amounts_nonneg (x : Decimal) : ∀ b ∈ x.amounts, 0 ≤ b.amount.value := by
  intro b hb
  unfold Decimal.amounts at hb
  split at hb
  · rw [List.mem_singleton.mp hb, value_abs]
    exact abs_nonneg _
  · rename_i hnegative
    rw [List.mem_singleton.mp hb]
    exact not_lt.mp fun h => hnegative ((value_neg_iff x).mp h)

section Rows

variable {κ : Type} [Ord κ] [Std.TransOrd κ] [Std.LawfulEqOrd κ]

/-- No group of a report goes below zero while rows are booked to it, also where sums are rounded.
    -/
theorem bookRows_nonneg {g g' : Table κ Totals} {rows : List (κ × List Booking)}
    (hg : ∀ k, (totalsAt g k).Nonneg) (hrows : ∀ row ∈ rows, ∀ x ∈ row.2, 0 ≤ x.amount.value)
    (h : bookRows g rows = some g') : ∀ k, (totalsAt g' k).Nonneg := by
  induction rows generalizing g with
  | nil => exact Option.some.inj h ▸ hg
  | cons row rows ih =>
    obtain ⟨hrow, hrest⟩ := List.forall_mem_cons.mp hrows
    obtain ⟨s, hs, h⟩ := Option.bind_eq_some_iff.mp h
    refine ih ?_ hrest h
    intro k
    by_cases hk : k = row.1
    · rw [hk, totalsAt_insert_self]
      exact (hg row.1).bookAll hrow hs
    · rw [totalsAt_insert_of_ne _ _ hk]
      exact hg k

end Rows

namespace GlReport

variable {r : GlReport}

/-- A balance is posted on the side its sign names, with its absolute value; so no posting is
    negative. -/
theorem postings_nonneg (mappings : GlMappings) (es : List BalanceEntry) :
    ∀ row ∈ postings mappings es, ∀ x ∈ row.2, 0 ≤ x.amount.value := by
  intro row hrow
  obtain ⟨e, -, he⟩ := List.mem_filterMap.mp hrow
  obtain ⟨m, -, rfl⟩ := Option.map_eq_some_iff.mp he
  exact amounts_nonneg e.balance

/-- The totals of a projection are not below zero, whatever the balances. -/
theorem totals_nonneg {s : Snapshot} {mappings : GlMappings} {asOf : Instant}
    (h : ofSnapshot s mappings asOf = .ok r) : 0 ≤ r.debits.value ∧ 0 ≤ r.credits.value := by
  obtain ⟨g, totals, hg, htotals, rfl⟩ := ofSnapshot_eq_ok_iff.mp h
  have hempty : ∀ k, (totalsAt (.empty : Table GlKey Totals) k).Nonneg := fun _ =>
    Totals.nonneg_zero
  have hkeys := bookRows_nonneg hempty (postings_nonneg mappings s.entries) hg
  have hamounts : ∀ x ∈ g.rows.flatMap fun row => row.2.amounts, 0 ≤ x.amount.value := by
    intro x hx
    obtain ⟨row, hrow, hx⟩ := List.mem_flatMap.mp hx
    have hkey := hkeys row.1
    rw [totalsAt_of_mem hrow] at hkey
    exact hkey.amounts x hx
  have hnonneg := Totals.nonneg_zero.bookAll hamounts htotals
  exact ⟨hnonneg .debit, hnonneg .credit⟩

/-! ## The answers of each check -/

/-- A trial balance that is answered is zero: every other outcome is an error. -/
theorem trialBalance_ok {x : Decimal} (h : r.trialBalance = .ok x) : x = .zero := by
  rw [trialBalance_eq] at h
  split at h
  · exact absurd h error_ne_ok
  · split at h
    · exact (Except.ok.inj h).symm
    · exact absurd h error_ne_ok

/-- Adding an entry to its unit fails in one way only, and the message names the unit. -/
theorem addToUnit_error {t : Table UnitId Totals} {x : GlEntry} {e : GlError}
    (h : addToUnit t x = .error e) : e = .overflow s!"unit {x.unit.text}" := by
  unfold addToUnit at h
  dsimp only at h
  split at h
  · exact absurd h.symm error_ne_ok
  · exact (Except.error.inj h).symm

/-- The check by units fails with a unit whose totals differ, or with one whose totals are too
    large. -/
theorem trialBalanceByUnit_error {e : GlError} (h : r.trialBalanceByUnit = .error e) :
    (∃ u d c, e = .unbalancedUnit u d c ∧ d.value ≠ c.value) ∨
      ∃ x ∈ r.entries, e = .overflow s!"unit {x.unit.text}" := by
  cases ht : r.unitTotals with
  | error cause =>
    rw [trialBalanceByUnit, ht] at h
    obtain rfl := Except.error.inj h
    obtain ⟨x, hx, t, hfails⟩ := exists_of_foldlM_error ht
    exact Or.inr ⟨x, hx, addToUnit_error hfails⟩
  | ok t =>
    rcases trialBalanceByUnit_cases ht with ⟨hok, -⟩ | ⟨u, herror, hne, -⟩
    · exact absurd (h.symm.trans hok) error_ne_ok
    · exact Or.inl ⟨u, _, _, Except.error.inj (h.symm.trans herror), hne⟩

/-! ## The result -/

/-- **What the trial balances answer**, for every report.

    * The check of the whole report passes exactly if its totals are equal in value.  It has no answer
      exactly if they are so far apart that their difference overflows, and otherwise it fails with
      both totals.
    * The check by units always has an answer: it passes, or it names a unit whose totals differ, or
      the unit of an entry that could not be added up.
    * A report that was made of a snapshot, whatever the balances and the codes, has totals that are not
      below zero; so both checks of it have an answer. -/
theorem trial_balances_answer (r : GlReport) :
    (∀ x, r.trialBalance = .ok x ↔ x = .zero ∧ r.debits.value = r.credits.value) ∧
    (∀ d c, r.trialBalance = .error (.differenceOverflow d c) ↔ (d = r.debits ∧ c = r.credits) ∧
      (twoTo 96 : ℚ) - 1 / 2 ≤ |r.debits.value - r.credits.value|) ∧
    (∀ e, r.trialBalance = .error e → e = .differenceOverflow r.debits r.credits ∨
      (e = .unbalanced r.debits r.credits ∧ r.debits.value ≠ r.credits.value)) ∧
    (∀ e, r.trialBalanceByUnit = .error e →
      (∃ u d c, e = .unbalancedUnit u d c ∧ d.value ≠ c.value) ∨
        ∃ x ∈ r.entries, e = .overflow s!"unit {x.unit.text}") ∧
    ∀ (s : Snapshot) (mappings : GlMappings) (asOf : Instant), ofSnapshot s mappings asOf = .ok r →
      (r.trialBalance = .ok .zero ∧ r.debits.value = r.credits.value) ∨
        (r.trialBalance = .error (.unbalanced r.debits r.credits) ∧
          r.debits.value ≠ r.credits.value) := by
  refine ⟨?_, ?_, ?_, fun e => trialBalanceByUnit_error, ?_⟩
  · intro x
    constructor
    · intro h
      obtain rfl := trialBalance_ok h
      exact ⟨rfl, trialBalance_eq_ok_iff.mp h⟩
    · rintro ⟨rfl, heq⟩
      exact trialBalance_eq_ok_iff.mpr heq
  · intro d c
    rw [trialBalance_eq]
    split
    · rename_i hfar
      rw [and_iff_left hfar, Except.error.injEq, GlError.differenceOverflow.injEq]
      exact and_congr eq_comm eq_comm
    · rename_i hnear
      refine iff_of_false ?_ fun h => hnear h.2
      split
      · exact nofun
      · exact nofun
  · intro e h
    rw [trialBalance_eq] at h
    split at h
    · exact Or.inl (Except.error.inj h).symm
    · split at h
      · exact absurd h.symm error_ne_ok
      · rename_i hne
        exact Or.inr ⟨(Except.error.inj h).symm, hne⟩
  · intro s mappings asOf h
    obtain ⟨hdebits, hcredits⟩ := totals_nonneg h
    exact trialBalance_cases hdebits hcredits

end GlReport

/-! ## Far totals -/

namespace Sample

/-- The largest debits, and credits as far below zero. -/
def farTotals : GlReport := ⟨.epoch, [], largest.value, largest.value.neg⟩

end Sample

/-- A document is read as this report, its totals differ, and the check of it has no answer. -/
theorem GlReport.no_answer_to_far_totals :
    Json.parse ("\x7b\"as_of\":\"1970-01-01T00:00:00Z\",\"entries\":[],"
        ++ "\"debit_total\":\"79228162514264337593543950335\","
        ++ "\"credit_total\":\"-79228162514264337593543950335\"\x7d") = .ok Sample.farTotals ∧
      Sample.farTotals.trialBalance
        = .error (.differenceOverflow Sample.farTotals.debits Sample.farTotals.credits) := by
  constructor
  · decide +kernel
  · decide +kernel

end Subledger
