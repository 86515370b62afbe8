/-
  RECONCILIATION: what the check of a book's balances finds, and what it should find.

  The check adds the balances of a unit up in the order of the accounts, with additions that may
  round or overflow.  So it does not look at the exact sum, but at where these additions lead.

  1. **The sum** — `partialAdditions` lists the additions on the way.  The sum that is found is off
     by their slips (`value_of_sumFrom`), and none is found exactly if one of them overflows
     (`sumFrom_eq_none_iff`).
  2. **The check** (`reconciliation_exact_condition`) — it passes exactly if no addition on the way
     overflows and the slips make up for the exact sum; and `totalSupply` is the exact sum exactly
     if no addition on the way overflows and the slips cancel.
  3. **Where it fails** (`reconciliation_not_exact`) — it refuses a book whose balances add up to
     zero, and passes a book whose balances do not.
-/
import Subledger.Proofs.Ledger.Conservation

namespace Subledger

open Decimal

/-! ## Adding up a list -/

namespace Snapshot

/-- The additions that are made when amounts are added to `x` in their order. -/
def partialAdditions (x : Decimal) : List Decimal → List (Decimal × Decimal)
  | [] => []
  | y :: ys =>
    (x, y) :: match x.add? y with
      | some z => partialAdditions z ys
      | none => []

/-- Is the exact sum of an addition too large for any decimal, also after rounding? -/
def Overflows (a : Decimal × Decimal) : Prop := (twoTo 96 : ℚ) - 1 / 2 ≤ |a.1.value + a.2.value|

/-- The sum that is found is the exact one and the slips on the way. -/
theorem value_of_sumFrom {x z : Decimal} {ys : List Decimal} (h : sumFrom x ys = some z) :
    z.value = x.value + (ys.map value).sum + totalSlip (partialAdditions x ys) := by
  induction ys generalizing x with
  | nil =>
    obtain rfl := Option.some.inj h
    simp [partialAdditions, totalSlip]
  | cons y ys ih =>
    obtain ⟨w, hw, hrest⟩ := Option.bind_eq_some_iff.mp h
    rw [partialAdditions, hw, ih hrest, value_of_add? hw, List.map_cons, List.sum_cons,
      totalSlip_cons]
    ring

/-- No sum is found exactly if an addition on the way overflows. -/
theorem sumFrom_eq_none_iff {x : Decimal} {ys : List Decimal} :
    sumFrom x ys = none ↔ ∃ a ∈ partialAdditions x ys, Overflows a := by
  induction ys generalizing x with
  | nil => exact iff_of_false (fun h => nomatch h) (fun ⟨_, h, _⟩ => nomatch h)
  | cons y ys ih =>
    rw [sumFrom, partialAdditions, List.exists_mem_cons_iff]
    cases hadd : x.add? y with
    | none => exact iff_of_true rfl (Or.inl (add?_eq_none_iff.mp hadd))
    | some w =>
      have hfits : ¬ Overflows (x, y) := by
        intro hover
        rw [add?_eq_none_iff.mpr hover] at hadd
        exact nomatch hadd
      exact ih.trans (or_iff_right hfits).symm

/-- If some decimal has each of the exact sums on the way, the sum is found and is exact. -/
theorem sumFrom_exact {x : Decimal} {ys : List Decimal}
    (h : ∀ pre, pre <+: ys → Representable (x.value + (pre.map value).sum)) :
    ∃ z, sumFrom x ys = some z ∧ z.value = x.value + (ys.map value).sum := by
  induction ys generalizing x with
  | nil => exact ⟨x, rfl, by simp⟩
  | cons y ys ih =>
    have hfirst : Representable (x.value + y.value) := by
      have hone := h [y] (List.prefix_append [y] ys)
      rwa [List.map_singleton, List.sum_singleton] at hone
    obtain ⟨w, hadd, hw⟩ := add?_exact hfirst
    have hlater : ∀ pre, pre <+: ys → Representable (w.value + (pre.map value).sum) := by
      intro pre hpre
      have hcons := h (y :: pre) ((List.prefix_cons_inj y).mpr hpre)
      rwa [List.map_cons, List.sum_cons, ← add_assoc, ← hw] at hcons
    obtain ⟨z, hz, hval⟩ := ih hlater
    refine ⟨z, by rw [sumFrom, hadd]; exact hz, ?_⟩
    rw [hval, hw, List.map_cons, List.sum_cons, add_assoc]

end Snapshot

namespace Book

/-! ## The supply that a book finds -/

/-- The additions that are made when the balances of a unit are added up. -/
def supplyAdditions (b : Book) (u : UnitId) : List (Decimal × Decimal) :=
  Snapshot.partialAdditions zero (b.holdings u)

theorem totalSupply_eq_ok_iff {b : Book} {u : UnitId} {x : Decimal} :
    b.totalSupply u = .ok x ↔ Snapshot.sumFrom zero (b.holdings u) = some x := by
  show (match Snapshot.sumFrom zero (b.holdings u) with
    | some x => Except.ok x
    | none => .error (LedgerError.supplyOverflow u)) = .ok x ↔ _
  cases Snapshot.sumFrom zero (b.holdings u) with
  | none => exact iff_of_false (fun h => nomatch h) (fun h => nomatch h)
  | some y => exact ⟨fun h => congrArg some (Except.ok.inj h), fun h => by rw [Option.some.inj h]⟩

/-- The supply that is found is the exact one and the slips on the way. -/
theorem value_of_totalSupply {b : Book} {u : UnitId} {x : Decimal} (h : b.totalSupply u = .ok x) :
    x.value = b.supply u + totalSlip (b.supplyAdditions u) := by
  rw [Snapshot.value_of_sumFrom (totalSupply_eq_ok_iff.mp h), value_zero, zero_add]
  rfl

/-- A supply is found exactly if no addition on the way overflows. -/
theorem exists_totalSupply_iff {b : Book} {u : UnitId} :
    (∃ x, b.totalSupply u = .ok x) ↔ ∀ a ∈ b.supplyAdditions u, ¬ Snapshot.Overflows a := by
  simp only [totalSupply_eq_ok_iff]
  rw [← Option.ne_none_iff_exists', Ne, Snapshot.sumFrom_eq_none_iff]
  simp only [not_exists, not_and]
  exact Iff.rfl

/-! ## The check -/

theorem mem_units_iff {b : Book} {u : UnitId} :
    u ∈ b.units ↔ ∃ r ∈ b.balances.rows, r.1.unit = u := by
  rw [units, Table.mem_keys_ofList, List.map_map, List.mem_map]
  exact Iff.rfl

/-- There are no balances of the other units. -/
theorem holdings_eq_nil {b : Book} {u : UnitId} (h : u ∉ b.units) : b.holdings u = [] := by
  rw [holdings, List.map_eq_nil_iff, List.filter_eq_nil_iff]
  intro row hrow hu
  exact h (mem_units_iff.mpr ⟨row, hrow, beq_iff_eq.mp hu⟩)

theorem verifyUnits_eq_ok_iff {b : Book} {us : List UnitId} :
    b.verifyUnits us = .ok () ↔ ∀ u ∈ us, ∃ x, b.totalSupply u = .ok x ∧ x.value = 0 := by
  induction us with
  | nil => exact iff_of_true rfl (fun u hu => absurd hu List.not_mem_nil)
  | cons u us ih =>
    rw [List.forall_mem_cons, ← ih, verifyUnits]
    cases htotal : b.totalSupply u with
    | error e => exact iff_of_false (fun h => nomatch h) (fun ⟨⟨_, h, _⟩, _⟩ => nomatch h)
    | ok x =>
      show (if x.isZero = true then b.verifyUnits us else _) = _ ↔ _
      by_cases hx : x.isZero = true
      · rw [if_pos hx]
        exact (and_iff_right ⟨x, rfl, (value_eq_zero_iff x).mpr hx⟩).symm
      · rw [if_neg hx]
        refine iff_of_false (fun h => nomatch h) ?_
        rintro ⟨⟨y, hy, hzero⟩, -⟩
        exact hx ((value_eq_zero_iff x).mp (Except.ok.inj hy ▸ hzero))

/-- **The exact condition of the reconciliation**, for every book.  The check passes exactly if, for
    every unit with a row, no addition on the way overflows and the slips make up for the exact
    sum.  And `totalSupply` gives the exact sum exactly if no addition on the way overflows and the
    slips cancel. -/
theorem reconciliation_exact_condition (b : Book) :
    (b.verifyConservation = .ok () ↔ ∀ u, (∃ r ∈ b.balances.rows, r.1.unit = u) →
      (∀ a ∈ b.supplyAdditions u, ¬ Snapshot.Overflows a) ∧
        b.supply u = -totalSlip (b.supplyAdditions u)) ∧
    ∀ u, (∃ x, b.totalSupply u = .ok x ∧ x.value = b.supply u) ↔
      (∀ a ∈ b.supplyAdditions u, ¬ Snapshot.Overflows a) ∧
        totalSlip (b.supplyAdditions u) = 0 := by
  -- both parts ask when the supply that is found has a certain value
  have hfound : ∀ u q, (∃ x, b.totalSupply u = .ok x ∧ x.value = q) ↔
      (∀ a ∈ b.supplyAdditions u, ¬ Snapshot.Overflows a) ∧
        b.supply u + totalSlip (b.supplyAdditions u) = q := by
    intro u q
    rw [← exists_totalSupply_iff]
    constructor
    · rintro ⟨x, hx, rfl⟩
      exact ⟨⟨x, hx⟩, (value_of_totalSupply hx).symm⟩
    · rintro ⟨⟨x, hx⟩, rfl⟩
      exact ⟨x, hx, value_of_totalSupply hx⟩
  constructor
  · rw [verifyConservation, verifyUnits_eq_ok_iff]
    refine forall_congr' ?_
    intro u
    rw [mem_units_iff, hfound, eq_neg_iff_add_eq_zero]
  · intro u
    rw [hfound, add_eq_left]

/-- Both ways the check is wrong.  With the largest amount at Alice and at Bob the sum overflows on
    the way, although all balances add up to zero; and Bob's three tenths, which were rounded away
    at Alice, are rounded away once more when her balance is added up before his. -/
theorem reconciliation_not_exact :
    (¬ ∀ (r : Registry) (cs : List Call), (∀ u, ((ofRegistry r).run cs).supply u = 0) →
      ((ofRegistry r).run cs).verifyConservation = .ok ()) ∧
    ¬ ∀ (r : Registry) (cs : List Call), ((ofRegistry r).run cs).verifyConservation = .ok () →
      ∀ u, ((ofRegistry r).run cs).supply u = 0 := by
  constructor
  · intro h
    have hrows : ∀ r ∈ ((ofRegistry Sample.registry).run Sample.crowdedRun).balances.rows,
        r.1.unit = Sample.euro := by decide
    have hheld : ((ofRegistry Sample.registry).run Sample.crowdedRun).holdings Sample.euro
        = [Sample.largest.value, Sample.largest.value, Sample.largest.value.neg,
          Sample.largest.value.neg] := by decide
    have hfails : ((ofRegistry Sample.registry).run Sample.crowdedRun).verifyConservation
        = .error (.supplyOverflow Sample.euro) := by rfl
    have hpasses := h Sample.registry Sample.crowdedRun ?_
    · rw [hfails] at hpasses
      exact nomatch hpasses
    intro u
    by_cases hu : u = Sample.euro
    · subst hu
      rw [supply, hheld]
      simp only [List.map_cons, List.map_nil, List.sum_cons, List.sum_nil, value_neg]
      ring
    · have hnone : ((ofRegistry Sample.registry).run Sample.crowdedRun).holdings u = [] := by
        rw [holdings, List.map_eq_nil_iff, List.filter_eq_nil_iff]
        intro r hr hru
        exact hu ((beq_iff_eq.mp hru).symm.trans (hrows r hr))
      rw [supply, hnone]
      rfl
  · intro h
    have hpasses : ((ofRegistry Sample.registry).run Sample.roundingRun).verifyConservation
        = .ok () := by rfl
    have hheld : ((ofRegistry Sample.registry).run Sample.roundingRun).holdings Sample.euro
        = [Sample.largest.value, Sample.threeTenths.value.neg, Sample.largest.value.neg] := by decide
    have hzero := h Sample.registry Sample.roundingRun hpasses Sample.euro
    rw [supply, hheld] at hzero
    simp only [List.map_cons, List.map_nil, List.sum_cons, List.sum_nil, value_neg] at hzero
    have hpos : 0 < Sample.threeTenths.value.value :=
      (value_pos_iff _).mpr Sample.threeTenths.positive
    linarith

end Book
end Subledger
