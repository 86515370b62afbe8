/-
  CONSERVATION: when the balances of a unit add up to zero.

  A move takes as much as it gives, so the balances of a unit would always add up to zero if
  additions were exact.  They are not: a sum with more digits than a decimal holds is rounded, and
  what is rounded away on one side of a move need not be rounded away on the other.

  1. **The specification** — `Book.supply` is the exact sum of the balances of a unit.
  2. **The measure** — `additions` lists the additions that postings make on a unit's balances, and
     `Decimal.slip` is what each of them loses or gains.
  3. **The step** (`supply_step`) — an applied transaction changes the supply by the slips of its
     additions, and no other call changes it.  The crux is that the amounts of a transaction's
     postings cancel (`sum_postings`), so that nothing but the slips is left.
  4. **The run** (`conserved_iff_slips_cancel`) — the supply is zero throughout a run exactly if the
     slips of every applied transaction cancel, and `supply_changed_by_rounding` is a run in which
     they do not.
-/
import Subledger.Proofs.Decimal.Value
import Subledger.Proofs.Ledger.Run

namespace Subledger.Book

open Decimal

/-! ## The exact supply -/

/-- The balances of a unit, in the order of the accounts. -/
def holdings (b : Book) (u : UnitId) : List Decimal :=
  (b.balances.rows.filter fun r => r.1.unit == u).map Prod.snd

/-- The exact sum of the balances of a unit. -/
def supply (b : Book) (u : UnitId) : ℚ := ((b.holdings u).map value).sum

/-- What an amount at a position counts in the supply of a unit. -/
def weight (u : UnitId) (p : Position) (x : Decimal) : ℚ := if p.unit = u then x.value else 0

theorem supply_eq_sumOver (b : Book) (u : UnitId) :
    b.supply u = b.balances.sumOver (weight u) := by
  unfold supply holdings Table.sumOver
  induction b.balances.rows with
  | nil => rfl
  | cons r rest ih =>
    rw [List.map_cons, List.sum_cons, ← ih, weight, List.filter_cons]
    by_cases h : r.1.unit = u
    · rw [if_pos h, if_pos (beq_iff_eq.mpr h)]
      rfl
    · rw [if_neg h, if_neg (mt beq_iff_eq.mp h), zero_add]

/-! ## What postings do to the supply -/

/-- The additions that postings make on balances of a unit: each balance as it then stands, and the
    amount that is added to it. -/
def additions (u : UnitId) (balances : Table Position Decimal) :
    List Posting → List (Decimal × Decimal)
  | [] => []
  | p :: ps =>
    let x := balanceIn balances p.position
    let rest := match x.add? p.amount with
      | some y => additions u (balances.insert p.position y) ps
      | none => []
    if p.position.unit = u then (x, p.amount) :: rest else rest

theorem totalSlip_additions_cons {u : UnitId} {balances : Table Position Decimal} {p : Posting}
    {ps : List Posting} {y : Decimal} (h : (balanceIn balances p.position).add? p.amount = some y) :
    totalSlip (additions u balances (p :: ps))
      = (if p.position.unit = u then slip (balanceIn balances p.position) p.amount else 0)
        + totalSlip (additions u (balances.insert p.position y) ps) := by
  rw [additions, h]
  by_cases hu : p.position.unit = u
  · simp only [hu, if_true, totalSlip, List.map_cons, List.sum_cons]
  · simp only [hu, if_false, zero_add]

/-- The weight of the row of a position, zero if there is none. -/
theorem weight_find? (u : UnitId) (balances : Table Position Decimal) (p : Position) :
    ((balances.find? p).map (weight u p)).getD 0 = weight u p (balanceIn balances p) := by
  unfold balanceIn
  cases balances.find? p with
  | some x => rfl
  | none =>
    show (0 : ℚ) = weight u p zero
    rw [weight, value_zero, ite_self]

/-- Postings change the supply by their amounts and by their slips. -/
theorem sumOver_postAll {id : TransactionId} {u : UnitId} {ps : List Posting}
    {balances balances' : Table Position Decimal} (h : postAll id balances ps = .ok balances') :
    balances'.sumOver (weight u) = balances.sumOver (weight u)
      + (ps.map fun p => weight u p.position p.amount).sum
      + totalSlip (additions u balances ps) := by
  induction ps generalizing balances with
  | nil =>
    obtain rfl := Except.ok.inj h
    simp [additions, totalSlip]
  | cons p ps ih =>
    obtain ⟨y, hy, hrest⟩ := postAll_cons_eq_ok_iff.mp h
    have hrow : weight u p.position y - weight u p.position (balanceIn balances p.position)
        = weight u p.position p.amount
          + if p.position.unit = u then slip (balanceIn balances p.position) p.amount else 0 := by
      unfold weight
      split
      · rw [value_of_add? hy]
        ring
      · ring
    rw [ih hrest, Table.sumOver_insert, weight_find?, hrow, totalSlip_additions_cons hy,
      List.map_cons, List.sum_cons]
    ring

/-- What a move takes it gives. -/
theorem sum_move_postings (u : UnitId) (m : Move) :
    (m.postings.map fun p => weight u p.position p.amount).sum = 0 := by
  simp only [Move.postings, List.map_cons, List.map_nil, List.sum_cons, List.sum_nil, weight,
    value_neg]
  split <;> ring

/-- The amounts of the postings of some moves cancel, unit by unit. -/
theorem sum_postings (u : UnitId) (ms : List Move) :
    ((ms.flatMap Move.postings).map fun p => weight u p.position p.amount).sum = 0 := by
  induction ms with
  | nil => rfl
  | cons m ms ih =>
    rw [List.flatMap_cons, List.map_append, List.sum_append, sum_move_postings, ih, add_zero]

/-! ## What a call does to the supply -/

/-- An applied transaction changes the supply of a unit by what its additions lose or gain. -/
theorem supply_of_execute {b b' : Book} {t : Transaction} (h : b.execute t = .ok (.applied, b'))
    (u : UnitId) :
    b'.supply u = b.supply u + totalSlip (additions u b.balances t.postings) := by
  obtain ⟨-, -, balances, hpost, rfl⟩ := execute_applied_iff.mp h
  have hcancel : (t.postings.map fun p => weight u p.position p.amount).sum = 0 :=
    sum_postings u t.moves
  rw [supply_eq_sumOver, supply_eq_sumOver]
  show balances.sumOver (weight u) = _
  rw [sumOver_postAll hpost, hcancel, add_zero]

/-- Any call changes the supply of a unit by the slips of the transaction that it applies, if it
    applies one. -/
theorem supply_step (b : Book) (c : Call) (u : UnitId) :
    (b.step c).supply u = b.supply u
      + ((b.accepts c).map fun t => totalSlip (additions u b.balances t.postings)).getD 0 := by
  rcases step_cases b c with ⟨hnone, hbal, -⟩ | ⟨t, -, hsome, hexec⟩
  · rw [hnone, supply_eq_sumOver, supply_eq_sumOver, hbal]
    exact (add_zero _).symm
  · rw [hsome, supply_of_execute hexec]
    rfl

theorem supply_ofRegistry (r : Registry) (u : UnitId) : (ofRegistry r).supply u = 0 := rfl

/-! ## When a run conserves -/

/-- **The exact condition of conservation.**  The balances of a unit add up to zero after every call
    of a run exactly if, in every transaction that the run applies, what the additions on that unit
    lose and gain cancels.  An addition loses or gains something exactly if no decimal has the exact
    sum (`Decimal.slip_eq_zero_iff`). -/
theorem conserved_iff_slips_cancel (r : Registry) (cs : List Call) (u : UnitId) :
    (∀ done, done <+: cs → ((ofRegistry r).run done).supply u = 0) ↔
      ∀ done t, done ++ [.execute t] <+: cs →
        ((ofRegistry r).run done).accepts (.execute t) = some t →
        totalSlip (additions u ((ofRegistry r).run done).balances t.postings) = 0 := by
  constructor
  · -- a transaction whose slips do not cancel moves the supply away from zero
    intro h done t hpre hacc
    have hbefore := h done ((List.prefix_append _ _).trans hpre)
    have hafter := h _ hpre
    rwa [run_concat, supply_step, hacc, hbefore, zero_add] at hafter
  · intro h done hpre
    induction done using List.reverseRecOn with
    | nil => exact supply_ofRegistry r u
    | append_singleton done c ih =>
      rw [run_concat, supply_step, ih ((List.prefix_append _ _).trans hpre), zero_add]
      cases hacc : ((ofRegistry r).run done).accepts c with
      | none => rfl
      | some t =>
        obtain ⟨rfl, -⟩ := accepts_eq_some_iff.mp hacc
        exact h done t hpre hacc

/-- Alice holds the largest amount already, so that her three tenths are rounded away; Bob's are
    not. -/
theorem supply_changed_by_rounding :
    ¬ ∀ (r : Registry) (cs : List Call) (u : UnitId), ((ofRegistry r).run cs).supply u = 0 := by
  intro h
  have hheld : ((ofRegistry Sample.registry).run Sample.roundingRun).holdings Sample.euro
      = [Sample.largest.value, Sample.threeTenths.value.neg, Sample.largest.value.neg] := by decide
  have hzero := h Sample.registry Sample.roundingRun Sample.euro
  rw [supply, hheld] at hzero
  simp only [List.map_cons, List.map_nil, List.sum_cons, List.sum_nil, value_neg] at hzero
  have hpos : 0 < Sample.threeTenths.value.value := (value_pos_iff _).mpr Sample.threeTenths.positive
  linarith

end Subledger.Book
