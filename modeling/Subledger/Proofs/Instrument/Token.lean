/-
  TOKENS: the options of a contract are there between its opening and its exercise, and no longer.

  1. **The builders** (`mint_movesOnce`, `burn_movesOnce`) — an opening moves the token once, from
     the issuance account to the holder; an exercise moves it once, and the other way.
  2. **A reversal** (`SwaptionOpen.ExercisedBy.reversal`) — of an opening and its exercise each
     moves back what the other moves, and their names differ in the kind.
  3. **The result** (`token_between_opening_and_exercise`) — so the one undoes the other, in
     whatever order they come.
-/
import Subledger.Proofs.Instrument.Acceptance
import Subledger.Proofs.Ledger.Reversal

namespace Subledger

open Decimal Instrument

/-! ## The builders -/

/-- An exercise of what was opened: of the same contract, with the same accounts for the options and
    as many of them.  The cash of neither is paid in the token. -/
structure SwaptionOpen.ExercisedBy (t : SwaptionOpen) (e : SwaptionExercise) (token : UnitId) :
    Prop where
  named : swaptionToken t.contract = .ok token
  contract : e.contract = t.contract
  issuance : e.issuance = t.issuance
  holder : e.holderPosition = t.holderPosition
  contracts : e.contracts.value = t.contracts.value
  premium : t.premiumCurrency ≠ token
  settlement : e.settlementCurrency ≠ token

/-- An opening moves the options to the holder. -/
theorem mint_movesOnce {t : SwaptionOpen} {token : UnitId} {x : Transaction} (h : t.mint = .ok x)
    (htoken : swaptionToken t.contract = .ok token) (hpremium : t.premiumCurrency ≠ token) :
    x.MovesOnce token t.issuance t.holderPosition t.contracts.value := by
  obtain ⟨contracts, hcontracts, h⟩ := bind_eq_ok.mp h
  obtain ⟨premium, -, h⟩ := bind_eq_ok.mp h
  obtain ⟨-, -, h⟩ := bind_eq_ok.mp h
  obtain ⟨-, -, h⟩ := bind_eq_ok.mp h
  obtain ⟨token', htoken', h⟩ := bind_eq_ok.mp h
  obtain rfl := Except.ok.inj (htoken.symm.trans htoken')
  refine ⟨contracts, t.contract, _, Event.moves_of_named h, ?_, ?_⟩
  · rw [(positive_eq_ok_iff.mp hcontracts).2, value_normalize]
  · exact List.forall_mem_singleton.mpr hpremium

/-- An exercise moves them back. -/
theorem burn_movesOnce {e : SwaptionExercise} {token : UnitId} {x : Transaction}
    (h : e.burn = .ok x) (htoken : swaptionToken e.contract = .ok token)
    (hsettlement : e.settlementCurrency ≠ token) :
    x.MovesOnce token e.holderPosition e.issuance e.contracts.value := by
  obtain ⟨contracts, hcontracts, h⟩ := bind_eq_ok.mp h
  split at h
  · exact absurd h error_ne_ok
  · obtain ⟨-, -, h⟩ := bind_eq_ok.mp h
    obtain ⟨-, -, h⟩ := bind_eq_ok.mp h
    obtain ⟨token', htoken', h⟩ := bind_eq_ok.mp h
    obtain ⟨owed, howed, h⟩ := bind_eq_ok.mp h
    obtain rfl := Except.ok.inj (htoken.symm.trans htoken')
    refine ⟨contracts, e.contract, owed, Event.moves_of_named h, ?_, ?_⟩
    · rw [(positive_eq_ok_iff.mp hcontracts).2, value_normalize]
    · rcases Event.settlement_eq_ok_iff.mp howed with ⟨-, rfl⟩ | ⟨-, q, -, rfl⟩
      · exact List.forall_mem_nil _
      · exact List.forall_mem_singleton.mpr hsettlement

/-- An opening and its exercise move the same options there and back. -/
theorem SwaptionOpen.ExercisedBy.reversal {t : SwaptionOpen} {e : SwaptionExercise}
    {token : UnitId} {opened exercised : Transaction} (h : t.ExercisedBy e token)
    (hopened : t.mint = .ok opened) (hexercised : e.burn = .ok exercised) :
    Book.Reversal token t.holderPosition t.issuance t.contracts.value opened exercised := by
  refine ⟨?_, mint_movesOnce hopened h.named h.premium, ?_, ⟨t.contracts, rfl⟩⟩
  · have hopening : (Event.opening t).build = .ok opened := hopened
    have hexercise : (Event.exercise e).build = .ok exercised := hexercised
    intro hids
    obtain ⟨hkind, -⟩ :=
      (Event.id_eq_iff (Event.build_id hopening) (Event.build_id hexercise)).mp hids
    change "swaption-open" = "swaption-exercise" at hkind
    exact absurd hkind (by decide)
  · have hback := burn_movesOnce hexercised (h.contract ▸ h.named) h.settlement
    rwa [h.holder, h.issuance, h.contracts] at hback

/-- Once the token has never moved but by the two, the holder has what is outstanding of it. -/
theorem SwaptionOpen.ExercisedBy.held {t : SwaptionOpen} {e : SwaptionExercise} {token : UnitId}
    {opened exercised : Transaction} (h : t.ExercisedBy e token) (hopened : t.mint = .ok opened)
    (hexercised : e.burn = .ok exercised) (r : Registry) {before cs : List Book.Call}
    (hnever : ∀ x ∈ (Book.ofRegistry r).accepted before, x.Spares token)
    (hothers : ∀ x ∈ ((Book.ofRegistry r).run before).accepted cs,
      x = opened ∨ x = exercised ∨ x.Spares token) :
    Book.Held (((Book.ofRegistry r).run before).run cs).balances token t.holderPosition t.issuance
      (Book.outstanding t.contracts.value opened exercised
        (((Book.ofRegistry r).run before).accepted cs)) :=
  Book.held_run (h.reversal hopened hexercised)
    (Book.find?_run_of_spared (Book.ofRegistry r) hnever) hothers

/-! ## The result -/

open Book in
/-- **The options of a contract are there between its opening and its exercise.**  Take a book that
    has never moved the token, and let any calls be made to it after which nothing but the opening
    and the exercise has moved it, in either order and however often they were submitted.

    * Once both are applied, neither the holder nor the issuance account has any options.
    * Once the opening is applied, and the exercise is not, the holder has the number of contracts,
      and the issuance account its negative.  If the exercise comes first, it is the other way round
      until the opening is applied.
    * No other account ever has a row in the token.
    * Once one of them is applied, the book is left as it is if it is submitted again. -/
theorem token_between_opening_and_exercise (r : Registry) (before cs : List Call)
    {t : SwaptionOpen} {e : SwaptionExercise} {token : UnitId} {opened exercised : Transaction}
    (hpair : t.ExercisedBy e token) (hopened : t.mint = .ok opened)
    (hexercised : e.burn = .ok exercised)
    (hnever : ∀ x ∈ (ofRegistry r).accepted before, ∀ m ∈ x.moves, m.unit ≠ token)
    (hothers : ∀ x ∈ ((ofRegistry r).run before).accepted cs,
      x = opened ∨ x = exercised ∨ ∀ m ∈ x.moves, m.unit ≠ token) :
    let done := ((ofRegistry r).run before).accepted cs
    let b := (ofRegistry r).run (before ++ cs)
    (opened ∈ done → exercised ∈ done →
      (b.balance t.holderPosition token).value = 0 ∧ (b.balance t.issuance token).value = 0) ∧
    (opened ∈ done → exercised ∉ done →
      (b.balance t.holderPosition token).value = t.contracts.value ∧
      (b.balance t.issuance token).value = -t.contracts.value) ∧
    (opened ∉ done → exercised ∈ done →
      (b.balance t.holderPosition token).value = -t.contracts.value ∧
      (b.balance t.issuance token).value = t.contracts.value) ∧
    (∀ a, a ≠ t.holderPosition → a ≠ t.issuance → b.balances.find? ⟨a, token⟩ = none) ∧
    ∀ x, (x = opened ∨ x = exercised) → x ∈ done → b.execute x = .ok (.alreadyApplied, b) := by
  intro done b
  have hrun : b = ((ofRegistry r).run before).run cs := run_append _ before cs
  have hheld := hpair.held hopened hexercised r hnever hothers
  rw [← hrun] at hheld
  have hbalances : ∀ {amount}, outstanding t.contracts.value opened exercised done = amount →
      (b.balance t.holderPosition token).value = amount ∧
      (b.balance t.issuance token).value = -amount := by
    rintro _ rfl
    exact ⟨hheld.held, hheld.owed⟩
  refine ⟨?_, ?_, ?_, hheld.alone, ?_⟩
  · intro hopen hexercise
    have h := hbalances (by rw [outstanding, if_pos hopen, if_pos hexercise, sub_self])
    rwa [neg_zero] at h
  · intro hopen hexercise
    exact hbalances (by rw [outstanding, if_pos hopen, if_neg hexercise, sub_zero])
  · intro hopen hexercise
    have h := hbalances (by rw [outstanding, if_neg hopen, if_pos hexercise, zero_sub])
    rwa [neg_neg] at h
  · intro x _ hx
    rw [hrun]
    exact execute_run_of_accepted hx

/-! ## An exercise that comes first -/

namespace Sample

/-- Two options, issued by Carol to Alice. -/
def opening : SwaptionOpen :=
  ⟨contract, .epoch, carol, alice, alice, bob, two.value, euro, two.value⟩

/-- They are exercised, and Bob owes three tenths. -/
def exercise : SwaptionExercise :=
  ⟨contract, .epoch, carol, alice, alice, bob, two.value, euro, threeTenths.value⟩

def token : UnitId := ⟨"SWAPTION:contract", by decide⟩

/-- The options minted, and the premium. -/
def minted : Transaction where
  id := ⟨"swaption-open:contract", by decide⟩
  timestamp := .epoch
  moves := [⟨carol, alice, token, two, contract⟩, ⟨alice, bob, euro, two, contract⟩]
  moves_ne := List.cons_ne_nil _ _

/-- The options burned, and what is owed. -/
def burned : Transaction where
  id := ⟨"swaption-exercise:contract", by decide⟩
  timestamp := .epoch
  moves := [⟨alice, carol, token, two, contract⟩, ⟨bob, alice, euro, threeTenths, contract⟩]
  moves_ne := List.cons_ne_nil _ _

/-- A transfer, before anything is done with the options. -/
def earlierRun : List Book.Call := [.execute (transfer firstId alice bob two)]

/-- The exercise, a transfer, the opening, and both again. -/
def swappedRun : List Book.Call :=
  [.execute burned, .execute (transfer secondId bob alice two), .execute minted, .execute burned,
    .execute minted]

/-- The book after all of these. -/
def swappedBook : Book := (Book.ofRegistry registry).run (earlierRun ++ swappedRun)

end Sample

open Book Sample in
/-- Nothing is left of the token, although the exercise came first and both were submitted twice. -/
theorem token_between_opening_and_exercise_swapped :
    (swappedBook.balance alice token).value = 0 ∧ (swappedBook.balance carol token).value = 0 ∧
      swappedBook.balances.find? ⟨dave, token⟩ = none ∧
      swappedBook.execute minted = .ok (.alreadyApplied, swappedBook) := by
  have hpair : opening.ExercisedBy exercise token :=
    ⟨rfl, rfl, rfl, rfl, rfl, by decide, by decide⟩
  have hminted : opening.mint = .ok minted := by decide
  have hburned : exercise.burn = .ok burned := by decide
  have hdone : ((ofRegistry registry).run earlierRun).accepted swappedRun
      = [burned, transfer secondId bob alice two, minted] := by decide
  obtain ⟨hboth, -, -, hothers, hagain⟩ := token_between_opening_and_exercise registry earlierRun
    swappedRun hpair hminted hburned (by decide) (by rw [hdone]; decide)
  rw [hdone] at hboth hagain
  obtain ⟨hholder, hissuance⟩ := hboth (by decide) (by decide)
  exact ⟨hholder, hissuance, hothers dave (by decide) (by decide),
    hagain minted (Or.inl rfl) (by decide)⟩

end Subledger
