/-
  CASH AMOUNTS: when a computed amount is the exact one, rounded to cents once.

  An amount is a product of two or three decimals.  A multiplication keeps what a decimal can hold of
  the exact product, and what is kept in the end is rounded to cents.  So an amount is rounded twice
  or three times, and an early rounding can carry it over a half cent or onto one.

  1. **Two factors** (`roundsKept_cash`) — the amount is the exact one rounded once, unless what is kept
     of it has come to lie on a half cent, away from it; or unless no decimal has the right amount.
     It overflows only where no decimal has it.
  2. **Three factors** (`PremiumPayment.rounds`) — the same, as long as the product of the first two is
     a decimal.  Otherwise the amount is right exactly if no half cent parts the exact product from
     the computed one, and the first product may overflow although the last would not.
  3. **Where it fails** (`computed_amounts_misrounded`) — a cent is lost by the first rounding, and a
     premium that could be held is not computed.
-/
import Subledger.Instrument.Cds
import Subledger.Instrument.Equity
import Subledger.Instrument.Fx
import Subledger.Proofs.Decimal.Twice
import Subledger.Proofs.Ledger.Run

namespace Subledger.Instrument

open Decimal

/-- An exact amount in cents, a half cent rounded to the even neighbour. -/
def inCents (exact : ℚ) : ℚ := rounded cashPlaces exact

/-- An amount is computed from what is kept of the exact one. -/
structure RoundsKept (field : String) (exact : ℚ) (answer : Except BuildError Decimal) : Prop where
  overflows_iff : answer = .error (.overflow field) ↔ (twoTo 96 : ℚ) - 1 / 2 ≤ |exact|
  /-- It fails in no other way, and only where no decimal has the exact amount in cents. -/
  fails : ∀ e, answer = .error e → e = .overflow field ∧ ¬Representable (inCents exact)
  amount : ∀ a, answer = .ok a → a.value = inCents (kept exact)
  right_iff : ∀ a, answer = .ok a → (a.value = inCents exact ↔
    Representable (inCents exact) ∧ ¬Misled cashPlaces exact (kept exact))

/-! ## Two factors

  The product is kept as a decimal and then rounded to cents: two roundings.  The second repairs
  nothing, so all depends on whether the first has left the exact amount on its side of the half
  cents. -/

/-- An amount is the rounding of a number, if there is one. -/
theorem cash_eq_ok_iff {field : String} {x : Option Decimal} {a : Decimal} :
    cash field x = .ok a ↔ ∃ z, x = some z ∧ z.roundTo cashPlaces = a := by
  cases x with
  | none => exact ⟨nofun, nofun⟩
  | some z =>
    constructor
    · intro h
      exact ⟨z, rfl, Except.ok.inj h⟩
    · rintro ⟨z', hz, rfl⟩
      rw [Option.some.inj hz]
      rfl

/-- It fails exactly if there is no number, and then overflows. -/
theorem cash_eq_error_iff {field : String} {x : Option Decimal} {e : BuildError} :
    cash field x = .error e ↔ x = none ∧ e = .overflow field := by
  cases x with
  | none => exact ⟨fun h => ⟨rfl, (Except.error.inj h).symm⟩, fun h => h.2 ▸ rfl⟩
  | some z => exact ⟨nofun, nofun⟩

/-- Cash computed from a number that holds what is kept of the exact amount. -/
theorem roundsKept_cash (field : String) {exact : ℚ} {x : Option Decimal}
    (hnone : x = none ↔ (twoTo 96 : ℚ) - 1 / 2 ≤ |exact|)
    (hsome : ∀ z, x = some z → z.value = kept exact) : RoundsKept field exact (cash field x) := by
  have hamount : ∀ a, cash field x = .ok a → a.value = inCents (kept exact) := by
    intro a ha
    obtain ⟨z, hz, rfl⟩ := cash_eq_ok_iff.mp ha
    rw [value_roundTo, hsome z hz]
    rfl
  refine ⟨?_, ?_, hamount, ?_⟩
  · rw [cash_eq_error_iff, and_iff_left rfl]
    exact hnone
  · intro e he
    obtain ⟨hx, rfl⟩ := cash_eq_error_iff.mp he
    exact ⟨rfl, not_representable_rounded (by decide) (hnone.mp hx)⟩
  · intro a ha
    obtain ⟨z, hz, -⟩ := cash_eq_ok_iff.mp ha
    have hroom : HasRoom 0 exact := by
      rw [hasRoom_zero_iff, ← hnone, hz]
      exact Option.some_ne_none z
    rw [hamount a ha]
    exact rounded_kept_eq_iff hroom (by decide)

/-- Two factors have an exact product; the amount is computed from what is kept of it. -/
theorem roundsKept_mul (field : String) (x y : Decimal) :
    RoundsKept field (x.value * y.value) (cash field (x.mul? y)) :=
  roundsKept_cash field mul?_eq_none_iff fun _ h => value_of_mul? h

end Subledger.Instrument

namespace Subledger

open Decimal Instrument

/-! ## Three factors

  A premium is a notional times a rate times the fraction of a year.  The error of the first product
  is multiplied by the last factor, and the second product adds one of its own. -/

namespace PremiumPayment

/-- The exact premium of a year. -/
def yearly (p : PremiumPayment) : ℚ := p.notional.value * p.spread.value

/-- The exact premium of the period. -/
def exact (p : PremiumPayment) : ℚ := p.yearly * p.accrualFraction.value

/-- What is last multiplied: what is kept of the premium of a year, with the part of it that accrues. -/
def accrued (p : PremiumPayment) : ℚ := kept p.yearly * p.accrualFraction.value

/-- A premium is computed from what is kept of two products. -/
structure Rounds (p : PremiumPayment) : Prop where
  overflows_iff : p.premium = .error (.overflow "premium") ↔
    (twoTo 96 : ℚ) - 1 / 2 ≤ |p.yearly| ∨ (twoTo 96 : ℚ) - 1 / 2 ≤ |p.accrued|
  fails : ∀ e, p.premium = .error e → e = .overflow "premium"
  amount : ∀ a, p.premium = .ok a → a.value = inCents (kept p.accrued)
  /-- It is right exactly if no half cent parts what is kept in the end from the exact premium. -/
  right_iff : ∀ a, p.premium = .ok a → (a.value = inCents p.exact ↔
    ∀ h, HalfWay cashPlaces h → (Under cashPlaces h (kept p.accrued) ↔ Under cashPlaces h p.exact))
  /-- Where a decimal has the premium of a year, it is as if there were two factors. -/
  of_representable : Representable p.yearly → RoundsKept "premium" p.exact p.premium

/-- The two multiplications. -/
def product (p : PremiumPayment) : Option Decimal :=
  (p.notional.mul? p.spread).bind fun x => x.mul? p.accrualFraction

/-- A premium has no number if the yearly one has none, or the accrued one has none. -/
theorem product_eq_none_iff (p : PremiumPayment) : p.product = none ↔
    (twoTo 96 : ℚ) - 1 / 2 ≤ |p.yearly| ∨ (twoTo 96 : ℚ) - 1 / 2 ≤ |p.accrued| := by
  rw [yearly, ← mul?_eq_none_iff, accrued, yearly, product]
  cases hfirst : p.notional.mul? p.spread with
  | none => exact iff_of_true rfl (Or.inl rfl)
  | some x =>
    rw [Option.bind_some, or_iff_right (Option.some_ne_none x), mul?_eq_none_iff,
      value_of_mul? hfirst]

/-- Where it has one, that is what is kept of the accrued product. -/
theorem value_of_product {p : PremiumPayment} {z : Decimal} (h : p.product = some z) :
    z.value = kept p.accrued := by
  obtain ⟨x, hx, hz⟩ := Option.bind_eq_some_iff.mp h
  rw [value_of_mul? hz, value_of_mul? hx]
  rfl

/-- Where the premium of a year is kept, the exact premium is what is fitted last. -/
theorem accrued_eq_exact {p : PremiumPayment} (h : Representable p.yearly) :
    p.accrued = p.exact := by
  rw [accrued, exact, kept_of_representable h]

/-- The statement about premiums, put together from the cases of the first product. -/
theorem rounds (p : PremiumPayment) : p.Rounds := by
  have hpremium : p.premium = cash "premium" p.product := rfl
  have hamount : ∀ a, p.premium = .ok a → a.value = inCents (kept p.accrued) := by
    intro a ha
    obtain ⟨z, hz, rfl⟩ := cash_eq_ok_iff.mp (hpremium ▸ ha)
    rw [value_roundTo, value_of_product hz]
    rfl
  refine ⟨?_, ?_, hamount, ?_, ?_⟩
  · rw [hpremium, cash_eq_error_iff, and_iff_left rfl]
    exact p.product_eq_none_iff
  · intro e he
    exact (cash_eq_error_iff.mp (hpremium ▸ he)).2
  · intro a ha
    rw [hamount a ha]
    exact rounded_eq_iff
  · intro hyear
    rw [hpremium, ← accrued_eq_exact hyear]
    refine roundsKept_cash "premium" ?_ fun z hz => value_of_product hz
    rw [product_eq_none_iff]
    refine or_iff_right fun hlarge => ?_
    obtain ⟨x, hx⟩ := hyear
    linarith [hx ▸ abs_value_le x]

end PremiumPayment

/-! ## The result -/

/-- **How amounts are rounded.**

    * A consideration and a bought amount overflow only where no decimal has the exact amount in
      cents.  One that is computed is the exact product rounded once, to cents and a half cent to
      the even neighbour, exactly if some decimal has that amount and what is kept of the product has
      not come to lie on a half cent from the side to which it is then not rounded.
    * The same holds of a premium if some decimal has the product of notional and spread.  If none
      has, a premium that is computed is right exactly if no half cent parts it from the exact one,
      and it overflows with either of the two products. -/
theorem Instrument.computed_amounts (t : EquityTrade) (d : FxSpot) (p : PremiumPayment) :
    RoundsKept "consideration" (t.shares.value * t.price.value) t.consideration ∧
    RoundsKept "buy_amount" (d.sellAmount.value * d.rate.value) d.buyAmount ∧ p.Rounds := by
  refine ⟨?_, ?_, p.rounds⟩
  · exact roundsKept_mul "consideration" t.shares t.price
  · exact roundsKept_mul "buy_amount" d.sellAmount d.rate

namespace Sample

/-- Three tenths of a share, for a little more than one euro and a half cent. -/
def partialShare : EquityTrade where
  trade := contract
  settlementTime := .epoch
  security := ⟨"ACME", by decide⟩
  shares := threeTenths.value
  price := ⟨false, 33500000000000000000000000001, 28, by decide, le_rfl⟩
  currency := euro
  buyerSecurities := alice
  buyerCash := bob
  sellerSecurities := carol
  sellerCash := dave

/-- Three tenths of twice the largest amount. -/
def largePremium : PremiumPayment :=
  ⟨contract, "2024", .epoch, alice, bob, euro, largest.value, two.value, threeTenths.value⟩

end Sample

/-- The part of a share costs one euro instead of `1.01`, and the premium overflows although it is less
    than the largest amount. -/
theorem Instrument.computed_amounts_misrounded :
    (∃ a, Sample.partialShare.consideration = .ok a ∧ a.value = 1 ∧
      inCents (Sample.partialShare.shares.value * Sample.partialShare.price.value) = 101 / 100) ∧
    Sample.largePremium.premium = .error (.overflow "premium") ∧
    inCents Sample.largePremium.exact = 47536897508558602556126370201 ∧
    Representable 47536897508558602556126370201 := by
  refine ⟨⟨_, rfl, ?_, ?_⟩, ?_, ?_, ?_⟩
  · decide +kernel
  · decide +kernel
  · decide +kernel
  · decide +kernel
  · refine ⟨⟨false, 47536897508558602556126370201, 0, by decide, by decide⟩, ?_⟩
    norm_num [value, coeff, tenTo]

end Subledger
