/-
  CREDIT DEFAULT SWAPS: the premium of one period.
-/
import Subledger.Instrument.Basic

namespace Subledger

/-- One premium period of a contract. -/
structure PremiumPayment where
  contract : ContractId
  /-- The reference of the period, unique within the contract. -/
  period : String
  paymentTime : Instant
  /-- The cash account of the protection buyer. -/
  buyer : AccountId
  /-- The cash account of the protection seller. -/
  seller : AccountId
  currency : UnitId
  notional : Decimal
  /-- The running spread as a fraction: 0.01 is a hundred basis points. -/
  spread : Decimal
  /-- The part of a year that the period accrues. -/
  accrualFraction : Decimal
  deriving DecidableEq, Repr

namespace PremiumPayment

open Instrument

/-- Notional times spread times accrual fraction, in cents. -/
def premium (p : PremiumPayment) : Except BuildError Decimal :=
  cash "premium" ((p.notional.mul? p.spread).bind fun x => x.mul? p.accrualFraction)

/-- The premium from buyer to seller. -/
def pay (p : PremiumPayment) : Except BuildError Transaction := do
  let _ ← positive "notional" p.notional
  let _ ← positive "spread" p.spread
  let _ ← positive "accrual_fraction" p.accrualFraction
  let due ← positive "premium" (← p.premium)
  distinct "premium" p.buyer p.seller
  let id ← referencedId "cds-premium" p.contract p.period
  transaction id p.paymentTime [⟨p.buyer, p.seller, p.currency, due, p.contract⟩]

/-- The fields of a payment's document. -/
def row : Json.Row (ContractId × String × Instant × AccountId × AccountId × UnitId × Decimal ×
    Decimal × Decimal × Unit) :=
  .required "contract_id" Json.Canonical.decode <|
  .required "period" Json.string <|
  .required "payment_time" Json.Canonical.decode <|
  .required "buyer" Json.Canonical.decode <|
  .required "seller" Json.Canonical.decode <|
  .required "currency" Json.Canonical.decode <|
  .required "notional" Json.decimal <|
  .required "spread" Json.decimal <|
  .required "accrual_fraction" Json.decimal .done

instance : Json.Canonical PremiumPayment where
  encode p := Json.ofFields [("contract_id", Json.Canonical.encode p.contract),
    ("period", .text p.period), ("payment_time", Json.Canonical.encode p.paymentTime),
    ("buyer", Json.Canonical.encode p.buyer), ("seller", Json.Canonical.encode p.seller),
    ("currency", Json.Canonical.encode p.currency), ("notional", Json.ofDecimal p.notional),
    ("spread", Json.ofDecimal p.spread),
    ("accrual_fraction", Json.ofDecimal p.accrualFraction)]
  decode v := (row.decode v).map fun (contract, period, paymentTime, buyer, seller, currency,
      notional, spread, accrualFraction, ()) =>
    ⟨contract, period, paymentTime, buyer, seller, currency, notional, spread, accrualFraction⟩

end PremiumPayment
end Subledger
