/-
  EQUITY TRADES settle delivery against payment: the shares go one way and the cash the other, in
  one transaction.

  Buyer and seller each have an account for securities and one for cash, and only the two of one kind
  must differ.  The cash is shares times price, rounded to cents, and like the shares it must be more
  than nothing.
-/
import Subledger.Instrument.Basic

namespace Subledger

/-- A matched trade in shares. -/
structure EquityTrade where
  trade : ContractId
  settlementTime : Instant
  security : UnitId
  shares : Decimal
  price : Decimal
  currency : UnitId
  buyerSecurities : AccountId
  buyerCash : AccountId
  sellerSecurities : AccountId
  sellerCash : AccountId
  deriving DecidableEq, Repr

namespace EquityTrade

open Instrument

/-- Shares times price, in cents. -/
def consideration (t : EquityTrade) : Except BuildError Decimal :=
  cash "consideration" (t.shares.mul? t.price)

/-- Securities from seller to buyer, cash from buyer to seller. -/
def settle (t : EquityTrade) : Except BuildError Transaction := do
  let shares ← positive "shares" t.shares
  let _ ← positive "price" t.price
  let paid ← positive "consideration" (← t.consideration)
  distinct "securities" t.sellerSecurities t.buyerSecurities
  distinct "cash" t.buyerCash t.sellerCash
  let id ← eventId "equity-settle" t.trade
  transaction id t.settlementTime
    [⟨t.sellerSecurities, t.buyerSecurities, t.security, shares, t.trade⟩,
      ⟨t.buyerCash, t.sellerCash, t.currency, paid, t.trade⟩]

/-- The fields of a trade's document. -/
def row : Json.Row (ContractId × Instant × UnitId × Decimal × Decimal × UnitId × AccountId ×
    AccountId × AccountId × AccountId × Unit) :=
  .required "trade_id" Json.Canonical.decode <|
  .required "settlement_time" Json.Canonical.decode <|
  .required "security" Json.Canonical.decode <|
  .required "shares" Json.decimal <|
  .required "price" Json.decimal <|
  .required "currency" Json.Canonical.decode <|
  .required "buyer_securities" Json.Canonical.decode <|
  .required "buyer_cash" Json.Canonical.decode <|
  .required "seller_securities" Json.Canonical.decode <|
  .required "seller_cash" Json.Canonical.decode .done

instance : Json.Canonical EquityTrade where
  encode t := Json.ofFields [("trade_id", Json.Canonical.encode t.trade),
    ("settlement_time", Json.Canonical.encode t.settlementTime),
    ("security", Json.Canonical.encode t.security),
    ("shares", Json.ofDecimal t.shares), ("price", Json.ofDecimal t.price),
    ("currency", Json.Canonical.encode t.currency),
    ("buyer_securities", Json.Canonical.encode t.buyerSecurities),
    ("buyer_cash", Json.Canonical.encode t.buyerCash),
    ("seller_securities", Json.Canonical.encode t.sellerSecurities),
    ("seller_cash", Json.Canonical.encode t.sellerCash)]
  decode v := (row.decode v).map fun (trade, settlementTime, security, shares, price, currency,
      buyerSecurities, buyerCash, sellerSecurities, sellerCash, ()) =>
    ⟨trade, settlementTime, security, shares, price, currency, buyerSecurities, buyerCash,
      sellerSecurities, sellerCash⟩

end EquityTrade
end Subledger
