/-
  FX SPOT DEALS: two cash legs in two currencies, settled together.

  A deal is written as one party sees it.  What that party buys is not given but computed from what it
  sells and the rate, and it must be more than nothing once it is rounded to cents: a deal that is
  too small for that has no transaction.
-/
import Subledger.Instrument.Basic

namespace Subledger

/-- A deal as `party` sees it: it sells an amount of one currency for another at a rate. -/
structure FxSpot where
  deal : ContractId
  valueTime : Instant
  party : AccountId
  counterparty : AccountId
  sellCurrency : UnitId
  sellAmount : Decimal
  buyCurrency : UnitId
  /-- Units of the bought currency for one of the sold one. -/
  rate : Decimal
  deriving DecidableEq, Repr

namespace FxSpot

open Instrument

/-- What is bought: the amount sold times the rate, in cents. -/
def buyAmount (d : FxSpot) : Except BuildError Decimal :=
  cash "buy_amount" (d.sellAmount.mul? d.rate)

/-- The sold currency to the counterparty, the bought one back. -/
def settle (d : FxSpot) : Except BuildError Transaction := do
  if d.sellCurrency = d.buyCurrency then .error (.sameUnit d.sellCurrency)
  let sold ← positive "sell_amount" d.sellAmount
  let _ ← positive "rate" d.rate
  let bought ← positive "buy_amount" (← d.buyAmount)
  distinct "fx" d.party d.counterparty
  let id ← eventId "fx-spot" d.deal
  transaction id d.valueTime
    [⟨d.party, d.counterparty, d.sellCurrency, sold, d.deal⟩,
      ⟨d.counterparty, d.party, d.buyCurrency, bought, d.deal⟩]

/-- The fields of a deal's document. -/
def row : Json.Row (ContractId × Instant × AccountId × AccountId × UnitId × Decimal × UnitId ×
    Decimal × Unit) :=
  .required "deal_id" Json.Canonical.decode <|
  .required "value_time" Json.Canonical.decode <|
  .required "party" Json.Canonical.decode <|
  .required "counterparty" Json.Canonical.decode <|
  .required "sell_currency" Json.Canonical.decode <|
  .required "sell_amount" Json.decimal <|
  .required "buy_currency" Json.Canonical.decode <|
  .required "rate" Json.decimal .done

instance : Json.Canonical FxSpot where
  encode d := Json.ofFields [("deal_id", Json.Canonical.encode d.deal),
    ("value_time", Json.Canonical.encode d.valueTime),
    ("party", Json.Canonical.encode d.party),
    ("counterparty", Json.Canonical.encode d.counterparty),
    ("sell_currency", Json.Canonical.encode d.sellCurrency),
    ("sell_amount", Json.ofDecimal d.sellAmount),
    ("buy_currency", Json.Canonical.encode d.buyCurrency), ("rate", Json.ofDecimal d.rate)]
  decode v := (row.decode v).map fun (deal, valueTime, party, counterparty, sellCurrency,
      sellAmount, buyCurrency, rate, ()) =>
    ⟨deal, valueTime, party, counterparty, sellCurrency, sellAmount, buyCurrency, rate⟩

end FxSpot
end Subledger
