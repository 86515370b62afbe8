/-
  SWAPTIONS, settled in cash.

  The option itself is a unit of its own.  It is minted from an issuance account when the contract
  opens and burned back there when it is exercised, so that open positions are balances like any
  other and the unit's total stays zero.

  An exercise at the money owes nothing and has the one move that burns the options.  A negative
  amount is refused before the accounts are compared, a zero one is no error.
-/
import Subledger.Instrument.Basic

namespace Subledger

/-- The unit that stands for the options of a contract. -/
def swaptionToken (contract : ContractId) : Except BuildError UnitId :=
  (Ident.ofText s!"SWAPTION:{contract.text}").mapError .value

/-- The opening of a contract. -/
structure SwaptionOpen where
  contract : ContractId
  tradeTime : Instant
  issuance : AccountId
  /-- The holder's account for the options. -/
  holderPosition : AccountId
  holderCash : AccountId
  writerCash : AccountId
  contracts : Decimal
  premiumCurrency : UnitId
  premium : Decimal
  deriving DecidableEq, Repr

/-- The exercise of a contract. -/
structure SwaptionExercise where
  contract : ContractId
  exerciseTime : Instant
  issuance : AccountId
  holderPosition : AccountId
  holderCash : AccountId
  writerCash : AccountId
  contracts : Decimal
  settlementCurrency : UnitId
  /-- The cash that the writer owes; zero at the money. -/
  settlementAmount : Decimal
  deriving DecidableEq, Repr

namespace SwaptionOpen

open Instrument

/-- Options minted to the holder, the premium to the writer. -/
def mint (t : SwaptionOpen) : Except BuildError Transaction := do
  let contracts ← positive "contracts" t.contracts
  let premium ← positive "premium" t.premium
  distinct "position" t.issuance t.holderPosition
  distinct "premium" t.holderCash t.writerCash
  let token ← swaptionToken t.contract
  let id ← eventId "swaption-open" t.contract
  transaction id t.tradeTime
    [⟨t.issuance, t.holderPosition, token, contracts, t.contract⟩,
      ⟨t.holderCash, t.writerCash, t.premiumCurrency, premium, t.contract⟩]

/-- The fields of an opening's document. -/
def row : Json.Row (ContractId × Instant × AccountId × AccountId × AccountId × AccountId ×
    Decimal × UnitId × Decimal × Unit) :=
  .required "contract_id" Json.Canonical.decode <|
  .required "trade_time" Json.Canonical.decode <|
  .required "issuance_account" Json.Canonical.decode <|
  .required "holder_position" Json.Canonical.decode <|
  .required "holder_cash" Json.Canonical.decode <|
  .required "writer_cash" Json.Canonical.decode <|
  .required "contracts" Json.decimal <|
  .required "premium_currency" Json.Canonical.decode <|
  .required "premium" Json.decimal .done

instance : Json.Canonical SwaptionOpen where
  encode t := Json.ofFields [("contract_id", Json.Canonical.encode t.contract),
    ("trade_time", Json.Canonical.encode t.tradeTime),
    ("issuance_account", Json.Canonical.encode t.issuance),
    ("holder_position", Json.Canonical.encode t.holderPosition),
    ("holder_cash", Json.Canonical.encode t.holderCash),
    ("writer_cash", Json.Canonical.encode t.writerCash),
    ("contracts", Json.ofDecimal t.contracts),
    ("premium_currency", Json.Canonical.encode t.premiumCurrency),
    ("premium", Json.ofDecimal t.premium)]
  decode v := (row.decode v).map fun (contract, tradeTime, issuance, holderPosition, holderCash,
      writerCash, contracts, premiumCurrency, premium, ()) =>
    ⟨contract, tradeTime, issuance, holderPosition, holderCash, writerCash, contracts,
      premiumCurrency, premium⟩

end SwaptionOpen

namespace SwaptionExercise

open Instrument

/-- The cash leg of an exercise, if anything is owed. -/
def settlement (e : SwaptionExercise) : Except BuildError (List Move) :=
  if e.settlementAmount.isZero then .ok []
  else do
    let amount ← positive "settlement_amount" e.settlementAmount
    return [⟨e.writerCash, e.holderCash, e.settlementCurrency, amount, e.contract⟩]

/-- The holder's options burned, and the cash owed from writer to holder. -/
def burn (e : SwaptionExercise) : Except BuildError Transaction := do
  let contracts ← positive "contracts" e.contracts
  if e.settlementAmount.isNegative then
    .error (.notPositive "settlement_amount" e.settlementAmount)
  distinct "position" e.holderPosition e.issuance
  distinct "settlement" e.writerCash e.holderCash
  let token ← swaptionToken e.contract
  let owed ← e.settlement
  let id ← eventId "swaption-exercise" e.contract
  transaction id e.exerciseTime
    (⟨e.holderPosition, e.issuance, token, contracts, e.contract⟩ :: owed)

/-- The fields of an exercise's document. -/
def row : Json.Row (ContractId × Instant × AccountId × AccountId × AccountId × AccountId ×
    Decimal × UnitId × Decimal × Unit) :=
  .required "contract_id" Json.Canonical.decode <|
  .required "exercise_time" Json.Canonical.decode <|
  .required "issuance_account" Json.Canonical.decode <|
  .required "holder_position" Json.Canonical.decode <|
  .required "holder_cash" Json.Canonical.decode <|
  .required "writer_cash" Json.Canonical.decode <|
  .required "contracts" Json.decimal <|
  .required "settlement_currency" Json.Canonical.decode <|
  .required "settlement_amount" Json.decimal .done

instance : Json.Canonical SwaptionExercise where
  encode e := Json.ofFields [("contract_id", Json.Canonical.encode e.contract),
    ("exercise_time", Json.Canonical.encode e.exerciseTime),
    ("issuance_account", Json.Canonical.encode e.issuance),
    ("holder_position", Json.Canonical.encode e.holderPosition),
    ("holder_cash", Json.Canonical.encode e.holderCash),
    ("writer_cash", Json.Canonical.encode e.writerCash),
    ("contracts", Json.ofDecimal e.contracts),
    ("settlement_currency", Json.Canonical.encode e.settlementCurrency),
    ("settlement_amount", Json.ofDecimal e.settlementAmount)]
  decode v := (row.decode v).map fun (contract, exerciseTime, issuance, holderPosition, holderCash,
      writerCash, contracts, settlementCurrency, settlementAmount, ()) =>
    ⟨contract, exerciseTime, issuance, holderPosition, holderCash, writerCash, contracts,
      settlementCurrency, settlementAmount⟩

end SwaptionExercise
end Subledger
