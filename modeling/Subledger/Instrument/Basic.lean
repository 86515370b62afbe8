/-
  INSTRUMENTS become transactions: the rules that all of them share.

  A transaction's name is made of the kind of event, the contract, and where a contract has many
  events of a kind, the event's reference, so that one event always gives one name.  Amounts must
  be above zero, the two sides of a leg must be different accounts, and computed cash is rounded to
  two places.
-/
import Subledger.Decimal.Arithmetic
import Subledger.Ledger.Transaction

namespace Subledger

/-- Why an instrument's event is no transaction. -/
inductive BuildError where
  | notPositive (field : String) (value : Decimal)
  /-- The two sides of a leg are one account. -/
  | sameParty (role : String) (account : AccountId)
  | sameUnit (unit : UnitId)
  /-- A computed amount is too large to hold. -/
  | overflow (field : String)
  | value (cause : ValueError)
  | ledger (cause : LedgerError)
  deriving DecidableEq, Repr

/-- The wording of an error. -/
def BuildError.message : BuildError → String
  | .notPositive field amount => s!"{field} must be positive, got {amount.text}"
  | .sameParty role account => s!"both sides of the {role} leg are account {account.text}"
  | .sameUnit unit => s!"both legs use unit {unit.text}"
  | .overflow field => s!"{field} overflows"
  | .value cause => cause.message
  | .ledger cause => cause.message

namespace Instrument

/-- How many places a cash amount has. -/
def cashPlaces : Nat := 2

/-- The name of the transaction of an event that a contract has once. -/
def eventId (kind : String) (contract : ContractId) : Except BuildError TransactionId :=
  (Ident.ofText s!"{kind}:{contract.text}").mapError .value

/-- The name of the transaction of one of a contract's events; white space around its reference does
    not count, and there must be something else. -/
def referencedId (kind : String) (contract : ContractId) (reference : String) :
    Except BuildError TransactionId :=
  if Text.isBlank reference then .error (.value (.empty "event_reference"))
  else (Ident.ofText s!"{kind}:{contract.text}:{Text.trimmed reference}").mapError .value

/-- An amount that must be above zero. -/
def positive (field : String) (x : Decimal) : Except BuildError Quantity :=
  if x.isPositive then (Quantity.ofDecimal x).mapError .value else .error (.notPositive field x)

/-- Two accounts that must be different. -/
def distinct (role : String) (a b : AccountId) : Except BuildError Unit :=
  if a = b then .error (.sameParty role a) else .ok ()

/-- A computed amount of cash, if it could be computed. -/
def cash (field : String) (x : Option Decimal) : Except BuildError Decimal :=
  match x with
  | some x => .ok (x.roundTo cashPlaces)
  | none => .error (.overflow field)

/-- The transaction of some moves. -/
def transaction (id : TransactionId) (time : Instant) (moves : List Move) :
    Except BuildError Transaction :=
  (Transaction.ofMoves id time moves).mapError .ledger

end Instrument
end Subledger
