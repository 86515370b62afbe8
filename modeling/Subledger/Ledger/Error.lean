/-
  WHY A LEDGER REFUSES: everything that can go wrong between a caller and a book.

  The refusals that a caller can mend by submitting something else are told apart from the alarms
  of the reconciliation by `LedgerError.isValidation`.
-/
import Subledger.Account
import Subledger.Decimal.Text

namespace Subledger

/-- One end of a move. -/
inductive MoveSide where
  | source
  | destination
  deriving DecidableEq, Repr

/-- What a side is called. -/
def MoveSide.text : MoveSide → String
  | .source => "source"
  | .destination => "destination"

/-- Why a single move is refused. -/
inductive MoveViolation where
  | unknownAccount (side : MoveSide) (account : AccountId)
  | selfTransfer (account : AccountId)
  deriving DecidableEq, Repr

/-- The wording of a violation. -/
def MoveViolation.message : MoveViolation → String
  | .unknownAccount side account => s!"{side.text} account {account.text} is not registered"
  | .selfTransfer account => s!"source and destination are both {account.text}"

/-- Why a ledger refuses. -/
inductive LedgerError where
  /-- A part could not be made. -/
  | value (e : ValueError)
  | emptyTransaction (id : TransactionId)
  /-- A move breaks a rule; moves are counted from zero. -/
  | invalidMove (id : TransactionId) (index : Nat) (violation : MoveViolation)
  /-- A balance would become too large to hold. -/
  | overflow (id : TransactionId) (account : AccountId) (unit : UnitId)
  | classificationConflict (account : AccountId) (existing requested : AccountType)
  /-- The balances of a unit do not add up to zero. -/
  | conservationViolation (unit : UnitId) (total : Decimal)
  /-- The balances of a unit do not add up to a number that can be held. -/
  | supplyOverflow (unit : UnitId)
  deriving DecidableEq, Repr

namespace LedgerError

/-- The wording of a refusal. -/
def message : LedgerError → String
  | .value e => e.message
  | .emptyTransaction id => s!"transaction {id.text} has no moves"
  | .invalidMove id index violation =>
    s!"transaction {id.text}, move {index}: {violation.message}"
  | .overflow id account unit =>
    s!"transaction {id.text}: balance of {account.text} in {unit.text} would overflow"
  | .classificationConflict account existing requested =>
    s!"account {account.text} is registered as {existing.code}, refusing {requested.code}"
  | .conservationViolation unit total =>
    s!"conservation violated for {unit.text}: total supply is {total.text}"
  | .supplyOverflow unit => s!"total supply of {unit.text} overflows"

/-- Was the refusal made before anything changed, so that the caller can mend it? -/
def isValidation : LedgerError → Bool
  | .value _ => true
  | .emptyTransaction _ => true
  | .invalidMove _ _ _ => true
  | .overflow _ _ _ => true
  | .classificationConflict _ _ _ => true
  | .conservationViolation _ _ => false
  | .supplyOverflow _ => false

end LedgerError
end Subledger
