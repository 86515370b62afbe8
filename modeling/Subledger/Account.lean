/-
  ACCOUNTS: a name and a classification that never changes.
-/
import Subledger.Ident

namespace Subledger

/-- What an account holds units for. -/
inductive AccountType where
  | cash
  | securities
  | derivatives
  | collateral
  | settlement
  /-- The source and sink of units that are minted and burned over a contract's life. -/
  | issuance
  deriving DecidableEq, Repr

namespace AccountType

/-- The code that documents carry. -/
def code : AccountType → String
  | .cash => "CASH"
  | .securities => "SECURITIES"
  | .derivatives => "DERIVATIVES"
  | .collateral => "COLLATERAL"
  | .settlement => "SETTLEMENT"
  | .issuance => "ISSUANCE"

/-- All types, in the order of declaration. -/
def all : List AccountType :=
  [.cash, .securities, .derivatives, .collateral, .settlement, .issuance]

/-- The type of a code. -/
def ofCode? (s : String) : Option AccountType := all.find? fun t => t.code = s

theorem ofCode?_code (t : AccountType) : ofCode? t.code = some t := by cases t <;> decide

instance : Json.Canonical AccountType where
  encode t := .text t.code
  decode := Json.code ofCode?

end AccountType

/-- A named and classified holder of balances. -/
structure Account where
  id : AccountId
  type : AccountType
  deriving DecidableEq, Repr

/-- The fields of an account's document. -/
def Account.row : Json.Row (AccountId × AccountType × Unit) :=
  .required "id" Json.Canonical.decode <|
  .required "account_type" Json.Canonical.decode .done

instance : Json.Canonical Account where
  encode a := Json.ofFields [("id", Json.Canonical.encode a.id),
    ("account_type", Json.Canonical.encode a.type)]
  decode v := (Account.row.decode v).map fun (id, type, ()) => ⟨id, type⟩

end Subledger
