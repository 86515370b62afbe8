/-
  COLLATERAL: posted to an account of its own, and returned from there.

  An agreement sees many transfers, so each is named by the agreement and a reference of its own.
  Posting and returning differ in the direction of the move and in the first word of the name, and
  in nothing else.
-/
import Subledger.Instrument.Basic

namespace Subledger

/-- A call or a return under an agreement. -/
structure CollateralTransfer where
  agreement : ContractId
  /-- The reference of the call or return, unique within the agreement. -/
  reference : String
  time : Instant
  /-- The poster's cash or securities account. -/
  owner : AccountId
  collateral : AccountId
  unit : UnitId
  amount : Decimal
  deriving DecidableEq, Repr

namespace CollateralTransfer

open Instrument

/-- The amount between the two accounts of a transfer. -/
def moved (t : CollateralTransfer) (kind : String) (source destination : AccountId) :
    Except BuildError Transaction := do
  let amount ← positive "amount" t.amount
  distinct "collateral" t.owner t.collateral
  let id ← referencedId kind t.agreement t.reference
  transaction id t.time [⟨source, destination, t.unit, amount, t.agreement⟩]

/-- From the owner to the collateral account. -/
def post (t : CollateralTransfer) : Except BuildError Transaction :=
  t.moved "collateral-post" t.owner t.collateral

/-- From the collateral account back to the owner. -/
def giveBack (t : CollateralTransfer) : Except BuildError Transaction :=
  t.moved "collateral-return" t.collateral t.owner

/-- The fields of a transfer's document. -/
def row : Json.Row (ContractId × String × Instant × AccountId × AccountId × UnitId × Decimal ×
    Unit) :=
  .required "agreement_id" Json.Canonical.decode <|
  .required "reference" Json.string <|
  .required "time" Json.Canonical.decode <|
  .required "owner_account" Json.Canonical.decode <|
  .required "collateral_account" Json.Canonical.decode <|
  .required "unit" Json.Canonical.decode <|
  .required "amount" Json.decimal .done

instance : Json.Canonical CollateralTransfer where
  encode t := Json.ofFields [("agreement_id", Json.Canonical.encode t.agreement),
    ("reference", .text t.reference), ("time", Json.Canonical.encode t.time),
    ("owner_account", Json.Canonical.encode t.owner),
    ("collateral_account", Json.Canonical.encode t.collateral),
    ("unit", Json.Canonical.encode t.unit), ("amount", Json.ofDecimal t.amount)]
  decode v := (row.decode v).map fun (agreement, reference, time, owner, collateral, unit, amount,
      ()) =>
    ⟨agreement, reference, time, owner, collateral, unit, amount⟩

end CollateralTransfer
end Subledger
