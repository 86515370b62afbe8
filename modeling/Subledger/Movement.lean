/-
  MOVES: a quantity of a unit goes from one account to another.

  The direction of a move is in its two accounts and never in a sign, so a quantity is above zero.
  It is kept without trailing zeros; both are part of its type.
-/
import Subledger.Ident
import Subledger.Json.Leaves

namespace Subledger

/-- An amount above zero, without trailing zeros. -/
structure Quantity where
  value : Decimal
  positive : value.isPositive = true
  normal : value.normalize = value
  deriving DecidableEq, Repr

namespace Quantity

/-- The quantity of this value, if it is above zero; the refusal shows the amount as given. -/
def ofDecimal (x : Decimal) : Except ValueError Quantity :=
  if h : x.isPositive = true then
    .ok ⟨x.normalize, (Decimal.isPositive_normalize x).trans h, Decimal.normalize_idem x⟩
  else .error (.notPositive "quantity" x.text)

/-- The quantity that a text spells. -/
def ofText (s : String) : Except ValueError Quantity :=
  match Decimal.ofText s with
  | .ok x => ofDecimal x
  | .error e => .error (.invalid "quantity" e.message)

/-- The text of a quantity. -/
def text (q : Quantity) : String := q.value.text

instance : Json.Canonical Quantity where
  encode q := .text q.text
  decode := Json.checked fun s => (ofText s).mapError ValueError.message

end Quantity

/-- One directed transfer. -/
structure Move where
  source : AccountId
  destination : AccountId
  unit : UnitId
  quantity : Quantity
  contract : ContractId
  deriving DecidableEq, Repr

/-- The fields of a move's document. -/
def Move.row : Json.Row (AccountId × AccountId × UnitId × Quantity × ContractId × Unit) :=
  .required "source" Json.Canonical.decode <|
  .required "destination" Json.Canonical.decode <|
  .required "unit" Json.Canonical.decode <|
  .required "quantity" Json.Canonical.decode <|
  .required "contract_id" Json.Canonical.decode .done

instance : Json.Canonical Move where
  encode m := Json.ofFields [("source", Json.Canonical.encode m.source),
    ("destination", Json.Canonical.encode m.destination),
    ("unit", Json.Canonical.encode m.unit),
    ("quantity", Json.Canonical.encode m.quantity),
    ("contract_id", Json.Canonical.encode m.contract)]
  decode v := (Move.row.decode v).map fun (source, destination, unit, quantity, contract, ()) =>
    ⟨source, destination, unit, quantity, contract⟩

end Subledger
