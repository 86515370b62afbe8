/-
  SNAPSHOTS: the balances of a book at one moment, as a document.

  The rows come in the order in which they were written down.  A snapshot that was read is not
  checked again, so its look-ups do not rely on the rows' order or on their being different.
-/
import Subledger.Decimal.Arithmetic
import Subledger.Ident
import Subledger.Json.Leaves

namespace Subledger

/-- One balance. -/
structure BalanceEntry where
  account : AccountId
  unit : UnitId
  balance : Decimal
  deriving DecidableEq, Repr

namespace BalanceEntry

/-- Equality of rows, balances compared by value. -/
def same (a b : BalanceEntry) : Bool :=
  a.account == b.account && a.unit == b.unit && a.balance.same b.balance

/-- The fields of a row's document. -/
def row : Json.Row (AccountId × UnitId × Decimal × Unit) :=
  .required "account" Json.Canonical.decode <|
  .required "unit" Json.Canonical.decode <|
  .required "balance" Json.amount .done

instance : Json.Canonical BalanceEntry where
  encode e := Json.ofFields [("account", Json.Canonical.encode e.account),
    ("unit", Json.Canonical.encode e.unit), ("balance", Json.ofAmount e.balance)]
  decode v := (row.decode v).map fun (account, unit, balance, ()) => ⟨account, unit, balance⟩

end BalanceEntry

/-- The balances of a book, and how many transactions it had applied. -/
structure Snapshot where
  applied : Nat
  entries : List BalanceEntry
  deriving DecidableEq, Repr

namespace Snapshot

/-- The balance of an account in a unit, zero if there is no row. -/
def balance (s : Snapshot) (account : AccountId) (unit : UnitId) : Decimal :=
  match s.entries.find? fun e => e.account == account && e.unit == unit with
  | some e => e.balance
  | none => .zero

/-- Adds amounts up in their order; `none` if a sum on the way is too large. -/
def sumFrom (x : Decimal) : List Decimal → Option Decimal
  | [] => some x
  | y :: ys => (x.add? y).bind fun z => sumFrom z ys

/-- The balances of a unit added up. -/
def totalSupply (s : Snapshot) (unit : UnitId) : Option Decimal :=
  sumFrom .zero ((s.entries.filter fun e => e.unit == unit).map BalanceEntry.balance)

/-- Are the rows the same? -/
def sameBalances (s t : Snapshot) : Bool :=
  s.entries.length == t.entries.length && (s.entries.zip t.entries).all fun p => p.1.same p.2

/-- Are the rows and the number of transactions the same? -/
def same (s t : Snapshot) : Bool := s.applied == t.applied && s.sameBalances t

/-- The fields of a snapshot's document. -/
def row : Json.Row (Nat × List BalanceEntry × Unit) :=
  .required "applied_transactions" Json.natural <|
  .required "entries" (Json.list Json.Canonical.decode) .done

instance : Json.Canonical Snapshot where
  encode s := Json.ofFields [("applied_transactions", Json.ofNat s.applied),
    ("entries", Json.ofList (s.entries.map Json.Canonical.encode))]
  decode v := (row.decode v).map fun (applied, entries, ()) => ⟨applied, entries⟩

end Snapshot
end Subledger
