/-
  THE REGISTER of accounts: which exist, and of what type each is.

  Accounts are only added.  Registering the same account again changes nothing, and registering it
  with another type is refused.
-/
import Subledger.Ledger.Error
import Subledger.Table

namespace Subledger

/-- What came of a registration. -/
inductive Registration where
  | created
  /-- The same account was registered before. -/
  | unchanged
  deriving DecidableEq, Repr

/-- The accounts that exist, by name. -/
structure Registry where
  types : Table AccountId AccountType
  deriving DecidableEq

namespace Registry

/-- No accounts. -/
def empty : Registry := ⟨.empty⟩

/-- The type of an account, if it exists. -/
def typeOf? (r : Registry) (id : AccountId) : Option AccountType := r.types.find? id

/-- Does an account exist? -/
def contains (r : Registry) (id : AccountId) : Bool := r.types.contains id

/-- The accounts in the order of their names. -/
def accounts (r : Registry) : List Account := r.types.rows.map fun row => ⟨row.1, row.2⟩

/-- The number of accounts. -/
def size (r : Registry) : Nat := r.types.size

/-- Is there no account? -/
def isEmpty (r : Registry) : Bool := r.types.isEmpty

/-- Registers an account. -/
def register (r : Registry) (a : Account) : Except LedgerError (Registration × Registry) :=
  match r.typeOf? a.id with
  | some type =>
    if type = a.type then .ok (.unchanged, r)
    else .error (.classificationConflict a.id type a.type)
  | none => .ok (.created, ⟨r.types.insert a.id a.type⟩)

/-- Registers accounts one after the other, up to the first conflict. -/
def registerAll (r : Registry) : List Account → Except LedgerError Registry
  | [] => .ok r
  | a :: as => do
    let (_, r) ← r.register a
    r.registerAll as

/-- The register of some accounts. -/
def ofAccounts (as : List Account) : Except LedgerError Registry := empty.registerAll as

end Registry
end Subledger
