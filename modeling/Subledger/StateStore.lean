/-
  THE STATE STORE: bytes under keys, for whoever needs to remember a place.
-/
import Subledger.Table

namespace Subledger

/-- Bytes under keys. -/
abbrev StateStore := Table String (List UInt8)

/-- The store cannot be used. -/
inductive StateStoreError where
  | poisoned
  deriving DecidableEq, Repr

/-- The wording of the error. -/
def StateStoreError.message : StateStoreError → String
  | .poisoned => "state store lock poisoned"

/-- What of the store is out of order while a call runs. -/
structure StoreOutage where
  get : Bool
  put : Bool
  deriving DecidableEq, Repr

namespace StateStore

/-- Looks up a key, unless looking up is out of order. -/
def getUnder (o : StoreOutage) (s : StateStore) (key : String) :
    Except StateStoreError (Option (List UInt8)) :=
  if o.get then .error .poisoned else .ok (s.find? key)

/-- Puts bytes under a key, unless that is out of order. -/
def putUnder (o : StoreOutage) (s : StateStore) (key : String) (bytes : List UInt8) :
    Except StateStoreError StateStore :=
  if o.put then .error .poisoned else .ok (s.insert key bytes)

end StateStore
end Subledger
