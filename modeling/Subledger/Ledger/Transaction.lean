/-
  TRANSACTIONS: moves that are applied together, once, under one name.
-/
import Subledger.Ledger.Error
import Subledger.Movement

namespace Subledger

/-- An ordered group of at least one move. -/
structure Transaction where
  id : TransactionId
  timestamp : Instant
  moves : List Move
  moves_ne : moves ≠ []
  deriving DecidableEq, Repr

namespace Transaction

/-- The transaction with these moves, if there is one at all. -/
def ofMoves (id : TransactionId) (timestamp : Instant) (moves : List Move) :
    Except LedgerError Transaction :=
  if h : moves ≠ [] then .ok ⟨id, timestamp, moves, h⟩ else .error (.emptyTransaction id)

/-- The fields of a transaction's document. -/
def row : Json.Row (TransactionId × Instant × List Move × Unit) :=
  .required "id" Json.Canonical.decode <|
  .required "timestamp" Json.Canonical.decode <|
  .required "moves" (Json.list Json.Canonical.decode) .done

instance : Json.Canonical Transaction where
  encode t := Json.ofFields [("id", Json.Canonical.encode t.id),
    ("timestamp", Json.Canonical.encode t.timestamp),
    ("moves", Json.ofList (t.moves.map Json.Canonical.encode))]
  decode v := do
    let (id, timestamp, moves, ()) ← row.decode v
    (ofMoves id timestamp moves).mapError fun e => .refused e.message

end Transaction
end Subledger
