/-
  THE BOOK: balances per account and unit, changed by whole transactions only.

  `Book.execute` applies a transaction at most once.  It first looks at every move, then works out
  the balances that the moves lead to beside the book, and only when nothing can fail any more puts
  them in.  A refused transaction therefore leaves no trace; that is visible in the type, which has
  no new book to give with an error.
-/
import Subledger.Ledger.Registry
import Subledger.Ledger.Snapshot
import Subledger.Ledger.Transaction

namespace Subledger

/-- What a balance is the balance of. -/
structure Position where
  account : AccountId
  unit : UnitId
  deriving DecidableEq, Repr

namespace Position

/-- Positions are ordered by account and then by unit. -/
instance : Ord Position := ⟨compareLex (compareOn account) (compareOn unit)⟩

instance : Std.TransOrd Position :=
  inferInstanceAs (Std.TransCmp (compareLex (compareOn account) (compareOn unit)))

instance : Std.LawfulEqOrd Position where
  eq_of_compare {a b} h := by
    have h' := compareLex_eq_eq.1 h
    cases a
    cases b
    simp only [Position.mk.injEq]
    exact ⟨Std.LawfulEqCmp.eq_of_compare h'.1, Std.LawfulEqCmp.eq_of_compare h'.2⟩

end Position

/-- What came of a transaction. -/
inductive Outcome where
  | applied
  /-- A transaction of this name was applied before; nothing was done. -/
  | alreadyApplied
  deriving DecidableEq, Repr

namespace Outcome

/-- The code that documents carry. -/
def code : Outcome → String
  | .applied => "APPLIED"
  | .alreadyApplied => "ALREADY_APPLIED"

/-- The outcome of a code. -/
def ofCode? (s : String) : Option Outcome := [applied, alreadyApplied].find? fun o => o.code = s

instance : Json.Canonical Outcome where
  encode o := .text o.code
  decode := Json.code ofCode?

end Outcome

/-- Accounts, their balances, and the transactions that led to them. -/
structure Book where
  registry : Registry
  balances : Table Position Decimal
  /-- The transactions applied, the latest first. -/
  applied : List TransactionId
  deriving DecidableEq

namespace Book

/-- A book of these accounts in which nothing has happened. -/
def ofRegistry (r : Registry) : Book := ⟨r, .empty, []⟩

/-- Registers an account. -/
def register (b : Book) (a : Account) : Except LedgerError (Registration × Book) :=
  (b.registry.register a).map fun (done, r) => (done, { b with registry := r })

/-! ## Applying a transaction -/

/-- What is wrong with a move between these accounts, if anything: an account may not pay itself,
    and both must exist. -/
def violation? (r : Registry) (m : Move) : Option MoveViolation :=
  if m.source = m.destination then some (.selfTransfer m.source)
  else if !r.contains m.source then some (.unknownAccount .source m.source)
  else if !r.contains m.destination then some (.unknownAccount .destination m.destination)
  else none

/-- The first move that is wrong, counting from `index`. -/
def firstViolation (r : Registry) (index : Nat) : List Move → Option (Nat × MoveViolation)
  | [] => none
  | m :: ms =>
    match violation? r m with
    | some v => some (index, v)
    | none => firstViolation r (index + 1) ms

/-- Balances that are worked out but not yet in the book. -/
abbrev Staged := Table Position Decimal

/-- The balance of a position as it stands with the staged ones. -/
def staged (b : Book) (s : Staged) (p : Position) : Decimal :=
  match s.find? p with
  | some x => x
  | none => (b.balances.find? p).getD .zero

/-- Changes a position by an amount. -/
def adjust (b : Book) (id : TransactionId) (s : Staged) (p : Position) (x : Decimal) :
    Except LedgerError Staged :=
  match (b.staged s p).add? x with
  | some y => .ok (s.insert p y)
  | none => .error (.overflow id p.account p.unit)

/-- Takes a move's quantity from its source and then gives it to its destination. -/
def stageMove (b : Book) (id : TransactionId) (s : Staged) (m : Move) :
    Except LedgerError Staged := do
  let s ← b.adjust id s ⟨m.source, m.unit⟩ m.quantity.value.neg
  b.adjust id s ⟨m.destination, m.unit⟩ m.quantity.value

/-- The balances that some moves lead to. -/
def stageMoves (b : Book) (id : TransactionId) (s : Staged) : List Move → Except LedgerError Staged
  | [] => .ok s
  | m :: ms => do
    let s ← b.stageMove id s m
    b.stageMoves id s ms

/-- The balances that a transaction leads to, once all its moves are found right. -/
def stage (b : Book) (t : Transaction) : Except LedgerError Staged :=
  match firstViolation b.registry 0 t.moves with
  | some (index, v) => .error (.invalidMove t.id index v)
  | none => b.stageMoves t.id .empty t.moves

/-- Puts staged balances into a table. -/
def commit (balances : Table Position Decimal) (s : Staged) : Table Position Decimal :=
  s.rows.foldl (fun t r => t.insert r.1 r.2) balances

/-- Has a transaction of this name been applied? -/
def isApplied (b : Book) (id : TransactionId) : Bool := b.applied.contains id

/-- Applies a transaction, unless one of its name has been. -/
def execute (b : Book) (t : Transaction) : Except LedgerError (Outcome × Book) :=
  if b.isApplied t.id then .ok (.alreadyApplied, b)
  else
    (b.stage t).map fun s =>
      (.applied, { b with balances := commit b.balances s, applied := t.id :: b.applied })

/-! ## Looking into the book -/

/-- The balance of a position, zero if nothing ever touched it. -/
def balance (b : Book) (account : AccountId) (unit : UnitId) : Decimal :=
  (b.balances.find? ⟨account, unit⟩).getD .zero

/-- The number of transactions applied. -/
def appliedCount (b : Book) : Nat := b.applied.length

/-- The units that some position has, in order. -/
def units (b : Book) : List UnitId :=
  (Table.ofList (b.balances.rows.map fun r => (r.1.unit, ()))).keys

/-- The balances of a unit added up in the order of the accounts. -/
def totalSupply (b : Book) (unit : UnitId) : Except LedgerError Decimal :=
  match Snapshot.sumFrom .zero
      ((b.balances.rows.filter fun r => r.1.unit == unit).map Prod.snd) with
  | some x => .ok x
  | none => .error (.supplyOverflow unit)

/-- Checks that the balances of each of some units add up to zero. -/
def verifyUnits (b : Book) : List UnitId → Except LedgerError Unit
  | [] => .ok ()
  | u :: us => do
    let total ← b.totalSupply u
    if total.isZero then b.verifyUnits us else .error (.conservationViolation u total)

/-- The reconciliation: the balances of every unit add up to zero. -/
def verifyConservation (b : Book) : Except LedgerError Unit := b.verifyUnits b.units

/-- The balances of the book as they are now. -/
def snapshot (b : Book) : Snapshot :=
  ⟨b.appliedCount, b.balances.rows.map fun r => ⟨r.1.account, r.1.unit, r.2.normalize⟩⟩

end Book
end Subledger
