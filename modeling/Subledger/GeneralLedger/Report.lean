/-
  GENERAL-LEDGER REPORTS and their trial balances.

  A report holds one entry for each code, unit and class, with the sum of its debits and the sum
  of its credits, and the sums over all entries.  It is a document: one that was read is taken as it
  stands, so the trial balances make no assumption about it.
-/
import Subledger.Decimal.Arithmetic
import Subledger.GeneralLedger.Mapping
import Subledger.Json.Leaves

namespace Subledger

/-- Why a report cannot be made, or does not balance. -/
inductive GlError where
  /-- Debits and credits differ over the whole report. -/
  | unbalanced (debits credits : Decimal)
  /-- Debits and credits differ within one unit. -/
  | unbalancedUnit (unit : UnitId) (debits credits : Decimal)
  /-- A sum is too large to hold. -/
  | overflow (scope : String)
  /-- The two totals are so far apart that their difference cannot be held; there is no answer. -/
  | differenceOverflow (debits credits : Decimal)
  deriving DecidableEq, Repr

/-- The wording of an error. -/
def GlError.message : GlError → String
  | .unbalanced d c => s!"trial balance failed: debits {d.text} != credits {c.text}"
  | .unbalancedUnit unit d c =>
    s!"trial balance failed for {unit.text}: debits {d.text} != credits {c.text}"
  | .overflow scope => s!"GL totals overflow in {scope}"
  | .differenceOverflow _ _ => "Subtraction overflowed"

/-- The totals of one code, unit and class. -/
structure GlEntry where
  code : String
  unit : UnitId
  type : GlType
  debits : Decimal
  credits : Decimal
  deriving DecidableEq, Repr

namespace GlEntry

/-- The fields of an entry's document. -/
def row : Json.Row (String × UnitId × GlType × Decimal × Decimal × Unit) :=
  .required "gl_code" Json.string <|
  .required "unit" Json.Canonical.decode <|
  .required "gl_account_type" Json.Canonical.decode <|
  .required "debit_total" Json.amount <|
  .required "credit_total" Json.amount .done

instance : Json.Canonical GlEntry where
  encode e := Json.ofFields [("gl_code", .text e.code), ("unit", Json.Canonical.encode e.unit),
    ("gl_account_type", Json.Canonical.encode e.type),
    ("debit_total", Json.ofAmount e.debits), ("credit_total", Json.ofAmount e.credits)]
  decode v := (row.decode v).map fun (code, unit, type, debits, credits, ()) =>
    ⟨code, unit, type, debits, credits⟩

end GlEntry

/-- A projection onto general-ledger codes as of an instant. -/
structure GlReport where
  asOf : Instant
  entries : List GlEntry
  debits : Decimal
  credits : Decimal
  deriving DecidableEq, Repr

/-- A pair of running totals. -/
structure Totals where
  debit : Decimal
  credit : Decimal
  deriving DecidableEq, Repr

/-- Nothing on either side. -/
def Totals.zero : Totals := ⟨.zero, .zero⟩

namespace GlReport

/-- The first entry of a code and a unit. -/
def entry? (r : GlReport) (code : String) (unit : UnitId) : Option GlEntry :=
  r.entries.find? fun e => e.code == code && e.unit == unit

/-- Debits minus credits over the whole report: zero, or an error with both totals. -/
def trialBalance (r : GlReport) : Except GlError Decimal :=
  match r.debits.sub? r.credits with
  | none => .error (.differenceOverflow r.debits r.credits)
  | some d => if d.isZero then .ok .zero else .error (.unbalanced r.debits r.credits)

/-- Adds one entry to the totals of its unit. -/
def addToUnit (t : Table UnitId Totals) (e : GlEntry) : Except GlError (Table UnitId Totals) :=
  let totals := (t.find? e.unit).getD .zero
  match totals.debit.add? e.debits, totals.credit.add? e.credits with
  | some d, some c => .ok (t.insert e.unit ⟨d, c⟩)
  | _, _ => .error (.overflow s!"unit {e.unit.text}")

/-- The totals of each unit. -/
def unitTotals (r : GlReport) : Except GlError (Table UnitId Totals) :=
  r.entries.foldlM addToUnit .empty

/-- The first of some units whose totals differ in value. -/
def firstUnbalanced : List (UnitId × Totals) → Except GlError Unit
  | [] => .ok ()
  | (unit, t) :: rest =>
    if t.debit.same t.credit then firstUnbalanced rest
    else .error (.unbalancedUnit unit t.debit t.credit)

/-- The same check unit by unit; the first unit in order that does not balance is reported. -/
def trialBalanceByUnit (r : GlReport) : Except GlError Unit := do
  let totals ← r.unitTotals
  firstUnbalanced totals.rows

/-- The fields of a report's document. -/
def row : Json.Row (Instant × List GlEntry × Decimal × Decimal × Unit) :=
  .required "as_of" Json.Canonical.decode <|
  .required "entries" (Json.list Json.Canonical.decode) <|
  .required "debit_total" Json.amount <|
  .required "credit_total" Json.amount .done

instance : Json.Canonical GlReport where
  encode r := Json.ofFields [("as_of", Json.Canonical.encode r.asOf),
    ("entries", Json.ofList (r.entries.map Json.Canonical.encode)),
    ("debit_total", Json.ofAmount r.debits), ("credit_total", Json.ofAmount r.credits)]
  decode v := (row.decode v).map fun (asOf, entries, debits, credits, ()) =>
    ⟨asOf, entries, debits, credits⟩

end GlReport
end Subledger
