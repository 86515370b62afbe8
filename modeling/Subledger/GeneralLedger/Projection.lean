/-
  PROJECTION of balances onto the general ledger.

  Every balance of a mapped account goes to the entry of its code, unit and class: to the debits
  if it is not negative, without its sign to the credits if it is.  Accounts without a mapping are
  left out.  The entries are ordered by code, unit and class.
-/
import Subledger.GeneralLedger.Report
import Subledger.Ledger.Snapshot

namespace Subledger

/-- What an entry is the entry of. -/
structure GlKey where
  code : String
  unit : UnitId
  type : GlType
  deriving DecidableEq, Repr

namespace GlKey

/-- Keys are ordered by code, then by unit, then by class. -/
instance : Ord GlKey :=
  ⟨compareLex (compareOn code) (compareLex (compareOn unit) (compareOn type))⟩

instance : Std.TransOrd GlKey :=
  inferInstanceAs (Std.TransCmp
    (compareLex (compareOn code) (compareLex (compareOn unit) (compareOn type))))

instance : Std.LawfulEqOrd GlKey where
  eq_of_compare {a b} h := by
    have h1 := compareLex_eq_eq.1 h
    have h2 := compareLex_eq_eq.1 h1.2
    cases a
    cases b
    simp only [GlKey.mk.injEq]
    exact ⟨Std.LawfulEqCmp.eq_of_compare h1.1, Std.LawfulEqCmp.eq_of_compare h2.1,
      Std.LawfulEqCmp.eq_of_compare h2.2⟩

end GlKey

namespace GlReport

/-- Totals with one more balance, on the side of its sign. -/
def addBalance (t : Totals) (x : Decimal) : Option Totals :=
  if x.isNegative then (t.credit.add? x.abs).map fun c => { t with credit := c }
  else (t.debit.add? x).map fun d => { t with debit := d }

/-- Takes one balance into the entries so far. -/
def group (mappings : GlMappings) (g : Table GlKey Totals) (e : BalanceEntry) :
    Except GlError (Table GlKey Totals) :=
  match mappings.find? e.account with
  | none => .ok g
  | some m =>
    let key : GlKey := ⟨m.code, e.unit, m.type⟩
    match addBalance ((g.find? key).getD .zero) e.balance with
    | some t => .ok (g.insert key t)
    | none => .error (.overflow s!"{m.code} / {e.unit.text}")

/-- Adds an entry's totals to those of the report, debits first. -/
def addToReport (t : Totals) (row : GlKey × Totals) : Except GlError Totals :=
  match t.debit.add? row.2.debit with
  | none => .error (.overflow "report debits")
  | some d =>
    match t.credit.add? row.2.credit with
    | none => .error (.overflow "report credits")
    | some c => .ok ⟨d, c⟩

/-- The report of a snapshot. -/
def ofSnapshot (s : Snapshot) (mappings : GlMappings) (asOf : Instant) : Except GlError GlReport := do
  let grouped ← s.entries.foldlM (group mappings) .empty
  let totals ← grouped.rows.foldlM addToReport .zero
  return ⟨asOf, grouped.rows.map fun (k, t) => ⟨k.code, k.unit, k.type, t.debit, t.credit⟩,
    totals.debit, totals.credit⟩

end GlReport
end Subledger
