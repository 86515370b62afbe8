/-
  MAPPINGS: where the balances of an account land in the general ledger.
-/
import Subledger.Ident
import Subledger.Table

namespace Subledger

/-- The classes of general-ledger accounts. -/
inductive GlType where
  | asset
  | liability
  | equity
  | revenue
  | expense
  deriving DecidableEq, Repr

namespace GlType

/-- The code that documents carry. -/
def code : GlType → String
  | .asset => "ASSET"
  | .liability => "LIABILITY"
  | .equity => "EQUITY"
  | .revenue => "REVENUE"
  | .expense => "EXPENSE"

/-- All classes, in the order of declaration, which is also their order in reports. -/
def all : List GlType := [.asset, .liability, .equity, .revenue, .expense]

/-- The class of a code. -/
def ofCode? (s : String) : Option GlType := all.find? fun t => t.code = s

/-- The place of a class in the order. -/
def rank : GlType → Nat
  | .asset => 0
  | .liability => 1
  | .equity => 2
  | .revenue => 3
  | .expense => 4

theorem ofCode?_code (t : GlType) : ofCode? t.code = some t := by cases t <;> decide

/-- The rank orders the types of a ledger account and is different for different ones. -/
theorem rank_inj {a b : GlType} (h : a.rank = b.rank) : a = b := by
  cases a <;> cases b <;> first | rfl | exact absurd h (by decide)

instance : Ord GlType := ⟨compareOn rank⟩

instance : Std.TransOrd GlType := inferInstanceAs (Std.TransCmp (compareOn rank))

instance : Std.LawfulEqOrd GlType where
  eq_of_compare {a b} h :=
    rank_inj (Std.LawfulEqCmp.eq_of_compare (show compare a.rank b.rank = .eq from h))

instance : Json.Canonical GlType where
  encode t := .text t.code
  decode := Json.code ofCode?

end GlType

/-- A general-ledger code and its class. -/
structure GlMapping where
  code : String
  type : GlType
  deriving DecidableEq, Repr

namespace GlMapping

/-- The mapping to a code, unless it is blank.  A mapping that is read from a document is taken as
    it stands. -/
def ofParts (code : String) (type : GlType) : Except ValueError GlMapping :=
  if Text.isBlank code then .error (.empty "gl_code") else .ok ⟨code, type⟩

/-- The fields of a mapping's document. -/
def row : Json.Row (String × GlType × Unit) :=
  .required "gl_code" Json.string <|
  .required "gl_account_type" Json.Canonical.decode .done

instance : Json.Canonical GlMapping where
  encode m := Json.ofFields [("gl_code", .text m.code),
    ("gl_account_type", Json.Canonical.encode m.type)]
  decode v := (row.decode v).map fun (code, type, ()) => ⟨code, type⟩

end GlMapping

/-- The mapping of each account that has one. -/
abbrev GlMappings := Table AccountId GlMapping

end Subledger
