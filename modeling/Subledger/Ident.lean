/-
  NAMES: accounts, units, transactions and contracts are known by a text that is not blank.

  The four kinds of name cannot be mixed up, but follow one rule: the text is kept as it was given,
  white space and all, and only a text of nothing but white space is refused.  Names are ordered by
  the code points of their texts.
-/
import Subledger.Json.Decode
import Subledger.Text.Blank
import Subledger.ValueError

namespace Subledger

/-- What a name is the name of. -/
inductive IdentKind where
  | account
  | unit
  | transaction
  | contract
  deriving DecidableEq, Repr

/-- What a refusal calls a name of this kind. -/
def IdentKind.field : IdentKind → String
  | .account => "account_id"
  | .unit => "unit"
  | .transaction => "transaction_id"
  | .contract => "contract_id"

/-- A name of one kind. -/
structure Ident (kind : IdentKind) where
  text : String
  not_blank : Text.isBlank text = false
  deriving DecidableEq, Repr

/-- The name of an account. -/
abbrev AccountId := Ident .account

/-- The name of what moves between accounts: a currency, a security, a contract's token. -/
abbrev UnitId := Ident .unit

/-- The name of a transaction; a book applies no name twice. -/
abbrev TransactionId := Ident .transaction

/-- The name of the contract or trade that a move belongs to. -/
abbrev ContractId := Ident .contract

namespace Ident

variable {kind : IdentKind}

/-- The name with this text, unless it is blank. -/
def ofText (s : String) : Except ValueError (Ident kind) :=
  if h : Text.isBlank s = false then .ok ⟨s, h⟩ else .error (.empty kind.field)

instance : Ord (Ident kind) := ⟨compareOn Ident.text⟩

theorem ext_text {a b : Ident kind} (h : a.text = b.text) : a = b := by
  cases a
  cases b
  simp_all

instance : Std.TransOrd (Ident kind) :=
  inferInstanceAs (Std.TransCmp (compareOn (Ident.text : Ident kind → String)))

instance : Std.LawfulEqOrd (Ident kind) where
  eq_of_compare {a b} h :=
    ext_text (Std.LawfulEqCmp.eq_of_compare (show compare a.text b.text = .eq from h))

instance : Json.Canonical (Ident kind) where
  encode a := .text a.text
  decode := Json.checked fun s => (ofText s).mapError ValueError.message

/-- A text is a name exactly if it is not blank, and then it is the name's text. -/
theorem ofText_eq_ok_iff {s : String} {a : Ident kind} : ofText s = .ok a ↔ a.text = s := by
  unfold ofText
  split
  · constructor
    · intro h
      obtain rfl := Except.ok.inj h
      rfl
    · intro h
      subst h
      rfl
  · rename_i h
    constructor
    · intro h'
      exact absurd h' (by simp)
    · intro h'
      exact absurd (h' ▸ a.not_blank) h

end Ident
end Subledger
