/-
  STRUCTURED TEXT (JSON) as a tree that may break off.

  A document is read once into a tree, and values are decoded from the tree.  A text that is not
  well formed still has a tree: what could be read up to the first fault, and a mark where the
  fault is.  A decoder that walks the tree in document order therefore reports the first error of
  the text, whichever kind it is: a value it refuses, or a fault of form.

  Three marks tell how far a text goes:

  * `Value.fault`: no value can be read here;
  * `Items.fault`: the list breaks off;
  * `Fields.fault`: the record breaks off, or something stands there that is no name.

  A string may be in form and yet spell no text: it names half of a surrogate pair, or holds bytes
  that are no characters.  As a value it is `Value.garbled`, and as the name of a field it makes the
  field `Fields.garbled`: an error for whoever needs the text, and of no account in a field that
  nobody reads.
-/
import Subledger.Decimal.Binary64

namespace Subledger.Json

/-- A number as it is written. -/
structure Number where
  negative : Bool
  /-- The digits before the point. -/
  whole : List Char
  /-- The digits behind the point, none if there is no point. -/
  fraction : List Char
  /-- The exponent, if one is written. -/
  exponent : Option Int
  deriving DecidableEq, Repr

mutual

/-- A value, as far as it could be read. -/
inductive Value where
  | null
  | bool (b : Bool)
  | number (n : Number)
  | text (s : String)
  | garbled
  | array (items : Items)
  | object (fields : Fields)
  | fault

/-- The values of a list, up to its end or to where it breaks off. -/
inductive Items where
  | close
  | fault
  | item (v : Value) (rest : Items)

/-- The fields of a record, up to its end or to where it breaks off. -/
inductive Fields where
  | close
  | fault
  | field (name : String) (v : Value) (rest : Fields)
  | garbled (v : Value) (rest : Fields)

end

/-- A whole text: its value, and whether nothing but blanks follows. -/
structure Document where
  value : Value
  ends : Bool

/-! ## What a number is taken for -/

/-- How a number is held once it is read. -/
inductive Number.Held where
  /-- A whole number of at most sixty-four bits. -/
  | natural (n : Nat)
  /-- The whole number `-n`, with `0 < n ≤ 2^63`. -/
  | negative (n : Nat)
  /-- Any other number: a sign and a binary fraction. -/
  | real (negative : Bool) (x : Binary64)
  /-- A number beyond the largest binary fraction. -/
  | tooLarge
  deriving DecidableEq, Repr

namespace Number

open Subledger.Text

/-- The largest number that is kept exactly. -/
def maxNatural : Nat := twoTo 64 - 1

/-- Takes the leading digits that fit into `maxNatural`, and says which are left over. -/
def accumulate (n : Nat) : List Char → Nat × List Char
  | [] => (n, [])
  | d :: ds =>
    if maxNatural < n * 10 + Digits.digitValue d then (n, d :: ds)
    else accumulate (n * 10 + Digits.digitValue d) ds

/-- The digits that fit and the power of ten they stand for.  Digits before the point that do not
    fit still count as places, digits behind it are dropped. -/
def significand (n : Number) : Nat × Int :=
  let (w, skipped) := accumulate 0 n.whole
  let (f, dropped) := accumulate w n.fraction
  (f, (skipped.length : Int) - (n.fraction.length - dropped.length : Nat))

/-- Is it written as a whole number, without point and exponent? -/
def isWhole (n : Number) : Bool := n.fraction.isEmpty && n.exponent.isNone

/-- The value as a binary fraction. -/
def binary (n : Number) : Held :=
  let (m, e) := n.significand
  match Binary64.scaled m (e + n.exponent.getD 0) with
  | some x => .real n.negative x
  | none => .tooLarge

/-- A whole number within sixty-four bits is held exactly; minus zero is not a whole number. -/
def held (n : Number) : Held :=
  let m := Digits.value n.whole
  if n.isWhole && !n.negative && m ≤ maxNatural then .natural m
  else if n.isWhole && n.negative && 0 < m && m ≤ twoTo 63 then .negative m
  else n.binary

/-- The number `n`, written plainly. -/
def ofNat (n : Nat) : Number := ⟨false, Digits.ofNat n, [], none⟩

theorem held_ofNat {n : Nat} (h : n ≤ maxNatural) : (ofNat n).held = .natural n := by
  simp [held, ofNat, isWhole, Digits.value_ofNat, h]

end Number
end Subledger.Json
