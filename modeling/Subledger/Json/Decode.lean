/-
  DECODING: from the tree of a text to values of the domain.

  A decoder takes a tree and gives a value or the first error of the text.  Records are described
  by a `Row`: their fields in the order of declaration, each with its own decoder and perhaps a
  value for when it is absent.  One description serves three purposes: reading a record by names in
  any order, reading it as a list by position, and telling which field is missing.

  `Canonical` gathers the types that have a canonical text: `Json.canonical` writes it, and
  `Json.parse` reads it and whatever else spells the same value.
-/
import Subledger.Json.Reader
import Subledger.Json.Writer

namespace Subledger.Json

/-- Why a text does not decode. -/
inductive Error where
  /-- The text is not well formed. -/
  | malformed
  /-- A value of another kind than the place asks for. -/
  | invalidType
  /-- A value of the right kind that the place does not allow. -/
  | invalidValue
  /-- A record given as too short a list. -/
  | invalidLength
  /-- A code that is not in its list. -/
  | unknownVariant
  | missingField (name : String)
  | duplicateField (name : String)
  /-- A value that its own type refuses, in that type's words. -/
  | refused (reason : String)
  deriving DecidableEq, Repr

/-- The wording of a decoding error. -/
def Error.message : Error → String
  | .malformed => "syntax"
  | .invalidType => "invalid type"
  | .invalidValue => "invalid value"
  | .invalidLength => "invalid length"
  | .unknownVariant => "unknown variant"
  | .missingField name => "missing field \x60" ++ name ++ "\x60"
  | .duplicateField name => "duplicate field \x60" ++ name ++ "\x60"
  | .refused reason => reason

/-- Reads a value of the domain off a tree. -/
abbrev Decoder (α : Type) := Value → Except Error α

/-- The error of a place that wants a value of another kind.  A word, number or string must be in
    form before it can be of the wrong kind; a list or record is so at its first bracket. -/
def mismatch : Value → Error
  | .fault => .malformed
  | .garbled => .malformed
  | .number n => if n.held = .tooLarge then .malformed else .invalidType
  | _ => .invalidType

/-! ## Single values -/

/-- A string. -/
def string : Decoder String
  | .text s => .ok s
  | v => .error (mismatch v)

/-- A string that `check` turns into a value or refuses. -/
def checked {α : Type} (check : String → Except String α) : Decoder α := fun v => do
  let s ← string v
  match check s with
  | .ok a => .ok a
  | .error reason => .error (.refused reason)

/-- A whole number of at most sixty-four bits. -/
def natural : Decoder Nat
  | .number n =>
    match n.held with
    | .natural k => .ok k
    | .negative _ => .error .invalidValue
    | .real _ _ => .error .invalidType
    | .tooLarge => .error .malformed
  | v => .error (mismatch v)

/-- A decimal given as a string or as a number. -/
def decimal : Decoder Decimal
  | .text s => (Decimal.ofText s).mapError fun _ => .invalidValue
  | .number n =>
    match n.held with
    | .natural k => ((Decimal.make? k 0).map .ok).getD (.error .invalidValue)
    | .negative k => ((Decimal.make? (-k) 0).map .ok).getD (.error .invalidValue)
    | .real negative x => (x.toDecimal negative).mapError fun _ => .invalidValue
    | .tooLarge => .error .malformed
  | v => .error (mismatch v)

/-- A code of a list, alone or as the name of the one field of a record, with nothing in it. -/
def code {α : Type} (find : String → Option α) : Decoder α
  | .text s =>
    match find s with
    | some a => .ok a
    | none => .error .unknownVariant
  | .object (.field name v rest) =>
    match find name with
    | none => .error .unknownVariant
    | some a =>
      match v, rest with
      | .null, .close => .ok a
      | .null, _ => .error .malformed
      | v, _ => .error (mismatch v)
  | _ => .error .malformed

/-- A value or `null`. -/
def optional {α : Type} (d : Decoder α) : Decoder (Option α)
  | .null => .ok none
  | v => (d v).map some

/-- The values of a list. -/
def items {α : Type} (d : Decoder α) : Items → Except Error (List α)
  | .close => .ok []
  | .fault => .error .malformed
  | .item v rest => do
    let a ← d v
    let as ← items d rest
    return a :: as

/-- A list. -/
def list {α : Type} (d : Decoder α) : Decoder (List α)
  | .array is => items d is
  | v => .error (mismatch v)

/-! ## Records -/

/-- The fields of a record in the order of declaration. -/
inductive Row : Type → Type 1 where
  | done : Row Unit
  /-- A field with its decoder, the value it has when absent (if it may be), and the fields after
      it. -/
  | field {α β : Type} (name : String) (decode : Decoder α) (absent : Option α) (rest : Row β) :
      Row (α × β)

namespace Row

/-- A field that must be given. -/
def required {α β : Type} (name : String) (decode : Decoder α) (rest : Row β) : Row (α × β) :=
  .field name decode none rest

/-- The fields of a record that have been met so far. -/
def Draft : {α : Type} → Row α → Type
  | _, .done => Unit
  | _, @field α _ _ _ _ rest => Option α × rest.Draft

/-- No field yet. -/
def blank : {α : Type} → (r : Row α) → r.Draft
  | _, .done => ()
  | _, .field _ _ _ rest => (none, rest.blank)

/-- Takes one named value into a draft.  A name that no field has is passed over; a field is not
    given twice, whatever its second value. -/
def put : {α : Type} → (r : Row α) → String → Value → r.Draft → Except Error r.Draft
  | _, .done, _, _, d => .ok d
  | _, .field name decode _ rest, k, v, d =>
    if k = name then
      match d.1 with
      | some _ => .error (.duplicateField name)
      | none => (decode v).map fun a => (some a, d.2)
    else (rest.put k v d.2).map fun more => (d.1, more)

/-- Takes the named values of a record into a draft, in the order of the text. -/
def fill {α : Type} (r : Row α) (d : r.Draft) : Fields → Except Error r.Draft
  | .close => .ok d
  | .fault => .error .malformed
  | .garbled _ _ => .error .malformed
  | .field name v more => do
    let d ← r.put name v d
    r.fill d more

/-- The record of a draft, or the first field that is missing. -/
def finish : {α : Type} → (r : Row α) → r.Draft → Except Error α
  | _, .done, _ => .ok ()
  | _, .field name _ absent rest, d =>
    match d.1 <|> absent with
    | some a => (rest.finish d.2).map fun b => (a, b)
    | none => .error (.missingField name)

/-- A record given as the list of its values. -/
def ofItems : {α : Type} → (r : Row α) → Items → Except Error α
  | _, .done, .close => .ok ()
  | _, .done, _ => .error .malformed
  | _, .field _ _ _ _, .fault => .error .malformed
  | _, .field _ _ absent rest, .close =>
    match absent with
    | some a => (rest.ofItems .close).map fun b => (a, b)
    | none => .error .invalidLength
  | _, .field _ decode _ rest, .item v more => do
    let a ← decode v
    let b ← rest.ofItems more
    return (a, b)

/-- The decoder of a record. -/
def decode {α : Type} (r : Row α) : Decoder α
  | .object fs => do
    let d ← r.fill r.blank fs
    r.finish d
  | .array is => r.ofItems is
  | v => .error (mismatch v)

end Row

/-! ## Writing trees -/

/-- A list of values. -/
def ofList (vs : List Value) : Value := .array (vs.foldr .item .close)

/-- A record of named values. -/
def ofFields (fs : List (String × Value)) : Value :=
  .object (fs.foldr (fun f rest => .field f.1 f.2 rest) .close)

/-- A number. -/
def ofNat (n : Nat) : Value := .number (.ofNat n)

/-! ## Types with a written form -/

/-- A type whose values have a canonical text. -/
class Canonical (α : Type) where
  /-- The tree of a value. -/
  encode : α → Value
  /-- The value of a tree, or the first error. -/
  decode : Decoder α

/-- The value of a whole text: its tree decodes, and nothing follows it. -/
def Document.decode {α : Type} (d : Decoder α) (doc : Document) : Except Error α :=
  match d doc.value with
  | .error e => .error e
  | .ok a => if doc.ends then .ok a else .error .malformed

/-- The value of a text. -/
def decodeText {α : Type} (d : Decoder α) (s : String) : Except Error α := (read s).decode d

/-- The value of a text given as bytes. -/
def decodeBytes {α : Type} (d : Decoder α) (bs : List UInt8) : Except Error α :=
  (readBytes bs).decode d

/-- The canonical text of a value. -/
def canonical {α : Type} [Canonical α] (a : α) : String := write (Canonical.encode a)

/-- The canonical bytes of a value. -/
def canonicalBytes {α : Type} [Canonical α] (a : α) : List UInt8 :=
  Text.Utf8.encode (canonical a).toList

/-- The value that a canonical text stands for. -/
def parse {α : Type} [Canonical α] (s : String) : Except Error α := decodeText Canonical.decode s

/-- The value that canonical bytes stand for. -/
def parseBytes {α : Type} [Canonical α] (bs : List UInt8) : Except Error α :=
  decodeBytes Canonical.decode bs

end Subledger.Json
