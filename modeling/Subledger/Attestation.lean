/-
  ATTESTATION: bytes kept under their digest.

  What is attested is never changed or removed.  Attesting the same bytes again gives the same
  digest and keeps the first copy.
-/
import Subledger.Digest
import Subledger.Json.Decode
import Subledger.Table
import Subledger.ValueError

namespace Subledger

/-- The hexadecimal digest of some bytes.  One that is read from a document is taken as it stands. -/
structure ContentHash where
  text : String
  deriving DecidableEq, Repr

namespace ContentHash

/-- The hash of some bytes. -/
def ofBytes (bs : List UInt8) : ContentHash :=
  ⟨String.ofList (Text.Hex.ofBytes (Digest.sha256 bs))⟩

/-- Is this text of the form of a hash? -/
def isWellFormed (s : String) : Bool :=
  s.toList.length == 64 && s.toList.all Text.Hex.isLowerDigit

/-- The hash that a text spells. -/
def ofText (s : String) : Except ValueError ContentHash :=
  if isWellFormed s then .ok ⟨s⟩
  else .error (.invalid "content_hash" "expected 64 lowercase hex characters")

instance : Ord ContentHash := ⟨compareOn ContentHash.text⟩

instance : Std.TransOrd ContentHash := inferInstanceAs (Std.TransCmp (compareOn ContentHash.text))

instance : Std.LawfulEqOrd ContentHash where
  eq_of_compare {a b} h := by
    have h' := Std.LawfulEqCmp.eq_of_compare (show compare a.text b.text = .eq from h)
    cases a
    cases b
    simp_all

instance : Json.Canonical ContentHash where
  encode h := .text h.text
  decode v := (Json.string v).map ContentHash.mk

end ContentHash

/-- The hash of a value's canonical bytes. -/
def contentHash {α : Type} [Json.Canonical α] (a : α) : ContentHash :=
  .ofBytes (Json.canonicalBytes a)

/-- Attested bytes by their hash. -/
abbrev AttestationStore := Table ContentHash (List UInt8)

namespace AttestationStore

/-- Keeps bytes under their hash. -/
def store (s : AttestationStore) (bs : List UInt8) : ContentHash × AttestationStore :=
  let h := ContentHash.ofBytes bs
  (h, if s.contains h then s else s.insert h bs)

/-- Keeps the canonical bytes of a value. -/
def attest {α : Type} [Json.Canonical α] (s : AttestationStore) (a : α) :
    ContentHash × AttestationStore :=
  s.store (Json.canonicalBytes a)

end AttestationStore
end Subledger
