/-
  THE LEAVES OF DOCUMENTS: instants and amounts as strings.

  An amount is written without trailing zeros and read back as such, so that amounts of one value
  have one text.  An instant is read leniently and written in one way.
-/
import Subledger.Decimal.Text
import Subledger.Instant.Reader
import Subledger.Instant.Text
import Subledger.Json.Decode

namespace Subledger

instance : Json.Canonical Instant where
  encode t := .text t.text
  decode := Json.checked fun s => (Instant.ofText s).mapError Instant.ReadError.message

namespace Json

/-- The tree of an amount. -/
def ofAmount (x : Decimal) : Value := .text x.normalize.text

/-- Reads an amount. -/
def amount : Decoder Decimal := checked fun s =>
  ((Decimal.ofText s).map Decimal.normalize).mapError Decimal.ReadError.message

/-- The tree of a decimal with its places kept. -/
def ofDecimal (x : Decimal) : Value := .text x.text

end Json
end Subledger
