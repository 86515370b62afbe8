/-
  TIME-ORDERED UNIQUE NAMES (UUID, version 7).

  A name is made of the moment it was made at, in milliseconds, and of random bits: twelve
  hexadecimal digits of the moment, the version, three random digits, and sixteen digits of which
  the first carries the variant.  Hyphens divide the thirty-two digits into five groups.  Names made
  in different milliseconds are ordered like their moments.

  Main statement: `length_chars`, every name has thirty-six characters.
-/
import Subledger.Ident
import Subledger.Power
import Subledger.Text.Hex

namespace Subledger

namespace Uuid

/-- The last `width` hexadecimal digits of a number. -/
def digits : Nat → Nat → List Char
  | 0, _ => []
  | width + 1, n => digits width (n / 16) ++ [Text.Hex.digit (n % 16)]

theorem length_digits (width n : Nat) : (digits width n).length = width := by
  induction width generalizing n with
  | zero => rfl
  | succ width ih => simp [digits, ih]

/-- What a name is made of. -/
structure Seed where
  millis : Nat
  /-- Twelve random bits. -/
  short : Nat
  /-- Sixty-two random bits. -/
  long : Nat
  deriving DecidableEq, Repr

/-- The version digit, for names that are ordered by time. -/
def version : Char := '7'

/-- The long random part behind the two bits of the variant. -/
def tail (s : Seed) : Nat := twoTo 63 + s.long % twoTo 62

/-- The characters of a name. -/
def chars (s : Seed) : List Char :=
  digits 8 (s.millis / twoTo 16) ++ ['-'] ++ digits 4 s.millis ++ ['-', version] ++
    digits 3 s.short ++ ['-'] ++ digits 4 (tail s / twoTo 48) ++ ['-'] ++ digits 12 (tail s)

/-- An identifier has 32 digits and four hyphens, whatever the seed. -/
theorem length_chars (s : Seed) : (chars s).length = 36 := by
  simp [chars, length_digits]

theorem isBlank_chars (s : Seed) : Text.isBlank (String.ofList (chars s)) = false := by
  simp [Text.isBlank, chars, show Text.isSpace '-' = false from by decide]

end Uuid

/-- A name for a transaction that has no reference of its own. -/
def TransactionId.ofSeed (s : Uuid.Seed) : TransactionId :=
  ⟨String.ofList (Uuid.chars s), Uuid.isBlank_chars s⟩

example : (TransactionId.ofSeed ⟨0x17f22e279b0, 0xcc3, 0x18c4dc0c0c07398f⟩).text =
    "017f22e2-79b0-7cc3-98c4-dc0c0c07398f" := by decide +kernel

end Subledger
