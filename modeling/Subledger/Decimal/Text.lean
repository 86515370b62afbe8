/-
  THE TEXT OF A DECIMAL: a minus sign if it has one, its whole part without leading zeros, and
  behind a point exactly as many digits as it has places.
-/
import Subledger.Decimal.Basic
import Subledger.Text.Digits

namespace Subledger.Decimal

open Subledger.Text

/-- The digits behind the point, with the point; nothing for a number without places. -/
def fraction (m s : Nat) : List Char :=
  if s = 0 then [] else '.' :: Digits.padded s (m % tenTo s)

/-- The characters of a decimal. -/
def chars (x : Decimal) : List Char :=
  (if x.negative then ['-'] else []) ++
    (Digits.ofNat (x.magnitude / tenTo x.scale) ++ fraction x.magnitude x.scale)

/-- The text of a decimal. -/
def text (x : Decimal) : String := String.ofList x.chars

example : text ⟨true, 1250, 2, by decide, by decide⟩ = "-12.50" := by decide +kernel
example : text ⟨true, 0, 3, by decide, by decide⟩ = "-0.000" := by decide +kernel
example : text ⟨false, 7, 0, by decide, by decide⟩ = "7" := by decide +kernel

end Subledger.Decimal
