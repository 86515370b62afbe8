/-
  READING A DECIMAL.

  The plain form is a sign, digits with at most one point among them, and underscores anywhere
  after the first digit.  Digits are taken while they fit.  One that does not is an error before
  the point and is rounded away behind it, a half upwards; what follows it is only looked over.
  Underscores mean nothing, but for one that stands right behind the last place of a number of few
  digits: it is taken for the digit that decides the rounding, and rounds down.

  A text that is not of the plain form is tried as `base e exponent`.  The exponent moves the
  point of the base: to the left it may push digits out of the last place, to the right it may
  make the number too large.
-/
import Subledger.Decimal.Basic
import Subledger.Text.Digits

namespace Subledger.Decimal

open Subledger.Text

/-- Why a text is no decimal. -/
inductive ReadError where
  | empty
  | noDigits
  | tooManyDigits
  | roundedTooLarge
  | twoPoints
  | leadingSeparator
  | unknownCharacter
  | badExponent
  | scaleTooLarge (scale : Nat)
  | tooLarge
  deriving DecidableEq, Repr

/-- The wording of a reading error. -/
def ReadError.message : ReadError → String
  | .empty => "Invalid decimal: empty"
  | .noDigits => "Invalid decimal: no digits found"
  | .tooManyDigits => "Invalid decimal: overflow from too many digits"
  | .roundedTooLarge => "Invalid decimal: overflow from mantissa after rounding"
  | .twoPoints => "Invalid decimal: two decimal points"
  | .leadingSeparator => "Invalid decimal: must start lead with a number"
  | .unknownCharacter => "Invalid decimal: unknown character"
  | .badExponent => "Failed to parse"
  | .scaleTooLarge n => s!"Scale exceeds the maximum precision allowed: {n} > 28"
  | .tooLarge => "Number exceeds maximum value that can be represented."

/-! ## The plain form -/

/-- Looks over the digits behind the last place. -/
def checkTail (x : Decimal) : List Char → Except ReadError Decimal
  | [] => .ok x
  | c :: cs =>
    if c.isDigit || c == '_' then checkTail x cs
    else if c == '.' then .error .twoPoints
    else .error .unknownCharacter

/-- Rounds by the first digit that does not fit.  Digits that rounding makes too many give up one
    more place. -/
def roundUp (x : Decimal) (d : Nat) : Except ReadError Decimal :=
  if d < 5 then .ok x
  else
    match ofParts? false (x.magnitude + 1) x.scale with
    | some y => .ok y
    | none =>
      if x.scale = 0 then .error .roundedTooLarge
      else
        match ofParts? false ((x.magnitude + 5) / 10) (x.scale - 1) with
        | some y => .ok y
        | none => .error .roundedTooLarge

/-- The digits before the last one that a number of few digits stays below: they are counted in
    sixty-four bits, and some room is left for those to come. -/
def fewDigits : Nat := (twoTo 64 - 1) / 10 - 255

/-- Is an underscore behind `x` in the place of the digit that decides the rounding?  All places are
    taken, and all digits but the last are few. -/
def roundsAtUnderscore (x : Decimal) : Bool := x.scale == 28 && x.magnitude / 10 < fewDigits

/-- Reads digits on behind `x`; `point` and `seen` say whether the point and a digit have come. -/
def scan (x : Decimal) (point seen : Bool) : List Char → Except ReadError Decimal
  | [] => if seen then .ok x else .error .noDigits
  | c :: cs =>
    if c.isDigit then
      match ofParts? false (x.magnitude * 10 + Digits.digitValue c)
          (if point then x.scale + 1 else 0) with
      | some y => scan y point true cs
      | none =>
        if point then (roundUp x (Digits.digitValue c)).bind fun y => checkTail y cs
        else .error .tooManyDigits
    else if c == '.' then
      if point then .error .twoPoints else scan x true seen cs
    else if c == '_' then
      if !seen then .error .leadingSeparator
      else if roundsAtUnderscore x then checkTail x cs
      else scan x point seen cs
    else .error .unknownCharacter

/-- Reads the plain form. -/
def readPlain : List Char → Except ReadError Decimal
  | [] => .error .empty
  | '-' :: cs => (scan zero false false cs).map neg
  | '+' :: cs => scan zero false false cs
  | cs => scan zero false false cs

/-! ## The form with an exponent -/

/-- A whole number below 2^32, perhaps with a plus sign. -/
def readExponent (cs : List Char) : Except ReadError Nat :=
  let ds := if cs.head? = some '+' then cs.tail else cs
  if ds.isEmpty || !ds.all Char.isDigit || twoTo 32 ≤ Digits.value ds then .error .badExponent
  else .ok (Digits.value ds)

/-- `x / 10^e`; digits beyond the twenty-eighth place are rounded away by the first of them, and the
    sign stays even if none is left. -/
def shiftLeft (x : Decimal) (e : Nat) : Except ReadError Decimal :=
  if 28 < e then .error (.scaleTooLarge e)
  else
    let k := x.scale + e - 28
    let m := if k = 0 then x.magnitude else (x.magnitude + 5 * tenTo (k - 1)) / tenTo k
    match ofParts? x.negative m (x.scale + e - k) with
    | some y => .ok y
    | none => .error .tooLarge

/-- `x * 10^e`; once the places are used up, the number grows. -/
def shiftRight (x : Decimal) (e : Nat) : Except ReadError Decimal :=
  if e ≤ x.scale then
    .ok ⟨x.negative, x.magnitude, x.scale - e, x.magnitude_lt,
      Nat.le_trans (Nat.sub_le _ _) x.scale_le⟩
  else if 28 < e then .error (.scaleTooLarge e)
  else
    match make? (x.coeff * tenTo (e - x.scale)) 0 with
    | some y => .ok y
    | none => .error .tooLarge

/-- Does this character start an exponent? -/
def isExponentMark (c : Char) : Bool := c == 'e' || c == 'E'

/-- Reads `base e exponent`, split at the first mark. -/
def readScientific (cs : List Char) : Except ReadError Decimal := do
  let base ← readPlain (cs.takeWhile fun c => !isExponentMark c)
  match (cs.dropWhile fun c => !isExponentMark c).tail with
  | '-' :: digits => shiftLeft base (← readExponent digits)
  | digits => shiftRight base (← readExponent digits)

/-- Reads a decimal.  Only a text with an exponent mark gets the second try. -/
def read (cs : List Char) : Except ReadError Decimal :=
  match readPlain cs with
  | .ok x => .ok x
  | .error e => if cs.any isExponentMark then readScientific cs else .error e

/-- Reads a decimal from a text. -/
def ofText (s : String) : Except ReadError Decimal := read s.toList

end Subledger.Decimal
