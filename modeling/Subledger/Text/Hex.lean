/-
  HEXADECIMAL: a byte is two lower-case digits.

  Main statement: `toBytes?_ofBytes`, what is written reads back.
-/

namespace Subledger.Text.Hex

/-- The lower-case digit of `n < 16`. -/
def digit (n : Nat) : Char := if n < 10 then Char.ofNat (48 + n) else Char.ofNat (87 + n)

/-- The value of a digit of either case. -/
def digitValue? (c : Char) : Option Nat :=
  if '0' ≤ c ∧ c ≤ '9' then some (c.toNat - 48)
  else if 'a' ≤ c ∧ c ≤ 'f' then some (c.toNat - 87)
  else if 'A' ≤ c ∧ c ≤ 'F' then some (c.toNat - 55)
  else none

/-- A digit as a digest is written with: `0`-`9`, `a`-`f`. -/
def isLowerDigit (c : Char) : Bool := ('0' ≤ c && c ≤ '9') || ('a' ≤ c && c ≤ 'f')

/-- Two digits for each byte. -/
def ofBytes (bs : List UInt8) : List Char :=
  bs.flatMap fun b => [digit (b.toNat / 16), digit (b.toNat % 16)]

/-- The bytes that pairs of digits spell. -/
def toBytes? : List Char → Option (List UInt8)
  | [] => some []
  | [_] => none
  | h :: l :: rest => do
    let hi ← digitValue? h
    let lo ← digitValue? l
    let bs ← toBytes? rest
    return UInt8.ofNat (hi * 16 + lo) :: bs

/-- The shortest digits of a number, as escapes write them. -/
def ofNat (n : Nat) : List Char :=
  if n < 16 then [digit n] else ofNat (n / 16) ++ [digit (n % 16)]
termination_by n
decreasing_by omega

theorem digitValue?_digit : ∀ n, n < 16 → digitValue? (digit n) = some n := by decide

/-- Two hexadecimal digits are one byte, and reading them back gives the byte. -/
theorem toBytes?_ofBytes (bs : List UInt8) : toBytes? (ofBytes bs) = some bs := by
  induction bs with
  | nil => rfl
  | cons b bs ih =>
    have hb := b.toNat_lt
    have h1 := digitValue?_digit (b.toNat / 16) (by omega)
    have h2 := digitValue?_digit (b.toNat % 16) (by omega)
    have h3 : b.toNat / 16 * 16 + b.toNat % 16 = b.toNat := by omega
    simp only [ofBytes, List.flatMap_cons, List.cons_append, List.nil_append] at ih ⊢
    simp only [toBytes?, h1, h2, ih, Option.bind_eq_bind, Option.bind_some, h3]
    simp

end Subledger.Text.Hex
