/-
  DECIMAL DIGITS, both ways.

  `Digits.ofNat n` writes a number with the fewest digits, `Digits.padded w n` fills it up with
  zeros to at least `w` digits, and `Digits.value` reads a run of digits back.  Amounts, sequence
  numbers and timestamps are all written through these three.

  Main statements: `value_ofNat` and `value_padded` (what is written reads back), `ofNat_digits`
  (only digits are written), and `length_padded` (a number that fits its places fills them).
-/
import Subledger.Power

namespace Subledger.Text.Digits

/-- The digit `d` as a character; only `d < 10` is meant. -/
def digit (d : Nat) : Char := Char.ofNat ('0'.toNat + d)

/-- The value of a digit character. -/
def digitValue (c : Char) : Nat := c.toNat - '0'.toNat

/-- The digits of `n` without leading zeros; zero is one `0`. -/
def ofNat (n : Nat) : List Char :=
  if n < 10 then [digit n] else ofNat (n / 10) ++ [digit (n % 10)]
termination_by n
decreasing_by omega

/-- The digits of `n`, filled up with zeros in front to at least `w` of them. -/
def padded (w n : Nat) : List Char :=
  List.replicate (w - (ofNat n).length) '0' ++ ofNat n

/-- The number that a run of digits spells, most significant first. -/
def value (ds : List Char) : Nat := ds.foldl (fun n c => n * 10 + digitValue c) 0

/-! ## What is written reads back -/

theorem digitValue_digit : ∀ d, d < 10 → digitValue (digit d) = d := by decide

theorem isDigit_digit : ∀ d, d < 10 → (digit d).isDigit = true := by decide

/-- The last digit counts once and whatever stands before it ten times. -/
theorem value_append (xs : List Char) (c : Char) :
    value (xs ++ [c]) = value xs * 10 + digitValue c := by
  simp [value, List.foldl_append]

/-- The digits of a number read back as the number: leading zeros are not written, and none is lost.
    -/
theorem value_ofNat (n : Nat) : value (ofNat n) = n := by
  rw [ofNat]
  split
  · rename_i h
    simp [value, digitValue_digit n h]
  · rw [value_append, value_ofNat (n / 10), digitValue_digit _ (Nat.mod_lt _ (by omega))]
    omega
termination_by n
decreasing_by omega

theorem ofNat_digits (n : Nat) : ∀ c ∈ ofNat n, c.isDigit = true := by
  rw [ofNat]
  split
  · rename_i h
    simp [isDigit_digit n h]
  · intro c hc
    rcases List.mem_append.1 hc with hc | hc
    · exact ofNat_digits (n / 10) c hc
    · rw [List.mem_singleton.1 hc]
      exact isDigit_digit _ (Nat.mod_lt _ (by omega))
termination_by n
decreasing_by omega

/-- Zeros in front do not count. -/
theorem value_replicate_zero (k : Nat) (cs : List Char) :
    value (List.replicate k '0' ++ cs) = value cs := by
  induction k with
  | zero => rfl
  | succ k ih =>
    rw [List.replicate_succ, List.cons_append]
    exact ih

/-- Padding with zeros on the left changes the width and not the number. -/
theorem value_padded (w n : Nat) : value (padded w n) = n := by
  rw [padded, value_replicate_zero, value_ofNat]

/-! ## How much is written -/

theorem padded_digits (w n : Nat) : ∀ c ∈ padded w n, c.isDigit = true := by
  intro c hc
  rcases List.mem_append.1 hc with hzero | hdigit
  · rw [List.eq_of_mem_replicate hzero]
    decide
  · exact ofNat_digits n c hdigit

/-- Padding fills up to the width and never cuts. -/
theorem le_length_padded (w n : Nat) : w ≤ (padded w n).length := by
  rw [padded, List.length_append, List.length_replicate]
  omega

/-- A number below `10^w` has at most `w` digits. -/
theorem length_ofNat_le {w n : Nat} (hw : 0 < w) (h : n < tenTo w) : (ofNat n).length ≤ w := by
  induction w generalizing n with
  | zero => exact absurd hw (Nat.lt_irrefl 0)
  | succ w ih =>
    rw [ofNat]
    split
    · exact Nat.succ_le_succ (Nat.zero_le w)
    · rename_i hten
      rw [tenTo_succ] at h
      have hpos : 0 < w := by
        cases w with
        | zero => exact absurd h hten
        | succ w => exact Nat.succ_pos w
      have hrest := ih hpos (show n / 10 < tenTo w by omega)
      rw [List.length_append, List.length_singleton]
      omega

/-- A number below `10^w` is filled up to exactly `w` digits. -/
theorem length_padded {w n : Nat} (hw : 0 < w) (h : n < tenTo w) : (padded w n).length = w := by
  have hle := length_ofNat_le hw h
  rw [padded, List.length_append, List.length_replicate]
  omega

end Subledger.Text.Digits
