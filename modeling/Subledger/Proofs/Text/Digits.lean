/-
  RUNS OF DIGITS: what a reader meets at the front of a text that begins with a number.

  1. **Values** (`foldl_value`) — reading digits on behind a number shifts the number.
  2. **Fewest digits** — a number is written with one digit at least, and a leading zero stands
     alone (`ofNat_ne_zero_cons`).
  3. **Where a run ends** (`takeWhile_run`) — at the first character that is no digit.
  4. **Zeros** — the last digit of a number is its remainder by ten (`getLast?_padded`), and a number
     is zero exactly if all its digits are (`zeros_padded_iff`).
-/
import Mathlib
import Subledger.Text.Digits

namespace Subledger.Text.Digits

/-! ## Values -/

/-- Digits read on behind a number. -/
theorem foldl_value (n : Nat) (ds : List Char) :
    ds.foldl (fun n c => n * 10 + digitValue c) n = n * tenTo ds.length + value ds := by
  induction ds generalizing n with
  | nil =>
    rw [List.foldl_nil, List.length_nil, tenTo_zero, Nat.mul_one]
    rfl
  | cons c ds ih =>
    rw [value, List.foldl_cons, List.foldl_cons, ih, ih, List.length_cons, tenTo_succ]
    ring

/-- The value by the first digit, for readers that go from the left. -/
theorem value_cons (c : Char) (ds : List Char) :
    value (c :: ds) = digitValue c * tenTo ds.length + value ds := by
  rw [value, List.foldl_cons, foldl_value, Nat.zero_mul, Nat.zero_add]

/-! ## Fewest digits -/

/-- A number has at least one digit, so a reader that looks for one finds it. -/
theorem exists_ofNat_cons (n : Nat) : ∃ d ds, ofNat n = d :: ds ∧ d.isDigit = true := by
  cases h : ofNat n with
  | nil =>
    rw [ofNat] at h
    split at h
    · cases h
    · exact absurd (List.append_eq_nil_iff.mp h).2 (List.cons_ne_nil _ _)
  | cons d ds => exact ⟨d, ds, rfl, ofNat_digits n d (h ▸ List.mem_cons_self)⟩

/-- A number that is filled up begins with a digit. -/
theorem exists_padded_cons (w n : Nat) : ∃ d ds, padded w n = d :: ds ∧
    (∀ c ∈ d :: ds, c.isDigit = true) ∧ value (d :: ds) = n := by
  have hdigits := padded_digits w n
  have hvalue := value_padded w n
  cases h : padded w n with
  | nil =>
    obtain ⟨d, ds, hds, -⟩ := exists_ofNat_cons n
    rw [padded, hds] at h
    exact absurd (List.append_eq_nil_iff.mp h).2 (List.cons_ne_nil _ _)
  | cons d ds => exact ⟨d, ds, rfl, h ▸ hdigits, h ▸ hvalue⟩

/-- A number that is written with more than one digit does not begin with a zero. -/
theorem ofNat_ne_zero_cons (n : Nat) (c : Char) (ds : List Char) : ofNat n ≠ '0' :: c :: ds := by
  rw [ofNat]
  split
  · intro h
    exact List.cons_ne_nil _ _ (List.cons.inj h).2.symm
  · rename_i hten
    intro h
    -- its digits but the last are those of the tenth part
    obtain ⟨d, front, hfront, -⟩ := exists_ofNat_cons (n / 10)
    rw [hfront, List.cons_append] at h
    obtain ⟨rfl, -⟩ := List.cons.inj h
    cases front with
    | nil =>
      have hvalue := value_ofNat (n / 10)
      rw [hfront] at hvalue
      have hzero : n / 10 = 0 := hvalue.symm
      omega
    | cons d' front => exact ofNat_ne_zero_cons (n / 10) d' front hfront
termination_by n
decreasing_by omega

/-! ## Where a run ends -/

section Run

variable {ds : List Char} (hds : ∀ c ∈ ds, c.isDigit = true) {c : Char}
  (hc : c.isDigit = false) (rest : List Char)

include hds hc

theorem takeWhile_run : (ds ++ c :: rest).takeWhile Char.isDigit = ds := by
  rw [List.takeWhile_append_of_pos hds, List.takeWhile_cons_of_neg (by rw [hc]; decide),
    List.append_nil]

theorem dropWhile_run : (ds ++ c :: rest).dropWhile Char.isDigit = c :: rest := by
  rw [List.dropWhile_append_of_pos hds, List.dropWhile_cons_of_neg (by rw [hc]; decide)]

end Run

/-- A digit is no sign, no point and no letter: a reader that stands before one does not take it for
    another thing. -/
theorem isDigit_ne {d : Char} (hd : d.isDigit = true) {c : Char} (hc : c.isDigit = false) :
    d ≠ c := by
  rintro rfl
  rw [hd] at hc
  cases hc

theorem not_mem_digits {ds : List Char} (hds : ∀ c ∈ ds, c.isDigit = true) {c : Char}
    (hc : c.isDigit = false) : c ∉ ds := fun h => isDigit_ne (hds c h) hc rfl

/-! ## The last digit, and zeros -/

theorem digit_eq_zero_iff : ∀ d, d < 10 → (digit d = '0' ↔ d = 0) := by decide

/-- The last digit of a number is its remainder by ten. -/
theorem getLast?_ofNat (n : Nat) : (ofNat n).getLast? = some (digit (n % 10)) := by
  rw [ofNat]
  split
  · rename_i h
    rw [Nat.mod_eq_of_lt h]
    rfl
  · exact List.getLast?_concat

/-- The last digit of a padded number is the rest modulo ten, as it is without the padding. -/
theorem getLast?_padded (w n : Nat) : (padded w n).getLast? = some (digit (n % 10)) := by
  rw [padded, List.getLast?_append, getLast?_ofNat]
  rfl

/-- Digits that are all zeros spell zero. -/
theorem value_of_zeros {ds : List Char} (h : ∀ c ∈ ds, c = '0') : value ds = 0 := by
  rw [List.eq_replicate_of_mem h, ← List.append_nil (List.replicate _ _), value_replicate_zero]
  rfl

theorem ofNat_zero : ofNat 0 = ['0'] := by
  rw [ofNat]
  rfl

/-- A number is zero exactly if all its digits are. -/
theorem zeros_padded_iff (w n : Nat) : (∀ c ∈ padded w n, c = '0') ↔ n = 0 := by
  constructor
  · intro h
    rw [← value_padded w n]
    exact value_of_zeros h
  · rintro rfl c hc
    rw [padded, ofNat_zero, List.mem_append, List.mem_singleton] at hc
    exact hc.elim List.eq_of_mem_replicate id

/-- Only zero is written with zeros alone. -/
theorem zeros_ofNat_iff (n : Nat) : (∀ c ∈ ofNat n, c = '0') ↔ n = 0 := by
  rw [← zeros_padded_iff 0 n, padded, Nat.zero_sub]
  rfl

end Subledger.Text.Digits
