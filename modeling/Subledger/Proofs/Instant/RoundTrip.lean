/-
  AN INSTANT WRITTEN IN FULL AND READ STRICTLY.

  The writer knows every year that there is, and puts a sign before those that four digits do not
  hold; the strict reader wants four digits and nothing before them.  So the round trip depends on
  the year and on nothing else:

  1. **Steps** — each step of the reader takes off what the writer put there and leaves the rest.
  2. **Fields** (`readStrict_fields`) — a date of four-digit year, a time of day and a fraction are
     found again, and the instant is assembled from them.
  3. **Assembly** (`assemble_fields`) — that is the instant that was written.  Second 60 stands for
     the last second of its minute with a billion nanoseconds more, on both sides.
  4. **The results** — `readStrict_textNanos` for the years 0 to 9999, `readStrict_textNanos_signed`
     for the others.
-/
import Mathlib
import Subledger.Instant.Reader
import Subledger.Instant.Text
import Subledger.Proofs.Text.Digits
import Subledger.Proofs.Text.Utf8

namespace Subledger.Instant

open Subledger.Text

/-- The date of an instant, in UTC. -/
def date (t : Instant) : Date := Date.ofDayNumber (t.seconds / 86400)

/-- The year is one that four digits hold. -/
def FourDigitYear (t : Instant) : Prop := 0 ≤ t.date.year ∧ t.date.year ≤ 9999

instance (t : Instant) : Decidable t.FourDigitYear :=
  inferInstanceAs (Decidable (0 ≤ t.date.year ∧ t.date.year ≤ 9999))

/-! ## Steps

  Each lemma is about one step of the reader in front of the text that the writer makes for it, with
  any rest behind. -/

/-- A number of fixed width is read up to its last digit. -/
theorem fixedDigits_padded {w n : Nat} (hw : 0 < w) (h : n < tenTo w) (rest : List Char) :
    fixedDigits w (Digits.padded w n ++ rest) = .ok (n, rest) := by
  have hlength := Digits.length_padded hw h
  have htake : (Digits.padded w n ++ rest).take w = Digits.padded w n := List.take_left' hlength
  have hdrop : (Digits.padded w n ++ rest).drop w = rest := List.drop_left' hlength
  have hdigits : (Digits.padded w n).all Char.isDigit = true :=
    List.all_eq_true.mpr (Digits.padded_digits w n)
  rw [fixedDigits, htake, hdrop, hlength, hdigits, Digits.value_padded]
  simp

/-- The digits of a fraction end where no digit follows. -/
theorem optionalFraction_padded {w n : Nat} (hw : 0 < w) (hnine : w ≤ 9) (h : n < tenTo w)
    {c : Char} (hc : c.isDigit = false) (rest : List Char) :
    optionalFraction ('.' :: (Digits.padded w n ++ c :: rest))
      = .ok (n * tenTo (9 - w), c :: rest) := by
  have hlength : (Digits.padded w n).length = w := Digits.length_padded hw h
  obtain ⟨d, ds, hpadded, hds, hvalue⟩ := Digits.exists_padded_cons w n
  rw [hpadded] at hlength ⊢
  have hrun : (d :: (ds ++ c :: rest)).takeWhile Char.isDigit = d :: ds :=
    Digits.takeWhile_run hds hc rest
  have hrest : (d :: (ds ++ c :: rest)).dropWhile Char.isDigit = c :: rest :=
    Digits.dropWhile_run hds hc rest
  show fractionDigits (d :: (ds ++ c :: rest)) = _
  unfold fractionDigits
  dsimp only
  rw [hrun, hrest, List.take_of_length_le (hlength ▸ hnine), hlength, hvalue, List.isEmpty_cons,
    if_neg (by decide)]

/-- The fraction is read with its point, and what follows it is no digit. -/
theorem optionalFraction_longFraction {n : Nat} (h : n < nanosPerSecond) {c : Char}
    (hc : c.isDigit = false) (rest : List Char) :
    optionalFraction (longFraction n ++ c :: rest) = .ok (n, c :: rest) := by
  rw [longFraction, List.cons_append, optionalFraction_padded (by decide) (by decide) h hc,
    Nat.sub_self, tenTo_zero, Nat.mul_one]

/-! ## Fields

  The steps put together, for any year of which the characters are given.  The sign of a year comes
  in here. -/

/-- The text of a date, its year given in characters, a time of day and nine digits of a fraction. -/
def fieldChars (year : List Char) (month day hour minute second nanos : Nat) : List Char :=
  year ++ '-' :: (Digits.padded 2 month ++ '-' :: (Digits.padded 2 day ++
    'T' :: (Digits.padded 2 hour ++ ':' :: (Digits.padded 2 minute ++ ':' ::
      (Digits.padded 2 second ++ (longFraction nanos ++ ['Z']))))))

/-- A text of this form is not too short. -/
theorem le_byteCount_fieldChars {year : List Char} (hyear : 4 ≤ year.length)
    (month day hour minute second nanos : Nat) :
    19 ≤ byteCount (fieldChars year month day hour minute second nanos) := by
  have hmonth := Digits.le_length_padded 2 month
  have hday := Digits.le_length_padded 2 day
  have hhour := Digits.le_length_padded 2 hour
  have hminute := Digits.le_length_padded 2 minute
  have hsecond := Digits.le_length_padded 2 second
  have hbytes := Utf8.length_le_length_encode (fieldChars year month day hour minute second nanos)
  have hlength : 19 ≤ (fieldChars year month day hour minute second nanos).length := by
    simp only [fieldChars, List.length_append, List.length_cons]
    omega
  exact Nat.le_trans hlength hbytes

theorem bind_of_ok {α β : Type} {x : Except ReadError α} {a : α} (h : x = .ok a)
    (f : α → Except ReadError β) : (x >>= f) = f a := by
  rw [h]
  rfl

/-- The fields of a text are found again. -/
theorem readStrict_fields {year month day hour minute second nanos : Nat}
    (hyear : year ≤ 9999) (hdate : (Date.mk year month day).isValid = true) (hhour : hour ≤ 23)
    (hminute : minute ≤ 59) (hsecond : second ≤ 60) (hnanos : nanos < nanosPerSecond) :
    readStrict (fieldChars (Digits.padded 4 year) month day hour minute second nanos)
      = assemble ⟨year, month, day⟩ hour minute second nanos 0 := by
  have hlong := Nat.not_lt.mpr
    (le_byteCount_fieldChars (Digits.le_length_padded 4 year) month day hour minute second nanos)
  obtain ⟨hmonth, hday⟩ : month ≤ 12 ∧ day ≤ 31 := by
    simp only [Date.isValid, Bool.and_eq_true, decide_eq_true_eq] at hdate
    exact ⟨hdate.1.1.2, hdate.2.trans (Date.daysInMonth_le _ _)⟩
  have htime : (decide (23 < hour) || decide (59 < minute) || decide (60 < second)) = false := by
    simp only [Bool.or_eq_false_iff, decide_eq_false_iff_not]
    omega
  have hfour : ∀ n rest, n ≤ 9999 → fixedDigits 4 (Digits.padded 4 n ++ rest) = .ok (n, rest) :=
    fun n rest hn => fixedDigits_padded (by decide) (show n < 10000 by omega) rest
  have htwo : ∀ n rest, n ≤ 99 → fixedDigits 2 (Digits.padded 2 n ++ rest) = .ok (n, rest) :=
    fun n rest hn => fixedDigits_padded (by decide) (show n < 100 by omega) rest
  have hmark : ∀ cs c rest, cs.contains c = true → oneOf cs (c :: rest) = .ok ((), rest) := by
    intro cs c rest hc
    rw [oneOf, if_pos hc]
  have hfraction := optionalFraction_longFraction hnanos (show 'Z'.isDigit = false by decide) []
  rw [readStrict, if_neg hlong, fieldChars]
  -- the date, with its check
  simp only [bind_of_ok (hfour year _ hyear), bind_of_ok (hmark ['-'] '-' _ rfl),
    bind_of_ok (htwo month _ (by omega)), bind_of_ok (htwo day _ (by omega))]
  rw [hdate, if_neg (by decide)]
  -- the time with its fraction, and its check
  simp only [bind_of_ok (hmark timeMarks 'T' _ rfl), bind_of_ok (htwo hour _ (by omega)),
    bind_of_ok (hmark [':'] ':' _ rfl), bind_of_ok (htwo minute _ (by omega)),
    bind_of_ok (htwo second _ (by omega)), bind_of_ok hfraction]
  rw [htime, if_neg (by decide)]
  have hoffset : offset (literal ':') ['Z'] = .ok (0, []) := rfl
  rw [bind_of_ok hoffset]
  dsimp only
  rw [List.isEmpty_nil, Bool.not_true, if_neg (by decide), if_neg (by decide)]

/-! ## Assembly

  The fields that are read are those of the day and of the second of the day; day and second make up
  the instant again. -/

/-- An instant is represented by its own parts. -/
theorem represented_self (t : Instant) : represented t.seconds t.nanos = .ok t := by
  have hmake : make? t.seconds t.nanos = some t :=
    dif_pos ⟨t.nanos_lt, t.leap_at_minute_end, t.first_le, t.lt_last⟩
  rw [represented, hmake]

/-- The second of the day. -/
def daySecond (t : Instant) : Nat := (t.seconds % 86400).toNat

/-- The second of the day is one of a day. -/
theorem daySecond_lt (t : Instant) : t.daySecond < 86400 := by
  rw [daySecond]
  omega

/-- A billion nanoseconds or more stand at second 59 only. -/
theorem leap_cases (t : Instant) :
    (t.nanos / nanosPerSecond = 0 ∧ t.nanos % nanosPerSecond = t.nanos) ∨
    (t.nanos / nanosPerSecond = 1 ∧ t.nanos % nanosPerSecond + nanosPerSecond = t.nanos ∧
      t.daySecond % 60 = 59) := by
  have hlt := t.nanos_lt
  have hend := t.leap_at_minute_end
  rw [daySecond]
  simp only [nanosPerSecond] at *
  omega

/-- The fields of an instant are assembled into that instant. -/
theorem assemble_fields (t : Instant) :
    assemble t.date (t.daySecond / 3600) (t.daySecond / 60 % 60)
      (t.daySecond % 60 + t.nanos / nanosPerSecond) (t.nanos % nanosPerSecond) 0 = .ok t := by
  have hday : t.date.dayNumber = t.seconds / 86400 := Date.dayNumber_ofDayNumber _
  have hsecond : (t.daySecond : Int) = t.seconds % 86400 := by
    rw [daySecond]
    omega
  rw [assemble, hday]
  rcases t.leap_cases with ⟨hzero, hnanos⟩ | ⟨hone, hnanos, hend⟩
  · have hno : leapOf (t.daySecond % 60) = 0 := if_neg (by omega)
    rw [hzero, hnanos, Nat.add_zero, hno, Nat.zero_mul, Nat.add_zero,
      show t.seconds / 86400 * 86400 + ((t.daySecond / 3600 * 3600 + t.daySecond / 60 % 60 * 60
        + (t.daySecond % 60 - 0) : Nat) : Int) - 0 = t.seconds by omega]
    exact t.represented_self
  · have hleap : leapOf (59 + 1) = 1 := rfl
    rw [hone, hend, hleap, Nat.one_mul, hnanos,
      show t.seconds / 86400 * 86400 + ((t.daySecond / 3600 * 3600 + t.daySecond / 60 % 60 * 60
        + (59 + 1 - 1) : Nat) : Int) - 0 = t.seconds by omega]
    exact t.represented_self

/-! ## The round trip

  With four digits for the year the strict reader finds all fields; with a sign it stops at the
  first character. -/

/-- The full text of an instant is that of its fields. -/
theorem textNanos_toList (t : Instant) : t.textNanos.toList
    = fieldChars (yearChars t.date.year) t.date.month t.date.day (t.daySecond / 3600)
      (t.daySecond / 60 % 60) (t.daySecond % 60 + t.nanos / nanosPerSecond)
      (t.nanos % nanosPerSecond) := by
  rw [textNanos, String.toList_ofList]
  show dateChars t.date ++ 'T' :: clockChars t.daySecond _ ++ _ ++ _ = _
  rw [dateChars, clockChars, fieldChars]
  simp only [List.append_assoc, List.cons_append]

/-- **An instant of four-digit year is read back** from its full text. -/
theorem readStrict_textNanos {t : Instant} (h : t.FourDigitYear) :
    readStrict t.textNanos.toList = .ok t := by
  have hchars : yearChars t.date.year = Digits.padded 4 t.date.year.toNat := if_pos h
  have hyear : ((t.date.year.toNat : Nat) : Int) = t.date.year := Int.toNat_of_nonneg h.1
  have hfour : t.date.year.toNat ≤ 9999 := Int.toNat_le.mpr h.2
  have hvalid : (Date.mk t.date.year.toNat t.date.month t.date.day).isValid = true := by
    rw [hyear]
    exact Date.isValid_ofDayNumber _
  have hlt := t.daySecond_lt
  have hsecond : t.daySecond % 60 + t.nanos / nanosPerSecond ≤ 60 := by
    rcases t.leap_cases with ⟨hzero, -⟩ | ⟨hone, -, hend⟩ <;> omega
  rw [textNanos_toList, hchars, readStrict_fields hfour hvalid (by omega) (by omega) hsecond
    (Nat.mod_lt _ (by decide)), hyear]
  exact t.assemble_fields

/-- **An instant of any other year is not**: where the strict reader wants a digit stands a sign. -/
theorem readStrict_textNanos_signed {t : Instant} (h : ¬ t.FourDigitYear) :
    readStrict t.textNanos.toList = .error .invalid := by
  obtain ⟨sign, hchars, hsign⟩ : ∃ sign, yearChars t.date.year
      = sign :: Digits.padded 4 t.date.year.natAbs ∧ sign.isDigit = false := by
    refine ⟨if t.date.year < 0 then '-' else '+', if_neg h, ?_⟩
    split <;> decide
  have hwide : 4 ≤ (yearChars t.date.year).length := by
    have hdigits := Digits.le_length_padded 4 t.date.year.natAbs
    rw [hchars, List.length_cons]
    omega
  have hyear : ∀ rest, fixedDigits 4 (sign :: rest) = .error .invalid := by
    intro rest
    rw [fixedDigits, List.take_succ_cons, List.all_cons, hsign, Bool.false_and, Bool.and_false]
    rfl
  have htext := t.textNanos_toList
  have hlong : ¬ byteCount t.textNanos.toList < 19 := by
    rw [htext]
    exact Nat.not_lt.mpr (le_byteCount_fieldChars hwide ..)
  rw [hchars, fieldChars, List.cons_append] at htext
  rw [readStrict, if_neg hlong, htext, hyear]
  rfl

end Subledger.Instant
