/-
  AN INSTANT IN A DOCUMENT: written short, and read leniently.

  The lenient reader takes every instant that there is, also those of a year with a sign:

  1. **Years** (`bounded_year`) — the days that are represented lie in the years that are.
  2. **Steps** — each step of the reader takes off what the writer put there and leaves the rest.
     A number ends where no digit follows; only the year may be wider than its reader expects, and
     then a sign stands before it.
  3. **The round trip** (`ofText_text`) — so the fields are found again, and they are assembled to
     the instant as in the strict way.
-/
import Subledger.Proofs.Instant.RoundTrip

namespace Subledger

open Subledger.Text

/-! ## Years

  The calendar is bounded by years and an instant by days.  The bounds agree, so the date of an
  instant is always one of the calendar. -/

namespace Date

/-- A later year begins on a later day. -/
theorem dayOfMarchYear_mono {y z : Int} (h : y ≤ z) (n : Nat) :
    dayOfMarchYear y n ≤ dayOfMarchYear z n := by
  simp only [dayOfMarchYear]
  omega

/-- A date between the first and the last represented one is of a year between theirs.  Both lie
    in a year that began in March: on its day 306, and on its day 305. -/
theorem bounded_year {d : Date} (hvalid : d.isValid = true)
    (hfirst : dayNumber ⟨-262143, 1, 1⟩ ≤ d.dayNumber)
    (hlast : d.dayNumber ≤ dayNumber ⟨262142, 12, 31⟩) : -262143 ≤ d.year ∧ d.year ≤ 262142 := by
  obtain ⟨y, month, day⟩ := d
  simp only [isValid, Bool.and_eq_true, decide_eq_true_eq] at hvalid
  have hday : day ≤ 31 := hvalid.2.trans (daysInMonth_le _ _)
  have hjanuary : dayNumber ⟨-262143, 1, 1⟩ = dayOfMarchYear (-262144) 306 := rfl
  have hdecember : dayNumber ⟨262142, 12, 31⟩ = dayOfMarchYear 262142 305 := rfl
  rw [hjanuary] at hfirst
  rw [hdecember] at hlast
  simp only [dayNumber, daysBefore] at hfirst hlast ⊢
  constructor
  · by_contra hbefore
    split at hfirst
    · have hle := dayOfMarchYear_mono (show y - 1 ≤ -262145 by omega)
        ((153 * (month + 9) + 2) / 5 + day - 1)
      simp only [dayOfMarchYear] at hfirst hle
      omega
    · have hle := dayOfMarchYear_mono (show y ≤ -262144 by omega)
        ((153 * (month - 3) + 2) / 5 + day - 1)
      simp only [dayOfMarchYear] at hfirst hle
      omega
  · by_contra hafter
    split at hlast
    · have hle := dayOfMarchYear_mono (show 262142 ≤ y - 1 by omega)
        ((153 * (month + 9) + 2) / 5 + day - 1)
      simp only [dayOfMarchYear] at hlast hle
      omega
    · have hle := dayOfMarchYear_mono (show 262143 ≤ y by omega)
        ((153 * (month - 3) + 2) / 5 + day - 1)
      simp only [dayOfMarchYear] at hlast hle
      omega

end Date

namespace Instant

/-- The date of an instant is in the calendar, and in a represented year. -/
theorem hasDate_date (t : Instant) : hasDate t.date = true := by
  have hvalid : t.date.isValid = true := Date.isValid_ofDayNumber _
  have hday : t.date.dayNumber = t.seconds / 86400 := Date.dayNumber_ofDayNumber _
  have hfirst := t.first_le
  have hlast := t.lt_last
  obtain ⟨hlow, hhigh⟩ := Date.bounded_year hvalid (by omega) (by omega)
  simp only [hasDate, hvalid, hlow, hhigh, decide_true, Bool.and_self]

/-! ## Steps

  As for the strict reader, with white space that may stand before a number and is not there. -/

/-- A number does not begin with white space. -/
theorem trimLeft_of_isDigit {d : Char} (hd : d.isDigit = true) (rest : List Char) :
    trimLeft (d :: rest) = d :: rest := by
  have hdigit : 48 ≤ d.toNat ∧ d.toNat ≤ 57 := by
    simpa [Char.isDigit, UInt32.le_iff_toNat_le] using hd
  have hspace : isSpace d = false := by
    simp only [isSpace, Bool.or_eq_false_iff, Bool.and_eq_false_iff, beq_eq_false_iff_ne,
      decide_eq_false_iff_not]
    omega
  rw [trimLeft, List.dropWhile_cons_of_neg (by rw [hspace]; decide)]

/-- The digits of a number are found again, if the reader takes as many. -/
theorem digits_run {d : Char} {ds : List Char} (hds : ∀ c ∈ d :: ds, c.isDigit = true)
    (hvalue : Digits.value (d :: ds) < twoTo 63) {width : Option Nat}
    (hwidth : ∀ w ∈ width, (d :: ds).length ≤ w) {c : Char} (hc : c.isDigit = false)
    (rest : List Char) :
    digits width (d :: (ds ++ c :: rest)) = .ok (Digits.value (d :: ds), c :: rest) := by
  have hrun : (d :: (ds ++ c :: rest)).takeWhile Char.isDigit = d :: ds :=
    Digits.takeWhile_run hds hc rest
  have hdrop : (d :: (ds ++ c :: rest)).drop (d :: ds).length = c :: rest := List.drop_left' rfl
  cases width with
  | none =>
    unfold digits
    dsimp only
    rw [hrun, List.isEmpty_cons, if_neg (by decide), if_neg (Nat.not_le.mpr hvalue), hdrop]
  | some w =>
    have htaken : (d :: ds).take w = d :: ds := List.take_of_length_le (hwidth w rfl)
    unfold digits
    dsimp only
    rw [hrun, htaken, List.isEmpty_cons, if_neg (by decide), if_neg (Nat.not_le.mpr hvalue), hdrop]

/-- A number of two digits is found again. -/
theorem field_padded {lo hi n : Nat} (hlo : lo ≤ n) (hhi : n ≤ hi) (htwo : n ≤ 99) {c : Char}
    (hc : c.isDigit = false) (rest : List Char) :
    field lo hi (Digits.padded 2 n ++ c :: rest) = .ok (n, c :: rest) := by
  have hlength : (Digits.padded 2 n).length = 2 :=
    Digits.length_padded (by decide) (show n < 100 by omega)
  obtain ⟨d, ds, hpadded, hds, hvalue⟩ := Digits.exists_padded_cons 2 n
  rw [hpadded] at hlength ⊢
  have hread := digits_run hds (hvalue ▸ Nat.lt_of_le_of_lt htwo (by decide))
    (fun w (hw : w ∈ some 2) => Option.some.inj hw ▸ Nat.le_of_eq hlength) hc rest
  rw [field, List.cons_append, trimLeft_of_isDigit (hds d List.mem_cons_self), bind_of_ok hread,
    hvalue]
  exact if_pos ⟨hlo, hhi⟩

/-- A year of four digits is found again, and one with its sign. -/
theorem year_yearChars {y : Int} (hlow : -262143 ≤ y) (hhigh : y ≤ 262142) (rest : List Char) :
    year (yearChars y ++ '-' :: rest) = .ok (y, '-' :: rest) := by
  have hrange : -twoTo 31 ≤ y ∧ y < twoTo 31 := by
    have hbound : (twoTo 31 : Int) = 2147483648 := rfl
    omega
  have hdash : '-'.isDigit = false := by decide
  rw [yearChars]
  split
  · rename_i hfour
    -- four digits and no sign, so the reader looks for no more than four
    have hlength : (Digits.padded 4 y.toNat).length = 4 :=
      Digits.length_padded (by decide) (show y.toNat < 10000 by omega)
    obtain ⟨d, ds, hpadded, hds, hvalue⟩ := Digits.exists_padded_cons 4 y.toNat
    rw [hpadded] at hlength ⊢
    have hread := digits_run hds
      (hvalue ▸ Nat.lt_of_le_of_lt (show y.toNat ≤ 9999 by omega) (by decide))
      (fun w (hw : w ∈ some 4) => Option.some.inj hw ▸ Nat.le_of_eq hlength) hdash rest
    have hd := hds d List.mem_cons_self
    unfold year
    rw [List.cons_append, trimLeft_of_isDigit hd]
    split
    · rename_i heq
      exact absurd (List.cons.inj heq).1 (Digits.isDigit_ne hd hdash)
    · rename_i heq
      exact absurd (List.cons.inj heq).1 (Digits.isDigit_ne hd (by decide))
    · rw [hread, hvalue]
      have hmap : (Except.ok (y.toNat, '-' :: rest) : Except ReadError (Nat × List Char)).map
          (fun p => ((p.1 : Int), p.2)) = .ok (y, '-' :: rest) :=
        congrArg (fun z => Except.ok (z, '-' :: rest)) (Int.toNat_of_nonneg hfour.1)
      exact (bind_of_ok hmap _).trans (if_pos hrange)
  · rename_i hsigned
    obtain ⟨d, ds, hpadded, hds, hvalue⟩ := Digits.exists_padded_cons 4 y.natAbs
    -- behind a sign the reader takes as many digits as there are
    have hread := digits_run hds
      (hvalue ▸ Nat.lt_of_le_of_lt (show y.natAbs ≤ 262143 by omega) (by decide))
      (fun w (hw : w ∈ none) => absurd hw (Option.not_mem_none w)) hdash rest
    rw [hpadded]
    by_cases hneg : y < 0
    · have hmap : (digits none (d :: (ds ++ '-' :: rest))).map (fun p => (-(p.1 : Int), p.2))
          = .ok (y, '-' :: rest) := by
        rw [hread, hvalue]
        exact congrArg (fun z => Except.ok (z, '-' :: rest)) (show -(y.natAbs : Int) = y by omega)
      rw [if_pos hneg]
      exact (bind_of_ok hmap _).trans (if_pos hrange)
    · have hmap : (digits none (d :: (ds ++ '-' :: rest))).map (fun p => ((p.1 : Int), p.2))
          = .ok (y, '-' :: rest) := by
        rw [hread, hvalue]
        exact congrArg (fun z => Except.ok (z, '-' :: rest)) (show (y.natAbs : Int) = y by omega)
      rw [if_neg hneg]
      exact (bind_of_ok hmap _).trans (if_pos hrange)

/-- A short fraction is found again: what it leaves away are zeros. -/
theorem optionalFraction_shortFraction {n : Nat} (h : n < nanosPerSecond) :
    optionalFraction (shortFraction n ++ ['Z']) = .ok (n, ['Z']) := by
  have hZ : 'Z'.isDigit = false := by decide
  rw [nanosPerSecond] at h
  rw [shortFraction]
  split
  · rename_i hzero
    rw [hzero]
    rfl
  split
  · rename_i hthree
    rw [List.cons_append, optionalFraction_padded (by decide) (by decide)
      (show n / 1000000 < 1000 by omega) hZ, show n / 1000000 * tenTo (9 - 3) = n from
        (show n / 1000000 * 1000000 = n by omega)]
  split
  · rename_i hsix
    rw [List.cons_append, optionalFraction_padded (by decide) (by decide)
      (show n / 1000 < 1000000 by omega) hZ, show n / 1000 * tenTo (9 - 6) = n from
        (show n / 1000 * 1000 = n by omega)]
  · rw [List.cons_append, optionalFraction_padded (by decide) (by decide)
      (show n < 1000000000 from h) hZ, Nat.sub_self, tenTo_zero, Nat.mul_one]

/-- Behind the seconds stands no digit. -/
theorem exists_shortFraction_cons (n : Nat) :
    ∃ c cs, shortFraction n ++ ['Z'] = c :: cs ∧ c.isDigit = false := by
  unfold shortFraction
  split
  · exact ⟨'Z', [], rfl, by decide⟩
  split
  · exact ⟨'.', _, rfl, by decide⟩
  split
  · exact ⟨'.', _, rfl, by decide⟩
  · exact ⟨'.', _, rfl, by decide⟩

/-! ## The round trip

  Every instant has a text that is read back as it. -/

/-- The short text of an instant is that of its fields. -/
theorem text_toList (t : Instant) : t.text.toList = yearChars t.date.year ++ '-' ::
    (Digits.padded 2 t.date.month ++ '-' :: (Digits.padded 2 t.date.day ++ 'T' ::
      (Digits.padded 2 (t.daySecond / 3600) ++ ':' ::
        (Digits.padded 2 (t.daySecond / 60 % 60) ++ ':' ::
          (Digits.padded 2 (t.daySecond % 60 + t.nanos / nanosPerSecond)
            ++ (shortFraction (t.nanos % nanosPerSecond) ++ ['Z'])))))) := by
  rw [text, String.toList_ofList]
  show dateChars t.date ++ 'T' :: clockChars t.daySecond _ ++ _ ++ _ = _
  rw [dateChars, clockChars]
  simp only [List.append_assoc, List.cons_append]

/-- **Every instant is read back** from the text that documents carry. -/
theorem ofText_text (t : Instant) : ofText t.text = .ok t := by
  show read t.text.toList = _
  have hvalid : t.date.isValid = true := Date.isValid_ofDayNumber _
  have hhas := t.hasDate_date
  have hlt := t.daySecond_lt
  have hnanos : t.nanos % nanosPerSecond < nanosPerSecond := Nat.mod_lt _ (by decide)
  have hsecond : t.daySecond % 60 + t.nanos / nanosPerSecond ≤ 60 := by
    rcases t.leap_cases with ⟨hzero, -⟩ | ⟨hone, -, hend⟩ <;> omega
  simp only [hasDate, Date.isValid, Bool.and_eq_true, decide_eq_true_eq] at hhas
  have hmonth : 1 ≤ t.date.month ∧ t.date.month ≤ 12 := hhas.1.1.1.1
  have hday : t.date.day ≤ 31 := hhas.1.1.2.trans (Date.daysInMonth_le _ _)
  have hdash : '-'.isDigit = false := by decide
  have hcolon : ':'.isDigit = false := by decide
  have hT : 'T'.isDigit = false := by decide
  have hseparator : ∀ (c : Char) rest, isSpace c = false →
      separator c (c :: rest) = .ok ((), rest) := by
    intro c rest hc
    rw [separator, trimLeft, List.dropWhile_cons_of_neg (by rw [hc]; decide), literal,
      if_pos (beq_self_eq_true c)]
  have hmark : ∀ rest, timeMark ('T' :: rest) = .ok ((), rest) := fun rest => rfl
  have hfraction := optionalFraction_shortFraction hnanos
  obtain ⟨c, cs, hcs, hc⟩ := exists_shortFraction_cons (t.nanos % nanosPerSecond)
  rw [hcs] at hfraction
  rw [text_toList, hcs, read]
  -- the date
  simp only [bind_of_ok (year_yearChars hhas.1.2 hhas.2 _),
    bind_of_ok (hseparator '-' _ (by decide)),
    bind_of_ok (field_padded hmonth.1 hmonth.2 (by omega) hdash _),
    bind_of_ok (field_padded hhas.1.1.1.2 hday (by omega) hT _), bind_of_ok (hmark _)]
  -- the time with its fraction
  simp only [bind_of_ok (hseparator ':' _ (by decide)),
    bind_of_ok (field_padded (Nat.zero_le _) (show t.daySecond / 3600 ≤ 23 by omega) (by omega)
      hcolon _),
    bind_of_ok (field_padded (Nat.zero_le _) (show t.daySecond / 60 % 60 ≤ 59 by omega) (by omega)
      hcolon _),
    bind_of_ok (field_padded (Nat.zero_le _) hsecond (by omega) hc _), bind_of_ok hfraction]
  have hoffset : lenientOffset (trimLeft ['Z']) = .ok (0, []) := rfl
  rw [bind_of_ok hoffset]
  dsimp only
  rw [show trimLeft [] = [] from rfl, List.isEmpty_nil, Bool.not_true, if_neg (by decide),
    show hasDate ⟨t.date.year, t.date.month, t.date.day⟩ = true from t.hasDate_date,
    if_neg (by decide)]
  exact t.assemble_fields

end Instant
end Subledger
