/-
  THE CALENDAR: days counted from 1970-01-01, and their dates.

  Years are counted from March, so that the leap day is the last of its year and a year is a whole
  number of cycles of 400, 100, 4 and 1 years plus a rest; `dayNumber` adds the cycles up and
  `Date.ofDayNumber` takes them apart again.  The calendar goes on into the past and the future
  without a break, and there is a year zero.

  Main statements: `dayNumber_ofDayNumber`, a day is found again from its date, and
  `isValid_ofDayNumber`, that date is in the calendar.
-/

namespace Subledger

/-- A date: a year, a month from 1 to 12 and a day from 1 on. -/
structure Date where
  year : Int
  month : Nat
  day : Nat
  deriving DecidableEq, Repr

namespace Date

/-- Every fourth year has a leap day, but of the full centuries only every fourth. -/
def isLeapYear (y : Int) : Bool := y % 4 == 0 && (y % 100 != 0 || y % 400 == 0)

/-- How many days a month has. -/
def daysInMonth (y : Int) (m : Nat) : Nat :=
  match m with
  | 2 => if isLeapYear y then 29 else 28
  | 4 | 6 | 9 | 11 => 30
  | _ => 31

/-- Is there such a day? -/
def isValid (d : Date) : Bool :=
  1 ≤ d.month && d.month ≤ 12 && 1 ≤ d.day && d.day ≤ daysInMonth d.year d.month

/-- Days of a year that starts in March before its month `m`, March being month 0. -/
def daysBefore (m : Nat) : Nat := (153 * m + 2) / 5

/-- The days from 0000-03-01 to 1970-01-01. -/
def epochDay : Int := 719468

/-- Days from 1970-01-01 to the `n`th day, from zero on, of the year that starts in March of `y`. -/
def dayOfMarchYear (y : Int) (n : Nat) : Int := 365 * y + y / 4 - y / 100 + y / 400 + n - epochDay

/-- Days from 1970-01-01 to a date. -/
def dayNumber (d : Date) : Int :=
  if d.month ≤ 2 then dayOfMarchYear (d.year - 1) (daysBefore (d.month + 9) + d.day - 1)
  else dayOfMarchYear d.year (daysBefore (d.month - 3) + d.day - 1)

/-- The year, counted from March, and the day in it, of a day counted from 0000-03-01.  The last
    century of four and the last year of four are a day longer than the others, so their count
    stops at three. -/
def marchYear (z : Int) : Int × Nat :=
  let inEra := (z % 146097).toNat
  let century := min 3 (inEra / 36524)
  let inCentury := inEra - 36524 * century
  let inFour := inCentury % 1461
  let one := min 3 (inFour / 365)
  (400 * (z / 146097) + (100 * century + 4 * (inCentury / 1461) + one : Nat), inFour - 365 * one)

/-- The date of a day counted from 1970-01-01. -/
def ofDayNumber (n : Int) : Date :=
  let y := marchYear (n + epochDay)
  let m := (5 * y.2 + 2) / 153
  let d := y.2 - daysBefore m + 1
  if m < 10 then ⟨y.1, m + 3, d⟩ else ⟨y.1 + 1, m - 9, d⟩

theorem dayOfMarchYear_marchYear (z : Int) :
    dayOfMarchYear (marchYear z).1 (marchYear z).2 = z - epochDay := by
  have h0 := Int.emod_nonneg z (show (146097 : Int) ≠ 0 by decide)
  have h1 := Int.emod_lt_of_pos z (show (0 : Int) < 146097 by decide)
  simp only [dayOfMarchYear, marchYear]
  generalize hr : (z % 146097).toNat = r
  have hz : z = 146097 * (z / 146097) + r := by omega
  generalize z / 146097 = q at hz
  generalize hc : min 3 (r / 36524) = c
  generalize hf : (r - 36524 * c) % 1461 = f
  generalize hg : (r - 36524 * c) / 1461 = g
  generalize ho : min 3 (f / 365) = o
  have hfour : (400 * q + (100 * c + 4 * g + o : Nat)) / 4 = 100 * q + 25 * c + g := by omega
  have hhund : (400 * q + (100 * c + 4 * g + o : Nat)) / 100 = 4 * q + c := by omega
  have hera : (400 * q + (100 * c + 4 * g + o : Nat)) / 400 = q := by omega
  rw [hfour, hhund, hera]
  omega

/-- The day within its month-counted year is found again. -/
theorem dayNumber_ofDayNumber (n : Int) : dayNumber (ofDayNumber n) = n := by
  have h := dayOfMarchYear_marchYear (n + epochDay)
  have hn : n + epochDay - epochDay = n := by omega
  rw [hn] at h
  have hday : (marchYear (n + epochDay)).2 ≤ 365 := by
    simp only [marchYear]
    omega
  simp only [ofDayNumber]
  generalize marchYear (n + epochDay) = y at *
  obtain ⟨y, k⟩ := y
  simp only at h hday ⊢
  have hm : (5 * k + 2) / 153 < 12 := by omega
  have hk : daysBefore ((5 * k + 2) / 153) ≤ k := by
    simp only [daysBefore]
    omega
  split
  · rename_i hlt
    simp only [dayNumber, show ¬ ((5 * k + 2) / 153 + 3 ≤ 2) by omega, if_false,
      Nat.add_sub_cancel]
    rw [show daysBefore ((5 * k + 2) / 153) + (k - daysBefore ((5 * k + 2) / 153) + 1) - 1 = k by
        omega]
    exact h
  · rename_i hge
    simp only [dayNumber, show (5 * k + 2) / 153 - 9 ≤ 2 by omega, if_true, Int.add_sub_cancel]
    rw [show (5 * k + 2) / 153 - 9 + 9 = (5 * k + 2) / 153 by omega,
      show daysBefore ((5 * k + 2) / 153) + (k - daysBefore ((5 * k + 2) / 153) + 1) - 1 = k by
        omega]
    exact h

/-! ## The date of a day is in the calendar -/

/-- A year counted from March has 366 days only if the February in it, which is the next year's,
    has 29. -/
theorem marchYear_day_le (z : Int) : (marchYear z).2 ≤ 365 ∧
    ((marchYear z).2 = 365 → isLeapYear ((marchYear z).1 + 1) = true) := by
  have h0 := Int.emod_nonneg z (show (146097 : Int) ≠ 0 by decide)
  have h1 := Int.emod_lt_of_pos z (show (0 : Int) < 146097 by decide)
  simp only [marchYear, isLeapYear, Bool.and_eq_true, Bool.or_eq_true, beq_iff_eq, bne_iff_ne]
  generalize hr : (z % 146097).toNat = r
  generalize z / 146097 = q
  generalize hc : min 3 (r / 36524) = c
  generalize hf : (r - 36524 * c) % 1461 = f
  generalize hg : (r - 36524 * c) / 1461 = g
  generalize ho : min 3 (f / 365) = o
  omega

/-- Every month from March to December ends where the next one begins. -/
theorem daysInMonth_add_three (y : Int) : ∀ m, m < 10 →
    daysInMonth y (m + 3) = daysBefore (m + 1) - daysBefore m
  | 0, _ | 1, _ | 2, _ | 3, _ | 4, _ | 5, _ | 6, _ | 7, _ | 8, _ | 9, _ => rfl

theorem daysInMonth_le (y : Int) (m : Nat) : daysInMonth y m ≤ 31 := by
  unfold daysInMonth
  split
  · split <;> decide
  all_goals decide

/-- The date of a day is in the calendar. -/
theorem isValid_ofDayNumber (n : Int) : (ofDayNumber n).isValid = true := by
  obtain ⟨hday, hleap⟩ := marchYear_day_le (n + epochDay)
  simp only [ofDayNumber]
  generalize marchYear (n + epochDay) = y at *
  obtain ⟨y, k⟩ := y
  simp only at hday hleap ⊢
  have hm : (5 * k + 2) / 153 < 12 := by omega
  split
  · rename_i hlt
    simp only [isValid, daysInMonth_add_three y _ hlt, Bool.and_eq_true, decide_eq_true_eq]
    simp only [daysBefore]
    omega
  · -- January ends on day 336 of the year that began in March, February with that year
    rename_i hge
    have hlast : (5 * k + 2) / 153 = 10 ∨ (5 * k + 2) / 153 = 11 := by omega
    rcases hlast with hjan | hfeb
    · simp only [hjan, isValid, daysInMonth, daysBefore, Bool.and_eq_true, decide_eq_true_eq]
      omega
    · simp only [hfeb, isValid, daysInMonth, daysBefore, Bool.and_eq_true, decide_eq_true_eq]
      split
      · omega
      · rename_i hcommon
        have hshort : k ≠ 365 := fun h => hcommon (hleap h)
        omega

example : dayNumber ⟨1970, 1, 1⟩ = 0 := by decide
example : dayNumber ⟨2000, 3, 1⟩ = 11017 := by decide
example : ofDayNumber (-1) = ⟨1969, 12, 31⟩ := by decide
example : ofDayNumber 11016 = ⟨2000, 2, 29⟩ := by decide

end Date
end Subledger
