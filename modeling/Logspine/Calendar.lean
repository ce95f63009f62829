import Mathlib.Data.Int.Notation
import Mathlib.Data.Nat.Notation
import Mathlib.Tactic.IntervalCases

/-!
# The proleptic Gregorian calendar

A date has a number, of days since 1970-01-01; a civil time, of seconds since that day
began. Both numbers grow from each date and each time to the later ones, so that a civil
time is determined by its seconds.
-/

namespace Calendar

/-! ## Years and months -/

/-- Every fourth year is a leap year, except the centuries that 400 does not divide. -/
def IsLeap (year : ℤ) : Prop := year % 4 = 0 ∧ (year % 100 ≠ 0 ∨ year % 400 = 0)

instance (year : ℤ) : Decidable (IsLeap year) := inferInstanceAs (Decidable (_ ∧ _))

def daysInYear (year : ℤ) : ℕ := if IsLeap year then 366 else 365

/-- Of the months 1 to 12. -/
def daysInMonth (year : ℤ) : ℕ → ℕ
  | 4 | 6 | 9 | 11 => 30
  | 2 => if IsLeap year then 29 else 28
  | _ => 31

theorem daysInMonth_le (year : ℤ) (month : ℕ) : daysInMonth year month ≤ 31 := by
  unfold daysInMonth
  split
  · decide
  · decide
  · decide
  · decide
  · split <;> decide
  · decide

/-- The days from 1970-01-01 to the first of January of a year. -/
def daysBeforeYear (year : ℤ) : ℤ :=
  365 * (year - 1970) + ((year - 1) / 4 - (year - 1) / 100 + (year - 1) / 400) - 477

/-- The days of the first `months` months of a year. -/
def firstMonths (year : ℤ) : ℕ → ℕ
  | 0 => 0
  | months + 1 => firstMonths year months + daysInMonth year (months + 1)

/-- A year is followed by the next. -/
theorem daysBeforeYear_succ (year : ℤ) :
    daysBeforeYear (year + 1) = daysBeforeYear year + daysInYear year := by
  unfold daysBeforeYear daysInYear
  by_cases h : IsLeap year
  · rw [if_pos h]
    unfold IsLeap at h
    omega
  · rw [if_neg h]
    unfold IsLeap at h
    omega

example : daysBeforeYear 1970 = 0 := by decide

/-- Its months make up the year. -/
theorem firstMonths_twelve (year : ℤ) : firstMonths year 12 = daysInYear year := by
  unfold daysInYear
  by_cases h : IsLeap year <;> simp [firstMonths, daysInMonth, h]

theorem firstMonths_le (year : ℤ) {months months' : ℕ} (h : months ≤ months') :
    firstMonths year months ≤ firstMonths year months' := by
  induction h with
  | refl => exact Nat.le_refl _
  | step _ ih => exact Nat.le_trans ih (Nat.le_add_right _ _)

theorem daysBeforeYear_le {year year' : ℤ} (h : year ≤ year') :
    daysBeforeYear year ≤ daysBeforeYear year' := by
  unfold daysBeforeYear
  omega

/-- From March on, the days of the months come to 30.6 for each month. -/
theorem firstMonths_from_march (year : ℤ) {months : ℕ} (h : months ≤ 10) :
    firstMonths year (months + 2) = firstMonths year 2 + (153 * months + 2) / 5 := by
  interval_cases months <;> simp [firstMonths, daysInMonth, Nat.add_assoc]

/-- The days from 1970-01-01 to the first of March of a year. -/
theorem daysBeforeYear_add_firstMonths_two (year : ℤ) :
    daysBeforeYear year + firstMonths year 2 =
      365 * year + year / 4 - year / 100 + year / 400 - 719468 := by
  by_cases h : IsLeap year
  · have htwo : firstMonths year 2 = 60 := by simp [firstMonths, daysInMonth, h]
    rw [htwo, daysBeforeYear]
    unfold IsLeap at h
    omega
  · have htwo : firstMonths year 2 = 59 := by simp [firstMonths, daysInMonth, h]
    rw [htwo, daysBeforeYear]
    unfold IsLeap at h
    omega

/-! ## Dates -/

/-- A date of the calendar. -/
@[ext] structure Date where
  year : ℤ
  month : ℕ
  day : ℕ
  one_le_month : 1 ≤ month
  month_le : month ≤ 12
  one_le_day : 1 ≤ day
  day_le : day ≤ daysInMonth year month

namespace Date

/-- The days since 1970-01-01. -/
def dayNumber (date : Date) : ℤ :=
  daysBeforeYear date.year + firstMonths date.year (date.month - 1) + (date.day - 1)

/-- A date comes before another: in an earlier year, or month, or day. -/
def Before (date date' : Date) : Prop :=
  date.year < date'.year ∨ date.year = date'.year ∧
    (date.month < date'.month ∨ date.month = date'.month ∧ date.day < date'.day)

/-- A day of a month comes before the months after. -/
theorem firstMonths_add_day_le (date : Date) :
    firstMonths date.year (date.month - 1) + date.day ≤ firstMonths date.year date.month := by
  obtain ⟨month, hmonth⟩ := Nat.exists_eq_add_of_le' date.one_le_month
  rw [hmonth, Nat.add_sub_cancel, firstMonths, ← hmonth]
  exact Nat.add_le_add_left date.day_le _

theorem daysBeforeYear_le_dayNumber (date : Date) :
    daysBeforeYear date.year ≤ date.dayNumber := by
  have := date.one_le_day
  unfold dayNumber
  omega

/-- The day is over before its year is. -/
theorem dayNumber_lt_daysBeforeYear (date : Date) :
    date.dayNumber < daysBeforeYear (date.year + 1) := by
  have hday := date.firstMonths_add_day_le
  have hyear := firstMonths_le date.year date.month_le
  rw [firstMonths_twelve] at hyear
  rw [daysBeforeYear_succ]
  unfold dayNumber
  omega

theorem dayNumber_lt {date date' : Date} (h : date.Before date') :
    date.dayNumber < date'.dayNumber := by
  rcases h with hyear | ⟨hyear, hmonth | ⟨hmonth, hday⟩⟩
  · calc date.dayNumber
        < daysBeforeYear (date.year + 1) := date.dayNumber_lt_daysBeforeYear
      _ ≤ daysBeforeYear date'.year := daysBeforeYear_le hyear
      _ ≤ date'.dayNumber := date'.daysBeforeYear_le_dayNumber
  · have hday := date.firstMonths_add_day_le
    have hday' := date'.one_le_day
    have hover := firstMonths_le date.year (Nat.le_sub_one_of_lt hmonth)
    unfold dayNumber
    rw [← hyear]
    omega
  · unfold dayNumber
    rw [← hyear, ← hmonth]
    omega

end Date

/-! ## Civil times -/

/-- A date and a time of day, to the second. -/
structure CivilTime where
  date : Date
  hour : ℕ
  minute : ℕ
  second : ℕ
  hour_lt : hour < 24
  minute_lt : minute < 60
  second_lt : second < 60

namespace CivilTime

/-- The seconds since 1970-01-01 began. -/
def seconds (time : CivilTime) : ℤ :=
  ((time.date.dayNumber * 24 + time.hour) * 60 + time.minute) * 60 + time.second

/-- A civil time comes before another: on an earlier date, or at an earlier time of day. -/
def Before (time time' : CivilTime) : Prop :=
  time.date.Before time'.date ∨ time.date = time'.date ∧
    (time.hour < time'.hour ∨ time.hour = time'.hour ∧
      (time.minute < time'.minute ∨ time.minute = time'.minute ∧ time.second < time'.second))

theorem seconds_lt {time time' : CivilTime} (h : time.Before time') :
    time.seconds < time'.seconds := by
  have := time.hour_lt
  have := time.minute_lt
  have := time.second_lt
  unfold seconds
  rcases h with hdate | ⟨hdate, h⟩
  · have := Date.dayNumber_lt hdate
    omega
  · rw [hdate]
    omega

/-- The seconds of the years 0 to 9999. -/
theorem year_of_seconds {time : CivilTime} (h : -62167219200 ≤ time.seconds)
    (h' : time.seconds < 253402300800) : 0 ≤ time.date.year ∧ time.date.year < 10000 := by
  have hbegun := time.date.daysBeforeYear_le_dayNumber
  have hover := time.date.dayNumber_lt_daysBeforeYear
  have := time.hour_lt
  have := time.minute_lt
  have := time.second_lt
  unfold seconds at h h'
  unfold daysBeforeYear at hbegun hover
  omega

end CivilTime

end Calendar
