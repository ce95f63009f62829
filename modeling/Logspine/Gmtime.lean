import Logspine.Calendar
import Logspine.LogEvent
import Mathlib.Tactic.Ring

/-!
# The civil time of a count of seconds

`gmtime` splits the days into eras of 400 years and the years at the first of March, so
that the leap day comes last: in its year, in its four years, and in its era. What it finds
is the civil time whose seconds it was given.
-/

namespace Logspine

open Calendar

/-- A civil time as a `std::tm`. -/
def toTm (time : CivilTime) : Tm where
  tmYear := time.date.year - 1900
  tmMon := time.date.month - 1
  tmMday := time.date.day
  tmHour := time.hour
  tmMin := time.minute
  tmSec := time.second

/-- The year of the era, from the years of a century, of four years and the last one: only
the years before a leap day are longer than 365 days. -/
theorem yearOfEra_eq {dayOfEra c q y dayOfYear : ℤ} (hc : 0 ≤ c ∧ c ≤ 3) (hq : 0 ≤ q ∧ q ≤ 24)
    (hy : 0 ≤ y ∧ y ≤ 3) (hday : 0 ≤ dayOfYear ∧ dayOfYear ≤ 365)
    (hlast : dayOfYear = 365 → y = 3 ∧ (q = 24 → c = 3))
    (h : dayOfEra = 36524 * c + 1461 * q + 365 * y + dayOfYear) :
    (dayOfEra - dayOfEra / 1460 + dayOfEra / 36524 - dayOfEra / 146096) / 365 =
      100 * c + 4 * q + y := by
  have hcentury : dayOfEra / 36524 - dayOfEra / 146096 = c := by
    by_cases hend : dayOfEra = 146096
    · omega
    · have : dayOfEra / 36524 = c := by omega
      have : dayOfEra / 146096 = 0 := by omega
      omega
  by_cases hshort : 24 * c + q + 365 * y + dayOfYear < 1460
  · have : dayOfEra / 1460 = 25 * c + q := by omega
    omega
  · have : dayOfEra / 1460 = 25 * c + q + 1 := by omega
    omega

/-- A day of an era is one of a year of the era. -/
theorem exists_dayOfYear {dayOfEra : ℤ} (h : 0 ≤ dayOfEra ∧ dayOfEra < 146097) :
    ∃ yearOfEra dayOfYear : ℤ,
      (dayOfEra - dayOfEra / 1460 + dayOfEra / 36524 - dayOfEra / 146096) / 365 = yearOfEra ∧
      dayOfEra - (365 * yearOfEra + yearOfEra / 4 - yearOfEra / 100) = dayOfYear ∧
      0 ≤ yearOfEra ∧ yearOfEra < 400 ∧ 0 ≤ dayOfYear ∧ dayOfYear ≤ 365 ∧
      (dayOfYear = 365 → IsLeap (yearOfEra + 1)) := by
  obtain ⟨c, r, hc, hr, hdays, hend⟩ : ∃ c r : ℤ, (0 ≤ c ∧ c ≤ 3) ∧ (0 ≤ r ∧ r ≤ 36524) ∧
      dayOfEra = 36524 * c + r ∧ (r = 36524 → c = 3) := by
    by_cases hlast : dayOfEra = 146096
    · exact ⟨3, 36524, by omega⟩
    · exact ⟨dayOfEra / 36524, dayOfEra % 36524, by omega⟩
  obtain ⟨y, d, hy, hd, hdays', hend'⟩ : ∃ y d : ℤ, (0 ≤ y ∧ y ≤ 3) ∧ (0 ≤ d ∧ d ≤ 365) ∧
      r % 1461 = 365 * y + d ∧ (d = 365 → y = 3) := by
    by_cases hlast : r % 1461 = 1460
    · exact ⟨3, 365, by omega⟩
    · exact ⟨r % 1461 / 365, r % 1461 % 365, by omega⟩
  have hq : 0 ≤ r / 1461 ∧ r / 1461 ≤ 24 := by omega
  have hlast : d = 365 → y = 3 ∧ (r / 1461 = 24 → c = 3) := fun hd =>
    ⟨hend' hd, fun h => hend (by have := hend' hd; omega)⟩
  have hfour : (100 * c + 4 * (r / 1461) + y) / 4 = 25 * c + r / 1461 := by omega
  have hhundred : (100 * c + 4 * (r / 1461) + y) / 100 = c := by omega
  refine ⟨100 * c + 4 * (r / 1461) + y, d, yearOfEra_eq hc hq hy hd hlast (by omega), by omega,
    by omega, by omega, hd.1, hd.2, fun hd => ?_⟩
  obtain ⟨rfl, hcentury⟩ := hlast hd
  unfold IsLeap
  omega

/-- The days of March to December, from the first of March. -/
theorem exists_date_of_lt (year : ℤ) {months days : ℕ} (hmonths : months < 10)
    (hbegun : (153 * months + 2) / 5 ≤ days) (hover : days < (153 * (months + 1) + 2) / 5) :
    ∃ date : Date, date.year = year ∧ date.month = months + 3 ∧
      date.day = days - (153 * months + 2) / 5 + 1 ∧
      date.dayNumber = daysBeforeYear year + firstMonths year 2 + days := by
  have hbefore := firstMonths_from_march year (show months ≤ 10 by omega)
  have hafter := firstMonths_from_march year (show months + 1 ≤ 10 by omega)
  change firstMonths year (months + 2) + daysInMonth year (months + 3) = _ at hafter
  refine ⟨⟨year, months + 3, days - (153 * months + 2) / 5 + 1, by omega, by omega, by omega,
    by omega⟩, rfl, rfl, rfl, ?_⟩
  show daysBeforeYear year + firstMonths year (months + 2) +
    ((days - (153 * months + 2) / 5 + 1 : ℕ) - 1 : ℤ) = _
  omega

/-- The days of the January and the February that follow. -/
theorem exists_date_of_le (year : ℤ) {months days : ℕ} (hmonths : months = 10 ∨ months = 11)
    (hbegun : (153 * months + 2) / 5 ≤ days) (hover : days < (153 * (months + 1) + 2) / 5)
    (hdays : days ≤ 365) (hleap : days = 365 → IsLeap (year + 1)) :
    ∃ date : Date, date.year = year + 1 ∧ date.month = months - 9 ∧
      date.day = days - (153 * months + 2) / 5 + 1 ∧
      date.dayNumber = daysBeforeYear year + firstMonths year 2 + days := by
  have hnext := daysBeforeYear_succ year
  have hyear : daysInYear year = firstMonths year 2 + 306 :=
    (firstMonths_twelve year).symm.trans (firstMonths_from_march year (Nat.le_refl 10))
  have hbefore : (153 * months + 2) / 5 = 306 + 31 * (months - 10) := by omega
  have hfirst : firstMonths (year + 1) (months - 9 - 1) = 31 * (months - 10) := by
    obtain rfl | rfl := hmonths
    · rfl
    · rfl
  have hin : days - (153 * months + 2) / 5 + 1 ≤ daysInMonth (year + 1) (months - 9) := by
    obtain rfl | rfl := hmonths
    · show days - 306 + 1 ≤ 31
      omega
    · show days - 337 + 1 ≤ if IsLeap (year + 1) then 29 else 28
      by_cases hlast : days = 365
      · rw [if_pos (hleap hlast)]
        omega
      · split <;> omega
  refine ⟨⟨year + 1, months - 9, days - (153 * months + 2) / 5 + 1, by omega, by omega, by omega,
    hin⟩, rfl, rfl, rfl, ?_⟩
  show daysBeforeYear (year + 1) + firstMonths (year + 1) (months - 9 - 1) +
    ((days - (153 * months + 2) / 5 + 1 : ℕ) - 1 : ℤ) = _
  rw [hnext, hfirst]
  omega

/-- The date of a day of a year that begins in March. -/
theorem exists_date {year dayOfYear : ℤ} (h : 0 ≤ dayOfYear ∧ dayOfYear ≤ 365)
    (hleap : dayOfYear = 365 → IsLeap (year + 1)) {monthFromMarch month : ℤ}
    (hmarch : (5 * dayOfYear + 2) / 153 = monthFromMarch)
    (hmonth : (if monthFromMarch < 10 then monthFromMarch + 3 else monthFromMarch - 9) = month) :
    ∃ date : Date, date.year = year + (if month ≤ 2 then 1 else 0) ∧ (date.month : ℤ) = month ∧
      (date.day : ℤ) = dayOfYear - (153 * monthFromMarch + 2) / 5 + 1 ∧
      date.dayNumber = 365 * year + year / 4 - year / 100 + year / 400 - 719468 + dayOfYear := by
  obtain ⟨m, rfl⟩ := Int.eq_ofNat_of_zero_le (show 0 ≤ monthFromMarch by omega)
  obtain ⟨d, rfl⟩ := Int.eq_ofNat_of_zero_le h.1
  have hbegun : (153 * m + 2) / 5 ≤ d := by omega
  have hover : d < (153 * (m + 1) + 2) / 5 := by omega
  rw [← daysBeforeYear_add_firstMonths_two]
  by_cases hm : m < 10
  · obtain ⟨date, hdateYear, hdateMonth, hdateDay, hnumber⟩ :=
      exists_date_of_lt year hm hbegun hover
    rw [if_pos (by omega)] at hmonth
    refine ⟨date, ?_, by omega, by omega, hnumber⟩
    rw [hdateYear, if_neg (by omega), Int.add_zero]
  · have hdays : d ≤ 365 := by omega
    have hleap' : d = 365 → IsLeap (year + 1) := fun hd => hleap (congrArg Int.ofNat hd)
    obtain ⟨date, hdateYear, hdateMonth, hdateDay, hnumber⟩ :=
      exists_date_of_le year (by omega) hbegun hover hdays hleap'
    rw [if_neg (by omega)] at hmonth
    refine ⟨date, ?_, by omega, by omega, hnumber⟩
    rw [hdateYear, if_pos (by omega)]

/-- An era has 146097 days. -/
theorem era_add_dayOfYear {days yearOfEra dayOfYear : ℤ}
    (hyear : 0 ≤ yearOfEra ∧ yearOfEra < 400)
    (hday : (days + 719468) % 146097 -
      (365 * yearOfEra + yearOfEra / 4 - yearOfEra / 100) = dayOfYear) :
    365 * (yearOfEra + (days + 719468) / 146097 * 400) +
      (yearOfEra + (days + 719468) / 146097 * 400) / 4 -
      (yearOfEra + (days + 719468) / 146097 * 400) / 100 +
      (yearOfEra + (days + 719468) / 146097 * 400) / 400 - 719468 + dayOfYear = days := by
  have hera := Int.mul_ediv_add_emod (days + 719468) 146097
  generalize (days + 719468) / 146097 = era at hera ⊢
  have hfour : (yearOfEra + era * 400) / 4 = yearOfEra / 4 + era * 100 := by omega
  have hhundred : (yearOfEra + era * 400) / 100 = yearOfEra / 100 + era * 4 := by omega
  have hfourHundred : (yearOfEra + era * 400) / 400 = era := by omega
  rw [hfour, hhundred, hfourHundred]
  omega

/-- A second of a day is at a time of the day. -/
theorem exists_timeOfDay {secondOfDay : ℤ} (h : 0 ≤ secondOfDay ∧ secondOfDay < 86400) :
    ∃ hour minute second : ℕ, hour < 24 ∧ minute < 60 ∧ second < 60 ∧
      (hour : ℤ) = secondOfDay / 3600 ∧ (minute : ℤ) = secondOfDay % 3600 / 60 ∧
      (second : ℤ) = secondOfDay % 60 ∧
      ((hour * 60 + minute) * 60 + second : ℤ) = secondOfDay := by
  obtain ⟨s, rfl⟩ := Int.eq_ofNat_of_zero_le h.1
  exact ⟨s / 3600, s % 3600 / 60, s % 60, by omega⟩

/-- `gmtime_r` finds the civil time of every count of seconds. -/
theorem exists_civilTime (rawTime : ℤ) :
    ∃ time : CivilTime, gmtime rawTime = toTm time ∧ time.seconds = rawTime := by
  have hera : 0 ≤ (rawTime / 86400 + 719468) % 146097 ∧
      (rawTime / 86400 + 719468) % 146097 < 146097 := by omega
  obtain ⟨yearOfEra, dayOfYear, hyearOfEra, hdayOfYear, hyear0, hyear, hday0, hday, hleap⟩ :=
    exists_dayOfYear hera
  have hleap' : dayOfYear = 365 →
      IsLeap (yearOfEra + (rawTime / 86400 + 719468) / 146097 * 400 + 1) := by
    intro h
    have hyearOfEra := hleap h
    unfold IsLeap at hyearOfEra ⊢
    omega
  obtain ⟨date, hdateYear, hdateMonth, hdateDay, hnumber⟩ :=
    exists_date ⟨hday0, hday⟩ hleap' rfl rfl
  rw [era_add_dayOfYear ⟨hyear0, hyear⟩ hdayOfYear] at hnumber
  have hsecond : 0 ≤ rawTime % 86400 ∧ rawTime % 86400 < 86400 := by omega
  obtain ⟨hour, minute, second, hhour, hminute, hsecond, hhourEq, hminuteEq, hsecondEq, hclock⟩ :=
    exists_timeOfDay hsecond
  refine ⟨⟨date, hour, minute, second, hhour, hminute, hsecond⟩, ?_, ?_⟩
  · simp only [gmtime, toTm, hyearOfEra, hdayOfYear, hdateYear, hdateMonth, hdateDay, hhourEq,
      hminuteEq, hsecondEq]
  · calc ((date.dayNumber * 24 + hour) * 60 + minute) * 60 + second
        = 86400 * date.dayNumber + ((hour * 60 + minute) * 60 + second) := by ring
      _ = 86400 * (rawTime / 86400) + rawTime % 86400 := by rw [hnumber, hclock]
      _ = rawTime := Int.mul_ediv_add_emod rawTime 86400

end Logspine
