import Mathlib.Data.Int.Init
import Mathlib.Order.Basic

/-!
# Local times

The days of the Gregorian calendar are numbered from the epoch on.  A year is counted from March,
so that the leap day is its last day, and 400 years are 146097 days.  A broken-down local time is
turned into seconds by adding up what its fields count, in range or not.
-/

namespace LibDispatch.Calendar

/-! ## Days -/

/-- The number of days from the first of March of the year 0 to that of the year `y`. -/
def daysBefore (y : ℤ) : ℤ := 365 * y + y / 4 - y / 100 + y / 400

def daysOfMonths (m : ℤ) : ℤ := (153 * m + 2) / 5

/-- The number of the day, where months are counted from January as 0 on. -/
def dayNumber (year month day : ℤ) : ℤ :=
  let months := 12 * year + month - 2
  daysBefore (months / 12) + daysOfMonths (months % 12) + (day - 1) - 719468

/-- The year in which the day `n` from the first of March of the year 0 on lies. -/
def yearOf (n : ℤ) : ℤ :=
  let century := min (n % 146097 / 36524) 3
  let ofCentury := n % 146097 - 36524 * century
  let four := ofCentury / 1461
  400 * (n / 146097) + 100 * century + 4 * four + min (ofCentury % 1461 / 365) 3

/-- The month, counted from March as 0 on, in which the day `n` of a year lies. -/
def monthOf (n : ℤ) : ℤ := (5 * n + 2) / 153

structure Date where
  year : ℤ
  month : ℤ
  day : ℤ
  deriving DecidableEq

def dateOf (number : ℤ) : Date :=
  let n := number + 719468
  let ofYear := n - daysBefore (yearOf n)
  let months := 12 * yearOf n + monthOf ofYear + 2
  ⟨months / 12, months % 12, ofYear - daysOfMonths (monthOf ofYear) + 1⟩

theorem daysBefore_cycles {era century four r : ℤ} (hcentury : 0 ≤ century ∧ century ≤ 3)
    (hfour : 0 ≤ four ∧ four ≤ 24) (hr : 0 ≤ r ∧ r ≤ 3) :
    daysBefore (400 * era + 100 * century + 4 * four + r) =
      146097 * era + 36524 * century + 1461 * four + 365 * r := by
  have h4 : (400 * era + 100 * century + 4 * four + r) / 4 = 100 * era + 25 * century + four := by
    omega
  have h100 : (400 * era + 100 * century + 4 * four + r) / 100 = 4 * era + century := by omega
  have h400 : (400 * era + 100 * century + 4 * four + r) / 400 = era := by omega
  rw [daysBefore, h4, h100, h400]
  omega

theorem daysBefore_yearOf (n : ℤ) :
    daysBefore (yearOf n) ≤ n ∧ n ≤ daysBefore (yearOf n) + 365 := by
  unfold yearOf
  extract_lets century ofCentury four
  have hcentury : 0 ≤ century ∧ century ≤ 3 := by omega
  have hof : 0 ≤ ofCentury ∧ ofCentury ≤ 36524 := by omega
  have hfour : 0 ≤ four ∧ four ≤ 24 := by omega
  have hr : 0 ≤ min (ofCentury % 1461 / 365) 3 ∧ min (ofCentury % 1461 / 365) 3 ≤ 3 := by omega
  rw [daysBefore_cycles hcentury hfour hr]
  omega

theorem dayNumber_dateOf (number : ℤ) :
    dayNumber (dateOf number).year (dateOf number).month (dateOf number).day = number := by
  obtain ⟨hlo, hhi⟩ := daysBefore_yearOf (number + 719468)
  simp only [dateOf, dayNumber]
  generalize hy : yearOf (number + 719468) = y at *
  generalize hd : number + 719468 - daysBefore y = d
  have hm : 0 ≤ monthOf d ∧ monthOf d ≤ 11 := by
    unfold monthOf
    omega
  generalize monthOf d = m at *
  have hmonths : 12 * ((12 * y + m + 2) / 12) + (12 * y + m + 2) % 12 - 2 = 12 * y + m := by omega
  have hyear : (12 * y + m) / 12 = y := by omega
  have hmonth : (12 * y + m) % 12 = m := by omega
  rw [hmonths, hyear, hmonth]
  omega

/-! ## Seconds -/

structure Tm where
  tmSec : ℤ
  tmMin : ℤ
  tmHour : ℤ
  tmMday : ℤ
  tmMon : ℤ
  tmYear : ℤ
  deriving DecidableEq

/-- The local times of a zone without offset changes: `mktime` undoes `localtime` and carries hours,
minutes and seconds that are out of range. -/
structure Zone where
  mktime : Tm → ℤ
  localtime : ℤ → Tm
  mktime_localtime : ∀ s, mktime (localtime s) = s
  mktime_carry : ∀ t hour min sec,
    mktime { t with
      tmHour := t.tmHour + hour
      tmMin := t.tmMin + min
      tmSec := t.tmSec + sec } = mktime t + 3600 * hour + 60 * min + sec

/-- The zone whose clocks are `offset` seconds ahead. -/
def Zone.ahead (offset : ℤ) : Zone where
  mktime t :=
    86400 * dayNumber (1900 + t.tmYear) t.tmMon t.tmMday + 3600 * t.tmHour + 60 * t.tmMin +
      t.tmSec -
      offset
  localtime s :=
    let date := dateOf ((s + offset) / 86400)
    let ofDay := (s + offset) % 86400
    ⟨ofDay % 60, ofDay % 3600 / 60, ofDay / 3600, date.day, date.month, date.year - 1900⟩
  mktime_localtime s := by
    have hyear : 1900 + ((dateOf ((s + offset) / 86400)).year - 1900) =
        (dateOf ((s + offset) / 86400)).year := by omega
    simp only [hyear, dayNumber_dateOf]
    omega
  mktime_carry t hour min sec := by
    simp only
    omega

example : (Zone.ahead 0).localtime 1794830400 = ⟨0, 0, 12, 16, 10, 126⟩ := by decide

end LibDispatch.Calendar
