/-
# Theory.CivilDate -- dates of the Gregorian calendar and their day numbers

Day number 0 is 1 January 1970, and the calendar runs in both directions without a first
year.  Years are counted from March, so that the leap day is the last day of one
(`yearDay`).

`dateOf` reads a day number as a date and `Date.dayNumber` turns it back
(`dayNumber_dateOf`); a date whose month or day is out of range rolls into the next.
-/
import Mathlib

namespace Kiagent.CivilDate

set_option autoImplicit false

structure Date where
  year : Int
  month : Int
  day : Int
  deriving DecidableEq

/-- Months count from 1. -/
def Date.dayNumber (date : Date) : Int :=
  let march := date.month - 3
  let year := date.year + march / 12
  365 * year + year / 4 - year / 100 + year / 400
    + (153 * (march % 12) + 2) / 5 + date.day - 719469

/-- A year that begins on 1 March, and a day of it from 0. -/
structure YearDay where
  year : Int
  day : Int

/-- Days from 1 March of the year 0, by the cycles of 400, 100, 4 and 1 years. -/
def yearDay (days : Int) : YearDay :=
  let era := days / 146097
  let inEra := days % 146097
  let century := min (inEra / 36524) 3
  let inCentury := inEra - 36524 * century
  let quad := inCentury / 1461
  let inQuad := inCentury % 1461
  let year := min (inQuad / 365) 3
  ⟨400 * era + 100 * century + 4 * quad + year, inQuad - 365 * year⟩

def dateOf (number : Int) : Date :=
  let place := yearDay (number + 719468)
  let march := (5 * place.day + 2) / 153
  { year := place.year + (march + 2) / 12
    month := (march + 2) % 12 + 1
    day := place.day - (153 * march + 2) / 5 + 1 }

/-! ## Back and forth -/

theorem yearDay_day (days : Int) : 0 ≤ (yearDay days).day ∧ (yearDay days).day ≤ 365 := by
  unfold yearDay
  dsimp only
  omega

/-- The leap days before a year, from the cycles it is made of. -/
theorem cycles_div (era century quad year : Int) (hundred : 0 ≤ century ∧ century ≤ 3)
    (four : 0 ≤ quad ∧ quad ≤ 24) (one : 0 ≤ year ∧ year ≤ 3) :
    (400 * era + 100 * century + 4 * quad + year) / 4 = 100 * era + 25 * century + quad ∧
      (400 * era + 100 * century + 4 * quad + year) / 100 = 4 * era + century ∧
      (400 * era + 100 * century + 4 * quad + year) / 400 = era := by
  refine ⟨?_, ?_, ?_⟩ <;> omega

theorem yearDay_days (days : Int) :
    365 * (yearDay days).year + (yearDay days).year / 4 - (yearDay days).year / 100
      + (yearDay days).year / 400 + (yearDay days).day = days := by
  have inEra : 0 ≤ days % 146097 ∧ days % 146097 < 146097 := by omega
  have century : 0 ≤ min (days % 146097 / 36524) 3 ∧ min (days % 146097 / 36524) 3 ≤ 3 := by
    omega
  have inCentury : 0 ≤ days % 146097 - 36524 * min (days % 146097 / 36524) 3 ∧
      days % 146097 - 36524 * min (days % 146097 / 36524) 3 ≤ 36524 := by omega
  unfold yearDay
  dsimp only
  generalize min (days % 146097 / 36524) 3 = c at *
  generalize hr : days % 146097 - 36524 * c = r at *
  obtain ⟨four, hundred, whole⟩ := cycles_div (days / 146097) c (r / 1461)
    (min (r % 1461 / 365) 3) century (by omega) (by omega)
  rw [four, hundred, whole]
  omega

/-- Days before 1 March of the year. -/
def yearStart (year : Int) : Int := 365 * year + year / 4 - year / 100 + year / 400

theorem yearStart_succ (year : Int) :
    yearStart year + 365 ≤ yearStart (year + 1) ∧ yearStart (year + 1) ≤ yearStart year + 366 := by
  have cut : ∀ y : Int, y / 4 = 25 * (y / 100) + y % 100 / 4 ∧ y / 400 = y / 100 / 4 := by
    intro y
    omega
  obtain ⟨four, whole⟩ := cut year
  obtain ⟨four', whole'⟩ := cut (year + 1)
  unfold yearStart
  rw [four, whole, four', whole']
  omega

theorem yearStart_lt {first last : Int} (before : first < last) :
    yearStart first + 365 ≤ yearStart last := by
  induction last, before using Int.leInduction with
  | base => exact (yearStart_succ first).1
  | succ last _ ih =>
      have step := (yearStart_succ last).1
      omega

/-- **A day number read as a date is the number of that date.** -/
theorem dayNumber_dateOf (number : Int) : (dateOf number).dayNumber = number := by
  obtain ⟨first, last⟩ := yearDay_day (number + 719468)
  have days := yearDay_days (number + 719468)
  unfold Date.dayNumber dateOf
  dsimp only
  generalize (yearDay (number + 719468)).day = day at *
  generalize (yearDay (number + 719468)).year = year at *
  -- Adding two months and taking them away again is the same month of the same year.
  have shift : ∀ march : Int, 0 ≤ march → march ≤ 11 →
      year + (march + 2) / 12 + ((march + 2) % 12 + 1 - 3) / 12 = year ∧
        ((march + 2) % 12 + 1 - 3) % 12 = march := by omega
  obtain ⟨sameYear, sameMonth⟩ := shift ((5 * day + 2) / 153) (by omega) (by omega)
  rw [sameYear, sameMonth]
  omega

/-! ## Dates that exist -/

def leapYear (year : Int) : Prop := year % 4 = 0 ∧ (year % 100 ≠ 0 ∨ year % 400 = 0)

instance (year : Int) : Decidable (leapYear year) := by
  unfold leapYear
  infer_instance

def monthLength (year month : Int) : Int :=
  if month = 2 then if leapYear year then 29 else 28
  else if month = 4 ∨ month = 6 ∨ month = 9 ∨ month = 11 then 30 else 31

def Date.Valid (date : Date) : Prop :=
  (1 ≤ date.month ∧ date.month ≤ 12) ∧
    1 ≤ date.day ∧ date.day ≤ monthLength date.year date.month

instance (date : Date) : Decidable date.Valid := by
  unfold Date.Valid
  infer_instance

/-- Year and day are the only ones of their number. -/
theorem yearDay_eq (year day : Int) (first : 0 ≤ day)
    (last : day ≤ 364 ∨ day = 365 ∧ leapYear (year + 1)) :
    yearDay (365 * year + year / 4 - year / 100 + year / 400 + day) = ⟨year, day⟩ := by
  obtain ⟨e, c, q, y, hc, hq, hy, rfl⟩ : ∃ e c q y : Int, (0 ≤ c ∧ c ≤ 3) ∧ (0 ≤ q ∧ q ≤ 24) ∧
      (0 ≤ y ∧ y ≤ 3) ∧ year = 400 * e + 100 * c + 4 * q + y :=
    ⟨year / 400, year % 400 / 100, year % 100 / 4, year % 4, by omega, by omega, by omega,
      by omega⟩
  obtain ⟨four, hundred, whole⟩ := cycles_div e c q y hc hq hy
  have leap : day = 365 → y = 3 ∧ (q = 24 → c = 3) := by
    intro long
    obtain ⟨by4, by100⟩ := (last.resolve_left (by omega)).2
    omega
  rw [four, hundred, whole]
  have number : 365 * (400 * e + 100 * c + 4 * q + y) + (100 * e + 25 * c + q) - (4 * e + c) + e
      + day = 146097 * e + (36524 * c + 1461 * q + 365 * y + day) := by ring
  rw [number]
  have era : (146097 * e + (36524 * c + 1461 * q + 365 * y + day)) / 146097 = e := by omega
  have inEra : (146097 * e + (36524 * c + 1461 * q + 365 * y + day)) % 146097
      = 36524 * c + 1461 * q + 365 * y + day := by omega
  have century : min ((36524 * c + 1461 * q + 365 * y + day) / 36524) 3 = c := by omega
  have inCentury : 36524 * c + 1461 * q + 365 * y + day - 36524 * c
      = 1461 * q + 365 * y + day := by omega
  have quad : (1461 * q + 365 * y + day) / 1461 = q := by omega
  have inQuad : (1461 * q + 365 * y + day) % 1461 = 365 * y + day := by omega
  have one : min ((365 * y + day) / 365) 3 = y := by omega
  simp only [yearDay, era, inEra, century, inCentury, quad, inQuad, one]
  rw [YearDay.mk.injEq]
  constructor
  · rfl
  · omega

theorem monthLength_le (year month : Int) :
    monthLength year month ≤
      if month = 2 then 29
      else if month = 4 ∨ month = 6 ∨ month = 9 ∨ month = 11 then 30 else 31 := by
  unfold monthLength
  split
  · split <;> omega
  · exact le_rfl

/-- The month, from a day of the year that begins on 1 March. -/
theorem march_of_day {month day : Int} (january : 1 ≤ month) (december : month ≤ 12)
    (first : 1 ≤ day)
    (last : day ≤ if month = 2 then 29
      else if month = 4 ∨ month = 6 ∨ month = 9 ∨ month = 11 then 30 else 31) :
    (5 * ((153 * ((month - 3) % 12) + 2) / 5 + day - 1) + 2) / 153 = (month - 3) % 12 := by
  interval_cases month <;> norm_num at last <;> omega

/-- A date that exists is the date of its number. -/
theorem dateOf_dayNumber (date : Date) (valid : date.Valid) : dateOf date.dayNumber = date := by
  obtain ⟨year, month, day⟩ := date
  obtain ⟨⟨january, december⟩, first, last⟩ := valid
  dsimp only at january december first last
  have cut : (Date.mk year month day).dayNumber + 719468
      = 365 * (year + (month - 3) / 12) + (year + (month - 3) / 12) / 4
        - (year + (month - 3) / 12) / 100 + (year + (month - 3) / 12) / 400
        + ((153 * ((month - 3) % 12) + 2) / 5 + day - 1) := by
    unfold Date.dayNumber
    dsimp only
    omega
  have inYear : 0 ≤ (153 * ((month - 3) % 12) + 2) / 5 + day - 1 := by omega
  have short : (153 * ((month - 3) % 12) + 2) / 5 + day - 1 ≤ 364 ∨
      (153 * ((month - 3) % 12) + 2) / 5 + day - 1 = 365 ∧
        leapYear (year + (month - 3) / 12 + 1) := by
    unfold monthLength at last
    split at last
    · rename_i february
      subst february
      split at last
      · rename_i leap
        have same : year + (2 - 3) / 12 + 1 = year := by omega
        rw [same]
        by_cases long : day = 29
        · exact Or.inr ⟨by omega, leap⟩
        · exact Or.inl (by omega)
      · exact Or.inl (by omega)
    · split at last <;> exact Or.inl (by omega)
  unfold dateOf
  rw [cut, yearDay_eq _ _ inYear short]
  dsimp only
  rw [march_of_day january december first (last.trans (monthLength_le year month)),
    Date.mk.injEq]
  refine ⟨?_, ?_, ?_⟩ <;> omega

theorem dateOf_injective : Function.Injective dateOf := by
  intro a b same
  rw [← dayNumber_dateOf a, same, dayNumber_dateOf]

/-- A date read from a day number has a month and a day in their ranges. -/
theorem dateOf_ranges (number : Int) :
    (1 ≤ (dateOf number).month ∧ (dateOf number).month ≤ 12) ∧
      1 ≤ (dateOf number).day ∧ (dateOf number).day ≤ 31 := by
  obtain ⟨first, last⟩ := yearDay_day (number + 719468)
  unfold dateOf
  dsimp only
  generalize (yearDay (number + 719468)).day = day at *
  omega

/-! ## Years

Bounds with room for a few days, so that they follow from the mean length of a year. -/

theorem dateOf_year_ge (number : Int) :
    (-682700 ≤ number → 100 ≤ (dateOf number).year) ∧
      (-26000 ≤ number → 1898 ≤ (dateOf number).year) := by
  obtain ⟨first, last⟩ := yearDay_day (number + 719468)
  have days := yearDay_days (number + 719468)
  unfold dateOf
  dsimp only
  generalize (yearDay (number + 719468)).day = day at *
  generalize (yearDay (number + 719468)).year = year at *
  constructor <;> intro late <;> omega

theorem dayNumber_bounds (date : Date) (month : 1 ≤ date.month ∧ date.month ≤ 12)
    (day : 1 ≤ date.day ∧ date.day ≤ 31) :
    (101 ≤ date.year → -682650 ≤ date.dayNumber) ∧
      (1900 ≤ date.year → -25600 ≤ date.dayNumber) ∧
        (date.year ≤ 99 → date.dayNumber ≤ -682900) := by
  unfold Date.dayNumber
  dsimp only
  refine ⟨?_, ?_, ?_⟩ <;> intro bound <;> omega

theorem Date.Valid.day_le {date : Date} (valid : date.Valid) : date.day ≤ 31 := by
  have length := monthLength_le date.year date.month
  have last := valid.2.2
  split_ifs at length <;> omega

end Kiagent.CivilDate
