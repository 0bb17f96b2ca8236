import Mathlib.Algebra.BigOperators.Group.Finset.Basic
import Mathlib.Logic.Function.Iterate
import Mathlib.Tactic

/-!
# The proleptic Gregorian calendar

A date is a day of a month of a year, and the calendar is the passage from each date to the next.
Counting the days since the start of year 0 numbers the dates without a gap, so the date some days
after another one is the one with the right number.
-/

namespace Gregorian

open Finset

/-- Every fourth year is a leap year, except centuries that 400 does not divide. -/
def IsLeap (year : Nat) : Prop := (year % 4 = 0 ∧ year % 100 ≠ 0) ∨ year % 400 = 0

instance (year : Nat) : Decidable (IsLeap year) := inferInstanceAs (Decidable (_ ∨ _))

/-- The days of a month, counted from January as 0. -/
def daysIn (year month : Nat) : Nat :=
  if month = 1 then (if IsLeap year then 29 else 28)
  else if month = 3 ∨ month = 5 ∨ month = 8 ∨ month = 10 then 30 else 31

/-- A day of the calendar; months count from 0 and days from 1. -/
@[ext]
structure Date where
  /-- Year. -/
  year : Nat
  /-- Month, with January as 0. -/
  month : Nat
  /-- Day of the month. -/
  day : Nat
  month_lt : month < 12
  day_pos : 1 ≤ day
  day_le : day ≤ daysIn year month
  deriving DecidableEq

theorem daysIn_pos (year month : Nat) : 1 ≤ daysIn year month := by
  unfold daysIn
  split_ifs <;> decide

theorem daysIn_le (year month : Nat) : daysIn year month ≤ 31 := by
  unfold daysIn
  split_ifs <;> decide

theorem january_lt : 0 < 12 := by decide

/-- The day after a date. -/
def Date.next (date : Date) : Date :=
  if later : date.day < daysIn date.year date.month then
    ⟨date.year, date.month, date.day + 1, date.month_lt, by omega, later⟩
  else if more : date.month < 11 then
    ⟨date.year, date.month + 1, 1, by omega, le_rfl, daysIn_pos _ _⟩
  else ⟨date.year + 1, 0, 1, january_lt, le_rfl, daysIn_pos _ _⟩

/-- The date some days after another. -/
def Date.after (date : Date) (days : Nat) : Date := Date.next^[days] date

/-! ## Counting days -/

/-- The days of a year. -/
def yearLength (year : Nat) : Nat := if IsLeap year then 366 else 365

/-- The days of a year before a month. -/
def beforeMonth (year month : Nat) : Nat := ∑ k ∈ range month, daysIn year k

/-- The days before a year, from year 0. -/
def beforeYear (year : Nat) : Nat := ∑ k ∈ range year, yearLength k

/-- The days before a date, from the first day of year 0. -/
def Date.number (date : Date) : Nat :=
  beforeYear date.year + beforeMonth date.year date.month + (date.day - 1)

theorem beforeMonth_succ (year month : Nat) :
    beforeMonth year (month + 1) = beforeMonth year month + daysIn year month :=
  sum_range_succ _ _

theorem beforeYear_succ (year : Nat) :
    beforeYear (year + 1) = beforeYear year + yearLength year :=
  sum_range_succ _ _

@[simp] theorem beforeMonth_zero (year : Nat) : beforeMonth year 0 = 0 := rfl

/-- The months make up the year. -/
theorem beforeMonth_twelve (year : Nat) : beforeMonth year 12 = yearLength year := by
  have months : beforeMonth year 12 = 337 + daysIn year 1 := by
    simp [beforeMonth, sum_range_succ, daysIn]
    ring
  rw [months, daysIn, if_pos rfl, yearLength]
  split_ifs
  · rfl
  · rfl

theorem beforeMonth_mono (year : Nat) : Monotone (beforeMonth year) := by
  apply monotone_nat_of_le_succ
  intro month
  rw [beforeMonth_succ]
  exact Nat.le_add_right _ _

theorem beforeYear_mono : Monotone beforeYear := by
  apply monotone_nat_of_le_succ
  intro year
  rw [beforeYear_succ]
  exact Nat.le_add_right _ _

/-- A closed form for the days before a year other than year 0. -/
theorem beforeYear_eq (year : Nat) :
    beforeYear (year + 1) = 365 * (year + 1) + (year / 4 + year / 400 + 1) - year / 100 := by
  induction year with
  | zero => decide
  | succ year ih =>
      rw [beforeYear_succ, ih, yearLength]
      have hundred : year / 100 ≤ year := Nat.div_le_self _ _
      have leap_iff : IsLeap (year + 1) ↔
          ((year + 1) % 4 = 0 ∧ (year + 1) % 100 ≠ 0) ∨ (year + 1) % 400 = 0 := Iff.rfl
      split_ifs with leap
      · rw [leap_iff] at leap
        omega
      · rw [leap_iff] at leap
        omega

namespace Date

/-- The number of a date lies in its year. -/
theorem number_lt (date : Date) : date.number < beforeYear (date.year + 1) := by
  have month_lt := date.month_lt
  have day_le := date.day_le
  have day_pos := date.day_pos
  have month := beforeMonth_mono date.year (show date.month + 1 ≤ 12 from month_lt)
  rw [beforeMonth_succ, beforeMonth_twelve] at month
  rw [number, beforeYear_succ]
  omega

theorem le_number (date : Date) : beforeYear date.year ≤ date.number := by
  rw [number, Nat.add_assoc]
  exact Nat.le_add_right _ _

/-- The year of a date is the one that its number lies in. -/
theorem year_eq {date : Date} {year : Nat} (lower : beforeYear year ≤ date.number)
    (upper : date.number < beforeYear (year + 1)) : date.year = year := by
  have low := date.le_number
  have high := date.number_lt
  rcases Nat.lt_trichotomy date.year year with less | equal | more
  · have := beforeYear_mono (show date.year + 1 ≤ year from less)
    omega
  · exact equal
  · have := beforeYear_mono (show year + 1 ≤ date.year from more)
    omega

/-- Every day has the next number. -/
theorem number_next (date : Date) : date.next.number = date.number + 1 := by
  have day_pos := date.day_pos
  have day_le := date.day_le
  have month_lt := date.month_lt
  unfold next
  split_ifs with later more
  · simp only [number]
    omega
  · simp only [number, beforeMonth_succ]
    omega
  · have december : date.month + 1 = 12 := by omega
    have whole := beforeMonth_succ date.year date.month
    rw [december, beforeMonth_twelve] at whole
    simp only [number, beforeYear_succ, beforeMonth_zero]
    omega

/-- Dates have different numbers. -/
theorem number_injective : Function.Injective number := by
  intro a b same
  have year_eq : a.year = b.year :=
    year_eq (same ▸ b.le_number) (same ▸ b.number_lt)
  have a_pos := a.day_pos
  have b_pos := b.day_pos
  have a_day := a.day_le
  have b_day := b.day_le
  rw [number, number, year_eq] at same
  rw [year_eq] at a_day
  have month_eq : a.month = b.month := by
    rcases Nat.lt_trichotomy a.month b.month with less | equal | more
    · have := beforeMonth_mono b.year (show a.month + 1 ≤ b.month from less)
      rw [beforeMonth_succ] at this
      omega
    · exact equal
    · have := beforeMonth_mono b.year (show b.month + 1 ≤ a.month from more)
      rw [beforeMonth_succ] at this
      omega
  rw [month_eq] at same
  exact Date.ext year_eq month_eq (by omega)

theorem number_after (date : Date) (days : Nat) :
    (date.after days).number = date.number + days := by
  induction days with
  | zero => rfl
  | succ days ih =>
      have step : date.after (days + 1) = (date.after days).next :=
        Function.iterate_succ_apply' _ _ _
      rw [step, number_next, ih, Nat.add_assoc]

/-- The date some days after another is the one with the right number. -/
theorem after_eq_iff (date other : Date) (days : Nat) :
    date.after days = other ↔ other.number = date.number + days := by
  rw [← number_after]
  exact ⟨fun same => same ▸ rfl, fun same => (number_injective same).symm⟩

end Date

end Gregorian
