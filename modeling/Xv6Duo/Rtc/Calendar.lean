import Xv6Duo.Library.Gregorian
import Xv6Duo.Rtc.Model

/-!
# Calendar conversion

For every value of the 32-bit counter, shifted by nine hours or not, `rtc_time_to_tm` shows the date
that the Gregorian calendar gives the seconds since 1970, and `tm_to_time` counts them back.
-/

namespace Xv6Duo
namespace Rtc

open Gregorian

/-! ## Words -/

theorem toInt_eq {x : Int} (lower : -2 ^ 31 ≤ x) (upper : x < 2 ^ 31) : toInt x = x := by
  rw [toInt]
  exact Int.bmod_eq_of_le (by omega) (by omega)

theorem toUnsigned_eq {x : Int} (lower : 0 ≤ x) (upper : x < 2 ^ 32) : toUnsigned x = x :=
  Int.emod_eq_of_lt lower upper

theorem toUnsignedLong_eq {x : Int} (lower : 0 ≤ x) (upper : x < 2 ^ 64) : toUnsignedLong x = x :=
  Int.emod_eq_of_lt lower upper

theorem toInt_ofInt {x : Int} (lower : -2 ^ 31 ≤ x) (upper : x < 2 ^ 31) :
    (Int32.ofInt x).toInt = x := by
  rw [Int32.toInt_ofInt]
  exact toInt_eq lower upper

/-- The leap years up to a year. -/
theorem leapsThruEndOf_eq {y : Nat} (small : y < 2 ^ 31) :
    leapsThruEndOf y = y / 4 - y / 100 + y / 400 := by
  rw [leapsThruEndOf]
  apply toUnsigned_eq
  · omega
  · omega

theorem isLeapYear_eq (year : Nat) : isLeapYear year = decide (IsLeap year) := by
  have four : (year : Int).tmod 4 = ((year % 4 : Nat) : Int) := rfl
  have hundred : (year : Int).tmod 100 = ((year % 100 : Nat) : Int) := rfl
  have both : (year : Int).tmod 400 = ((year % 400 : Nat) : Int) := rfl
  rw [isLeapYear, four, hundred, both, Bool.eq_iff_iff, decide_eq_true_iff, IsLeap]
  simp only [Bool.or_eq_true, Bool.and_eq_true, beq_iff_eq, bne_iff_ne]
  omega

/-- The table of the months. -/
theorem monthDays_eq {month : Nat} (month_lt : month < 12) (year : Nat) :
    monthDays month year = daysIn year month := by
  rw [monthDays, isLeapYear_eq, daysIn]
  interval_cases month <;> simp [daysInMonth]
  split_ifs <;> rfl

/-! ## The date of a day -/

/-- 1970-01-01. -/
def epoch : Date := ⟨1970, 0, 1, january_lt, by decide, by decide⟩

theorem epoch_number : epoch.number = 719528 := by
  rw [Date.number, epoch]
  dsimp only
  rw [show (1970 : Nat) = 1969 + 1 from rfl, beforeYear_eq, beforeMonth_zero]

/-- The leap years before a year, as the source counts them. -/
def leaps (year : Nat) : Int := (year : Int) / 4 - (year : Int) / 100 + (year : Int) / 400

theorem leaps_bounds (year : Nat) : 0 ≤ leaps year ∧ leaps year ≤ year := by
  rw [leaps]
  omega

theorem leaps_succ (year : Nat) :
    leaps (year + 1) = leaps year + if IsLeap (year + 1) then 1 else 0 := by
  have leap_iff : IsLeap (year + 1) ↔
      ((year + 1) % 4 = 0 ∧ (year + 1) % 100 ≠ 0) ∨ (year + 1) % 400 = 0 := Iff.rfl
  rw [leaps, leaps]
  split_ifs with leap
  · rw [leap_iff] at leap
    omega
  · rw [leap_iff] at leap
    omega

/-- Not more than a tenth of the days of 136 years are left for leap days. -/
theorem leaps_small {year : Nat} (small : year ≤ 2106) : leaps year ≤ 511 := by
  rw [leaps]
  omega

theorem beforeYear_succ_eq (year : Nat) :
    (beforeYear (year + 1) : Int) = 365 * (year + 1) + leaps year + 1 := by
  rw [beforeYear_eq, leaps]
  omega

/-- The years that the counter reaches. -/
theorem year_bounds {date : Date} {days : Nat} (number : date.number = 719528 + days)
    (small : days ≤ 49710) : 1970 ≤ date.year ∧ date.year ≤ 2106 := by
  have first : beforeYear 1970 = 719528 := beforeYear_eq 1969
  have last : beforeYear 2107 = 769566 := beforeYear_eq 2106
  constructor
  · by_contra before
    have upper := date.number_lt
    have := beforeYear_mono (show date.year + 1 ≤ 1970 by omega)
    omega
  · by_contra after
    have lower := date.le_number
    have := beforeYear_mono (show 2107 ≤ date.year by omega)
    omega

/-- The year of a day is the estimated one or the one before. -/
theorem yearOf_eq (date : Date) {days : Nat} (number : date.number = 719528 + days)
    (small : days ≤ 49710) :
    yearOf days = ((date.year : Int), (date.number : Int) - beforeYear date.year) := by
  -- The estimated year is `last + 1`.
  obtain ⟨last, last_eq⟩ : ∃ last, last = 1969 + days / 365 := ⟨_, rfl⟩
  have quotient : (days : Int).tdiv 365 = ((days / 365 : Nat) : Int) := rfl
  have estimate : toUnsigned (1970 + (days : Int).tdiv 365) = ((last + 1 : Nat) : Int) := by
    rw [quotient, toUnsigned_eq (by omega) (by omega)]
    omega
  have before : toUnsigned (((last + 1 : Nat) : Int) - 1) = (last : Int) := by
    rw [toUnsigned_eq (by omega) (by omega)]
    omega
  have leaps_eq : leapsThruEndOf last = leaps last := leapsThruEndOf_eq (by omega)
  have past : leapsThruEndOf (1970 - 1) = 477 := rfl
  have closed := beforeYear_succ_eq last
  have few := leaps_small (show last ≤ 2106 by omega)
  have many : 477 ≤ leaps last := by
    rw [leaps]
    omega
  have whole : toUnsigned ((((last + 1 : Nat) : Int) - 1970) * 365 + leaps last - 477) =
      (beforeYear (last + 1) : Int) - 719528 := by
    rw [toUnsigned_eq (by omega) (by omega), closed]
    push_cast
    ring
  have difference : toInt ((days : Int) - ((beforeYear (last + 1) : Int) - 719528)) =
      (date.number : Int) - beforeYear (last + 1) := by
    rw [toInt_eq (by omega) (by omega)]
    omega
  rw [yearOf, estimate, before, leaps_eq, past]
  dsimp only
  rw [whole, difference]
  obtain late | early := Nat.lt_or_ge date.number (beforeYear (last + 1))
  · rw [if_pos (by omega)]
    have length := beforeYear_succ last
    have first : beforeYear last ≤ date.number := by
      rw [yearLength] at length
      split_ifs at length <;> omega
    have year_eq := Date.year_eq first late
    have leap : toInt ((last : Nat) : Int) = (last : Int) := toInt_eq (by omega) (by omega)
    have rest : (date.number : Int) - beforeYear (last + 1) +
        (365 + if IsLeap last then 1 else 0) = (date.number : Int) - beforeYear last := by
      rw [yearLength] at length
      split_ifs at length ⊢ <;> omega
    have stored : toInt ((date.number : Int) - beforeYear last) =
        (date.number : Int) - beforeYear last := toInt_eq (by omega) (by omega)
    rw [leap, isLeapYear_eq, year_eq]
    simp only [decide_eq_true_eq]
    rw [rest, stored]
  · rw [if_neg (by omega)]
    have next := beforeYear_succ_eq (last + 1)
    have more := leaps_succ last
    have inside : date.number < beforeYear (last + 1 + 1) := by
      split_ifs at more <;> omega
    rw [Date.year_eq early inside]

/-- The loop over the months ends in the month of the date with the days before it taken off. -/
theorem monthLoop_eq (date : Date) (count month : Nat) (within : month + count = 11)
    (month_le : month ≤ date.month) :
    monthLoop date.year count month
        ((beforeMonth date.year date.month : Int) - beforeMonth date.year month + (date.day - 1)) =
      (date.month, (date.day : Int) - 1) := by
  have month_lt := date.month_lt
  have day_pos := date.day_pos
  have day_le := date.day_le
  have whole := beforeMonth_mono date.year (show date.month + 1 ≤ 12 from month_lt)
  have length : yearLength date.year ≤ 366 := by
    unfold yearLength
    split_ifs <;> decide
  rw [beforeMonth_succ, beforeMonth_twelve] at whole
  induction count generalizing month with
  | zero =>
      obtain rfl : month = date.month := by omega
      rw [monthLoop, Int.sub_self, Int.zero_add]
  | succ count ih =>
      rw [monthLoop, monthDays_eq (by omega)]
      obtain same | less := month_le.eq_or_lt
      · subst same
        rw [toInt_eq (by omega) (by omega), if_pos (by omega), Int.sub_self, Int.zero_add]
      · have earlier := beforeMonth_mono date.year (show month + 1 ≤ date.month from less)
        have next := beforeMonth_succ date.year month
        rw [toInt_eq (by omega) (by omega), if_neg (by omega)]
        rw [← ih (month + 1) (by omega) less]
        congr 1
        omega

/-! ## Seconds to date -/

/-- The date and time that are shown at some second since 1970-01-01 00:00:00, a Thursday. -/
structure Shows (tm : Tm) (t : Nat) : Prop where
  /-- Year. -/
  year : tm.tmYear.toInt + 1900 = (epoch.after (t / 86400)).year
  /-- Month, from 0. -/
  month : tm.tmMon.toInt = (epoch.after (t / 86400)).month
  /-- Day of the month. -/
  day : tm.tmMday.toInt = (epoch.after (t / 86400)).day
  /-- Time of day. -/
  hour : tm.tmHour.toInt = t % 86400 / 3600
  min : tm.tmMin.toInt = t % 3600 / 60
  sec : tm.tmSec.toInt = t % 60
  /-- Day of the week, with Sunday as 0. -/
  wday : tm.tmWday.toInt = (4 + t / 86400) % 7

theorem tmYear_eq {year : Nat} (since : 1970 ≤ year) (small : year ≤ 2106) :
    (Int32.ofInt ((year : Int) - 1900)).toInt + 1900 = year := by
  rw [toInt_ofInt (by omega) (by omega)]
  omega

/-- `rtc_time_to_tm` shows the right date. -/
theorem rtcTimeToTm_shows {t : Nat} (small : t < 2 ^ 32 + 32400) : Shows (rtcTimeToTm t) t := by
  obtain ⟨date, date_eq⟩ : ∃ date, date = epoch.after (t / 86400) := ⟨_, rfl⟩
  have number : date.number = 719528 + t / 86400 := by
    rw [date_eq, Date.number_after, epoch_number]
  have days_le : t / 86400 ≤ 49710 := by omega
  have days_eq : toInt ((t : Int).tdiv 86400) = ((t / 86400 : Nat) : Int) := by
    have quotient : (t : Int).tdiv 86400 = ((t / 86400 : Nat) : Int) := rfl
    rw [quotient, toInt_eq (by omega) (by omega)]
  have secs_eq : toUnsignedLong ((t : Int) - toUnsigned (((t / 86400 : Nat) : Int) * 86400)) =
      ((t % 86400 : Nat) : Int) := by
    rw [toUnsigned_eq (by omega) (by omega), toUnsignedLong_eq (by omega) (by omega)]
    omega
  have wday_eq : (toInt (((t / 86400 : Nat) : Int) + 4)).tmod 7 =
      (((4 + t / 86400) % 7 : Nat) : Int) := by
    rw [toInt_eq (by omega) (by omega)]
    have sum : ((t / 86400 : Nat) : Int) + 4 = ((4 + t / 86400 : Nat) : Int) := by omega
    rw [sum]
    rfl
  have year_eq := yearOf_eq date number days_le
  obtain ⟨since, until_eq⟩ := year_bounds number days_le
  have day_pos := date.day_pos
  have day_le := date.day_le
  have yday_eq : (date.number : Int) - beforeYear date.year =
      (beforeMonth date.year date.month : Int) - beforeMonth date.year 0 + (date.day - 1) := by
    rw [Date.number, beforeMonth_zero]
    omega
  have year_stored : toInt (date.year : Int) = date.year := toInt_eq (by omega) (by omega)
  have loop := monthLoop_eq date 11 0 rfl (Nat.zero_le _)
  have month_lt := date.month_lt
  have hour_eq : toInt (((t % 86400 : Nat) : Int) / 3600) = ((t % 86400 / 3600 : Nat) : Int) := by
    rw [toInt_eq (by omega) (by omega)]
    rfl
  have left_eq : toUnsignedLong (((t % 86400 : Nat) : Int) -
      ((t % 86400 / 3600 : Nat) : Int) * 3600) = ((t % 3600 : Nat) : Int) := by
    rw [toUnsignedLong_eq (by omega) (by omega)]
    omega
  have min_eq : toInt (((t % 3600 : Nat) : Int) / 60) = ((t % 3600 / 60 : Nat) : Int) := by
    rw [toInt_eq (by omega) (by omega)]
    rfl
  have sec_eq : toInt (toUnsignedLong (((t % 3600 : Nat) : Int) -
      ((t % 3600 / 60 : Nat) : Int) * 60)) = ((t % 60 : Nat) : Int) := by
    rw [toUnsignedLong_eq (by omega) (by omega), toInt_eq (by omega) (by omega)]
    omega
  have short := daysIn_le date.year date.month
  rw [rtcTimeToTm, days_eq]
  dsimp only
  rw [secs_eq, wday_eq, year_eq]
  dsimp only
  rw [year_stored, yday_eq, loop, hour_eq, left_eq, min_eq, sec_eq]
  constructor
  · rw [← date_eq]
    exact tmYear_eq since until_eq
  · rw [toInt_ofInt (by omega) (by omega), ← date_eq]
  · rw [toInt_ofInt (by omega) (by omega), ← date_eq]
    omega
  · rw [toInt_ofInt (by omega) (by omega)]
    rfl
  · rw [toInt_ofInt (by omega) (by omega)]
    rfl
  · rw [toInt_ofInt (by omega) (by omega)]
    rfl
  · rw [toInt_ofInt (by omega) (by omega)]
    rfl

/-! ## Date to seconds -/

/-- The days before January and February, as the source counts them from the March before. -/
theorem beforeMonth_early (year : Nat) {month : Nat} (early : month < 2) :
    beforeMonth year month + 365 = 29 + 367 * (month + 11) / 12 := by
  interval_cases month
  · rfl
  · rfl

/-- The days before the other months. -/
theorem beforeMonth_late (year : Nat) {month : Nat} (late : 2 ≤ month) (month_lt : month < 12) :
    beforeMonth year month =
      29 + 367 * (month - 1) / 12 + if IsLeap year then 1 else 0 := by
  have february : beforeMonth year 2 = 59 + if IsLeap year then 1 else 0 := by
    rw [beforeMonth_succ, beforeMonth_succ, daysIn, daysIn]
    split_ifs <;> simp_all
  induction month, late using Nat.le_induction with
  | base => exact february
  | succ month late ih =>
      have month_le : month < 11 := by omega
      rw [beforeMonth_succ, ih (by omega)]
      interval_cases month <;> simp [daysIn] <;> omega

/-- `tm_to_time` counts the seconds since 1970 of a date and a time. -/
theorem tmToTime_eq (date : Date) (since : 1970 ≤ date.year) (small : date.year ≤ 2106)
    (hour min sec : Nat) :
    tmToTime ((date.year : Int) - 1900) date.month date.day hour min sec =
      ((((date.number : Int) - 719528) * 24 + hour) * 60 + min) * 60 + sec := by
  obtain ⟨before, year_eq⟩ : ∃ before, date.year = before + 1 := ⟨date.year - 1, by omega⟩
  have month_lt := date.month_lt
  have day_pos := date.day_pos
  have day_le := date.day_le
  have short := daysIn_le date.year date.month
  have closed := beforeYear_succ_eq before
  have more := leaps_succ before
  rw [← year_eq] at closed more
  have bounds := leaps_bounds before
  have number : date.number =
      beforeYear date.year + beforeMonth date.year date.month + (date.day - 1) := rfl
  have year_word : toUnsigned ((date.year : Int) - 1900 + 1900) = date.year := by
    rw [toUnsigned_eq (by omega) (by omega)]
    omega
  have month_word : toUnsigned ((date.month : Int) + 1) = date.month + 1 :=
    toUnsigned_eq (by omega) (by omega)
  rw [tmToTime, year_word, month_word]
  dsimp only
  obtain early | late := Nat.lt_or_ge date.month 2
  · have months := beforeMonth_early date.year early
    have moved : toUnsigned (toUnsigned ((date.month : Int) + 1 - 2) + 12) = date.month + 11 := by
      obtain january | february : date.month = 0 ∨ date.month = 1 := by omega
      · rw [january]
        rfl
      · rw [february]
        rfl
    have back : toInt (toUnsigned ((date.month : Int) + 1 - 2)) ≤ 0 := by
      obtain january | february : date.month = 0 ∨ date.month = 1 := by omega
      · rw [january]
        decide
      · rw [february]
        decide
    have year_back : toUnsigned ((date.year : Int) - 1) = before := by
      rw [toUnsigned_eq (by omega) (by omega)]
      omega
    have scaled : toUnsigned (367 * ((date.month : Int) + 11)) = 367 * (date.month + 11) :=
      toUnsigned_eq (by omega) (by omega)
    have days : toUnsigned ((before : Int) / 4 - before / 100 + before / 400 +
        367 * ((date.month : Int) + 11) / 12 + date.day) =
        leaps before + 367 * (date.month + 11) / 12 + date.day := by
      rw [leaps] at *
      exact toUnsigned_eq (by omega) (by omega)
    have years : toUnsigned ((before : Int) * 365) = before * 365 :=
      toUnsigned_eq (by omega) (by omega)
    rw [if_pos back, moved, year_back]
    dsimp only
    rw [scaled, days, years]
    have total : leaps before + 367 * ((date.month : Int) + 11) / 12 + date.day + before * 365 -
        719499 = date.number - 719528 := by
      omega
    rw [total]
  · have months := beforeMonth_late date.year late month_lt
    have moved : toUnsigned ((date.month : Int) + 1 - 2) = date.month - 1 := by
      rw [toUnsigned_eq (by omega) (by omega)]
      omega
    have kept : ¬toInt ((date.month : Int) - 1) ≤ 0 := by
      rw [toInt_eq (by omega) (by omega)]
      omega
    have scaled : toUnsigned (367 * ((date.month : Int) - 1)) = 367 * (date.month - 1) :=
      toUnsigned_eq (by omega) (by omega)
    have leaps_eq : (date.year : Int) / 4 - date.year / 100 + date.year / 400 =
        leaps date.year := rfl
    have later := leaps_bounds date.year
    have days : toUnsigned (leaps date.year + 367 * ((date.month : Int) - 1) / 12 + date.day) =
        leaps date.year + 367 * (date.month - 1) / 12 + date.day :=
      toUnsigned_eq (by omega) (by omega)
    have years : toUnsigned ((date.year : Int) * 365) = date.year * 365 :=
      toUnsigned_eq (by omega) (by omega)
    rw [moved, if_neg kept]
    dsimp only
    rw [scaled, leaps_eq, days, years]
    have total : leaps date.year + 367 * ((date.month : Int) - 1) / 12 + date.day +
        date.year * 365 - 719499 = date.number - 719528 := by
      split_ifs at more months <;> omega
    rw [total]

/-- The seconds since 1970 that a `struct tm` stands for. -/
def secondsOf (tm : Tm) : Int :=
  tmToTime (toUnsigned tm.tmYear.toInt) (toUnsigned tm.tmMon.toInt) (toUnsigned tm.tmMday.toInt)
    (toUnsigned tm.tmHour.toInt) (toUnsigned tm.tmMin.toInt) (toUnsigned tm.tmSec.toInt)

/-- `tm_to_time` gives the second back that is shown. -/
theorem Shows.secondsOf_eq {tm : Tm} {t : Nat} (shows_t : Shows tm t)
    (small : t < 2 ^ 32 + 32400) : secondsOf tm = t := by
  obtain ⟨date, date_eq⟩ : ∃ date, date = epoch.after (t / 86400) := ⟨_, rfl⟩
  have number : date.number = 719528 + t / 86400 := by
    rw [date_eq, Date.number_after, epoch_number]
  obtain ⟨since, until_eq⟩ := year_bounds number (by omega)
  obtain ⟨year, month, day, hour, min, sec, -⟩ := shows_t
  rw [← date_eq] at year month day
  have month_lt := date.month_lt
  have day_le := date.day_le
  have short := daysIn_le date.year date.month
  have year_eq : tm.tmYear.toInt = (date.year : Int) - 1900 := by omega
  have hour_eq : tm.tmHour.toInt = ((t % 86400 / 3600 : Nat) : Int) := hour
  have min_eq : tm.tmMin.toInt = ((t % 3600 / 60 : Nat) : Int) := min
  have sec_eq : tm.tmSec.toInt = ((t % 60 : Nat) : Int) := sec
  rw [secondsOf, year_eq, month, day, hour_eq, min_eq, sec_eq, toUnsigned_eq (by omega) (by omega),
    toUnsigned_eq (by omega) (by omega), toUnsigned_eq (by omega) (by omega),
    toUnsigned_eq (by omega) (by omega), toUnsigned_eq (by omega) (by omega),
    toUnsigned_eq (by omega) (by omega), tmToTime_eq date since until_eq, number]
  omega

/-! ## Valid dates -/

/-- A small unsigned value was no negative `int`. -/
theorem toUnsigned_lt_iff {x : Int32} {bound : Int} (small : bound ≤ 2 ^ 31) :
    toUnsigned x.toInt < bound ↔ 0 ≤ x.toInt ∧ x.toInt < bound := by
  have lower := x.le_toInt
  have upper := x.toInt_lt
  rw [toUnsigned]
  omega

/-- What `rtc_valid_tm` accepts. -/
theorem rtcValidTm_iff (tm : Tm) : rtcValidTm tm = 0 ↔
    tm.tmYear.toInt ≤ 199 ∧ (0 ≤ tm.tmMon.toInt ∧ tm.tmMon.toInt < 12) ∧ 1 ≤ tm.tmMday.toInt ∧
      tm.tmMday.toInt ≤ monthDays tm.tmMon.toInt.toNat (toInt (tm.tmYear.toInt + 1900)) ∧
      (0 ≤ tm.tmHour.toInt ∧ tm.tmHour.toInt < 24) ∧
      (0 ≤ tm.tmMin.toInt ∧ tm.tmMin.toInt < 60) ∧ (0 ≤ tm.tmSec.toInt ∧ tm.tmSec.toInt < 60) := by
  have refused : -einval ≠ 0 := by decide
  rw [rtcValidTm]
  split
  · next some =>
      constructor
      · exact fun zero => absurd zero refused
      · rintro ⟨year, month, first, last, hour, min, sec⟩
        rw [← toUnsigned_lt_iff (by decide)] at month hour min sec
        omega
  · next none =>
      simp only [not_or, not_lt, not_le] at none
      obtain ⟨year, month, first, last, hour, min, sec⟩ := none
      rw [toUnsigned_lt_iff (by decide)] at month hour min sec
      exact ⟨fun _ => ⟨year, month, first, last, hour, min, sec⟩, fun _ => rfl⟩

/-- A date that is shown is valid up to the end of 2099. -/
theorem Shows.valid_iff {tm : Tm} {t : Nat} (shows_t : Shows tm t) :
    rtcValidTm tm = 0 ↔ tm.tmYear.toInt + 1900 ≤ 2099 := by
  obtain ⟨year, month, day, hour, min, sec, -⟩ := shows_t
  set date := epoch.after (t / 86400)
  have month_lt := date.month_lt
  have day_pos := date.day_pos
  have day_le := date.day_le
  have year_range := tm.tmYear.toInt_lt
  rw [rtcValidTm_iff]
  constructor
  · intro valid
    have := valid.1
    omega
  · intro early
    have year_word : toInt (tm.tmYear.toInt + 1900) = date.year := by
      rw [year, toInt_eq (by omega) (by omega)]
    rw [year_word, month, Int.toNat_natCast, monthDays_eq month_lt]
    omega

/-- The two show the same date and time of day. -/
structure SameMoment (a b : Tm) : Prop where
  year : a.tmYear = b.tmYear
  month : a.tmMon = b.tmMon
  day : a.tmMday = b.tmMday
  hour : a.tmHour = b.tmHour
  min : a.tmMin = b.tmMin
  sec : a.tmSec = b.tmSec

/-- The parts of a second. -/
theorem clock_parts {days hour min sec t : Nat} (hour_lt : hour < 24) (min_lt : min < 60)
    (sec_lt : sec < 60) (t_eq : t = days * 86400 + hour * 3600 + min * 60 + sec) :
    t / 86400 = days ∧ (t : Int) % 86400 / 3600 = hour ∧ (t : Int) % 3600 / 60 = min ∧
      (t : Int) % 60 = sec := by
  omega

/-- A valid date since 1970 comes back from the seconds that it stands for. -/
theorem rtcTimeToTm_secondsOf {tm : Tm} (valid : rtcValidTm tm = 0)
    (since : 1970 ≤ tm.tmYear.toInt + 1900) : SameMoment (rtcTimeToTm (secondsOf tm)) tm := by
  rw [rtcValidTm_iff] at valid
  obtain ⟨year_le, month_ok, first, last, hour_ok, min_ok, sec_ok⟩ := valid
  obtain ⟨year, year_eq⟩ := Int.eq_ofNat_of_zero_le (show 0 ≤ tm.tmYear.toInt + 1900 by omega)
  obtain ⟨month, month_eq⟩ := Int.eq_ofNat_of_zero_le month_ok.1
  obtain ⟨day, day_eq⟩ := Int.eq_ofNat_of_zero_le (show 0 ≤ tm.tmMday.toInt by omega)
  obtain ⟨hour, hour_eq⟩ := Int.eq_ofNat_of_zero_le hour_ok.1
  obtain ⟨min, min_eq⟩ := Int.eq_ofNat_of_zero_le min_ok.1
  obtain ⟨sec, sec_eq⟩ := Int.eq_ofNat_of_zero_le sec_ok.1
  have month_lt : month < 12 := by omega
  rw [year_eq, month_eq, toInt_eq (by omega) (by omega), Int.toNat_natCast,
    monthDays_eq month_lt, day_eq] at last
  -- The date that `tm` shows.
  obtain ⟨date, date_eq⟩ : ∃ date : Date, date = ⟨year, month, day, month_lt, by omega, by omega⟩ :=
    ⟨_, rfl⟩
  have short := daysIn_le year month
  have lower := date.le_number
  have upper := date.number_lt
  have epoch_year : beforeYear 1970 = 719528 := beforeYear_eq 1969
  have last_year : beforeYear 2100 = 767010 := beforeYear_eq 2099
  have after_epoch := beforeYear_mono (show 1970 ≤ date.year by rw [date_eq]; dsimp only; omega)
  have before_end := beforeYear_mono (show date.year + 1 ≤ 2100 by rw [date_eq]; dsimp only; omega)
  obtain ⟨days, number⟩ := Nat.exists_eq_add_of_le (epoch_year ▸ after_epoch.trans lower)
  have seconds : secondsOf tm = ((days * 86400 + hour * 3600 + min * 60 + sec : Nat) : Int) := by
    have year_word : tm.tmYear.toInt = (date.year : Int) - 1900 := by
      rw [date_eq]
      dsimp only
      omega
    have month_word : tm.tmMon.toInt = date.month := by rw [month_eq, date_eq]
    have day_word : tm.tmMday.toInt = date.day := by rw [day_eq, date_eq]
    rw [secondsOf, toUnsigned_eq (by omega) (by omega), toUnsigned_eq (by omega) (by omega),
      toUnsigned_eq (by omega) (by omega), toUnsigned_eq (by omega) (by omega),
      toUnsigned_eq (by omega) (by omega), toUnsigned_eq (by omega) (by omega), year_word,
      month_word, day_word, hour_eq, min_eq, sec_eq,
      tmToTime_eq date (by omega) (by omega), number]
    omega
  obtain ⟨t, t_eq⟩ : ∃ t, t = days * 86400 + hour * 3600 + min * 60 + sec := ⟨_, rfl⟩
  rw [seconds, ← t_eq]
  obtain ⟨days_eq, hour_back, min_back, sec_back⟩ :=
    clock_parts (by omega) (by omega) (by omega) t_eq
  have day_of : epoch.after (t / 86400) = date := by
    rw [Date.after_eq_iff, epoch_number, days_eq, number]
  obtain ⟨shown_year, shown_month, shown_day, shown_hour, shown_min, shown_sec, -⟩ :=
    rtcTimeToTm_shows (show t < 2 ^ 32 + 32400 by omega)
  rw [day_of, date_eq] at shown_year shown_month shown_day
  dsimp only at shown_year shown_month shown_day
  constructor
  · exact Int32.toInt_inj.mp (add_right_cancel (shown_year.trans year_eq.symm))
  · exact Int32.toInt_inj.mp (shown_month.trans month_eq.symm)
  · exact Int32.toInt_inj.mp (shown_day.trans day_eq.symm)
  · exact Int32.toInt_inj.mp (shown_hour.trans (hour_back.trans hour_eq.symm))
  · exact Int32.toInt_inj.mp (shown_min.trans (min_back.trans min_eq.symm))
  · exact Int32.toInt_inj.mp (shown_sec.trans (sec_back.trans sec_eq.symm))

/-- Every value of the counter, shifted or not, is shown as the calendar has it, valid up to 2099,
and counted back; every valid date since 1970 comes back from its seconds. -/
theorem calendar_exact {t : Nat} (small : t < 2 ^ 32 + 32400) :
    Shows (rtcTimeToTm t) t ∧
    (rtcValidTm (rtcTimeToTm t) = 0 ↔ (rtcTimeToTm t).tmYear.toInt + 1900 ≤ 2099) ∧
    secondsOf (rtcTimeToTm t) = t ∧
    ∀ tm : Tm, rtcValidTm tm = 0 → 1970 ≤ tm.tmYear.toInt + 1900 →
      SameMoment (rtcTimeToTm (secondsOf tm)) tm := by
  have shows_t := rtcTimeToTm_shows small
  refine ⟨shows_t, shows_t.valid_iff, shows_t.secondsOf_eq small, ?_⟩
  intro tm valid since
  exact rtcTimeToTm_secondsOf valid since

/-- The first second of 2100 is no longer valid. -/
theorem calendar_exact_2100 :
    rtcTimeToTm 4102444800 = ⟨0, 0, 0, 1, 0, 200, 5, 1, 0⟩ ∧
      rtcValidTm (rtcTimeToTm 4102444800) ≠ 0 ∧
      secondsOf (rtcTimeToTm 4102444800) = 4102444800 := by
  have shown : rtcTimeToTm 4102444800 = ⟨0, 0, 0, 1, 0, 200, 5, 1, 0⟩ := by decide
  obtain ⟨-, valid_iff, seconds, -⟩ :=
    calendar_exact (show 4102444800 < 2 ^ 32 + 32400 by decide)
  refine ⟨shown, ?_, seconds⟩
  intro valid
  have early := valid_iff.mp valid
  rw [show ((4102444800 : Nat) : Int) = 4102444800 from rfl, shown] at early
  exact absurd early (by decide)

end Rtc
end Xv6Duo
