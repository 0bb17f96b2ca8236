import Xv6Duo.Errno
import Mathlib.Data.Int.Notation
import Mathlib.Tactic

/-!
# The calendar of the real-time clock

`rtc_time_to_tm`, `tm_to_time` and `rtc_valid_tm` of `kernel/rtc.c`. A C integer of a computation is
an `Int` here; what becomes an `int`, an `unsigned int` or an `unsigned long` is wrapped as the type
does, once for a sum or a product of unsigned terms.
-/

namespace Xv6Duo
namespace Rtc

/-- A value as an `int`. -/
def toInt (x : Int) : Int := x.bmod (2 ^ 32)

/-- A value as an `unsigned int`. -/
def toUnsigned (x : Int) : Int := x % 2 ^ 32

/-- A value as an `unsigned long`. -/
def toUnsignedLong (x : Int) : Int := x % 2 ^ 64

/-- `struct tm`. -/
structure Tm where
  /-- `tm_sec`. -/
  tmSec : Int32
  /-- `tm_min`. -/
  tmMin : Int32
  /-- `tm_hour`. -/
  tmHour : Int32
  /-- `tm_mday`. -/
  tmMday : Int32
  /-- `tm_mon`. -/
  tmMon : Int32
  /-- `tm_year`. -/
  tmYear : Int32
  /-- `tm_wday`. -/
  tmWday : Int32
  /-- `tm_yday`. -/
  tmYday : Int32
  /-- `tm_isdst`. -/
  tmIsdst : Int32
  deriving DecidableEq

/-- `days_in_month`. -/
def daysInMonth : List Int := [31, 28, 31, 30, 31, 30, 31, 31, 30, 31, 30, 31]

/-- `LEAPS_THRU_END_OF` of an unsigned year. -/
def leapsThruEndOf (y : Int) : Int := toUnsigned (y / 4 - y / 100 + y / 400)

/-- `is_leap_year`. -/
def isLeapYear (year : Int) : Bool :=
  (year.tmod 4 == 0 && year.tmod 100 != 0) || year.tmod 400 == 0

/-- `month_days`. -/
def monthDays (month : Nat) (year : Int) : Int :=
  daysInMonth.getD month 0 + if isLeapYear year && month == 1 then 1 else 0

/-- `rtc_valid_tm`. -/
def rtcValidTm (tm : Tm) : Int :=
  if 199 < tm.tmYear.toInt
    ∨ 12 ≤ toUnsigned tm.tmMon.toInt
    ∨ tm.tmMday.toInt < 1
    ∨ monthDays tm.tmMon.toInt.toNat (toInt (tm.tmYear.toInt + 1900)) < tm.tmMday.toInt
    ∨ 24 ≤ toUnsigned tm.tmHour.toInt
    ∨ 60 ≤ toUnsigned tm.tmMin.toInt
    ∨ 60 ≤ toUnsigned tm.tmSec.toInt
  then -einval
  else 0

/-- `tm_to_time`, of unsigned arguments. The sums of the last step fit in a `time_t`. -/
def tmToTime (year0 mon0 day hour min sec : Int) : Int :=
  let mon := toUnsigned (mon0 + 1)
  let year := toUnsigned (year0 + 1900)
  -- 1..12 -> 11,12,1..10
  let mon := toUnsigned (mon - 2)
  let (mon, year) :=
    if 0 ≥ toInt mon then (toUnsigned (mon + 12), toUnsigned (year - 1)) else (mon, year)
  (((toUnsigned (year / 4 - year / 100 + year / 400 + toUnsigned (367 * mon) / 12 + day)
    + toUnsigned (year * 365) - 719499) * 24 + hour) * 60 + min) * 60 + sec

/-- The year and the day of the year, from 0, that `rtc_time_to_tm` finds for the days since
1970. -/
def yearOf (days : Int) : Int × Int :=
  let year := toUnsigned (1970 + days.tdiv 365)
  let days := toInt (days - toUnsigned ((year - 1970) * 365
    + leapsThruEndOf (toUnsigned (year - 1)) - leapsThruEndOf (1970 - 1)))
  if days < 0 then
    let year := toUnsigned (year - 1)
    (year, toInt (days + (365 + if isLeapYear (toInt year) then 1 else 0)))
  else (year, days)

/-- The loop of `rtc_time_to_tm` over the months, with `count` months to try. -/
def monthLoop (year : Int) : Nat → Nat → Int → Nat × Int
  | 0, month, days => (month, days)
  | count + 1, month, days =>
      let newdays := toInt (days - monthDays month year)
      if newdays < 0 then (month, days) else monthLoop year count (month + 1) newdays

/-- `rtc_time_to_tm`. -/
def rtcTimeToTm (time : Int) : Tm :=
  let days := toInt (time.tdiv 86400)
  let secs := toUnsignedLong (time - toUnsigned (days * 86400))
  let wday := (toInt (days + 4)).tmod 7
  let (year, yday) := yearOf days
  let (month, rest) := monthLoop (toInt year) 11 0 yday
  let hour := toInt (secs / 3600)
  let secs := toUnsignedLong (secs - hour * 3600)
  let min := toInt (secs / 60)
  let sec := toInt (toUnsignedLong (secs - min * 60))
  { tmSec := Int32.ofInt sec
    tmMin := Int32.ofInt min
    tmHour := Int32.ofInt hour
    tmMday := Int32.ofInt (rest + 1)
    tmMon := Int32.ofInt month
    tmYear := Int32.ofInt (year - 1900)
    tmWday := Int32.ofInt wday
    tmYday := Int32.ofInt (yday + 1)
    tmIsdst := 0 }

end Rtc
end Xv6Duo
