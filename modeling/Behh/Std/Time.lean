import Behh.Library.Calendar

/-!
# Broken-down times and time zones

The parts of `<ctime>` that the modelled functions call. An instant is a number of seconds from
the beginning of 1970 on, in UTC; the conversions are those of the proleptic Gregorian calendar
without leap seconds, over all integers.

A time zone is a standard offset from UTC together with what daylight saving adds to it at every
instant. `localtime` applies the offset in force. `mktime` is known on two kinds of arguments: it
inverts `localtime`, and it reads a time whose `tm_isdst` is 0 as standard time.

## Main definitions

* `Tm`, `gmtime`, `timegm`: broken-down times, the time in UTC of an instant, and its inverse.
* `TimeZone`: a time zone with its `mktime`.
* `TimeZone.localtime`: the time on the clocks of a zone.

## Main results

* `timegm_gmtime`: `timegm` inverts `gmtime`.
* `gmtime_inRange`: the fields of a broken-down time are in their ranges.
-/

namespace Behh

/-- A `std::tm`. The day of the week and the day of the year are left out. -/
@[ext]
structure Tm where
  /-- Seconds after the minute. -/
  sec : ℤ := 0
  /-- Minutes after the hour. -/
  min : ℤ := 0
  /-- Hours since midnight. -/
  hour : ℤ := 0
  /-- The day of the month, from 1 on. -/
  mday : ℤ := 0
  /-- Months since January. -/
  mon : ℤ := 0
  /-- Years since 1900. -/
  year : ℤ := 0
  /-- Whether daylight saving is in effect. -/
  isdst : ℤ := 0
  deriving DecidableEq

/-- `gmtime`. -/
def gmtime (t : ℤ) : Tm where
  sec := t % 60
  min := t / 60 % 60
  hour := t / 3600 % 24
  mday := (Calendar.ofDayNumber (t / 86400)).day + 1
  mon := (Calendar.ofDayNumber (t / 86400)).month
  year := (Calendar.ofDayNumber (t / 86400)).year - 1900

/-- The instant at which UTC shows `tm`. The fields need not be in their ranges: a month beyond
the year counts for the years behind it, the other fields are added up. -/
def timegm (tm : Tm) : ℤ :=
  86400 * (Calendar.yearStart (tm.year + 1900 + tm.mon / 12) +
      Calendar.monthStart (Calendar.leapYear (tm.year + 1900 + tm.mon / 12)) (tm.mon % 12).toNat +
      (tm.mday - 1)) +
    3600 * tm.hour + 60 * tm.min + tm.sec

/-- The fields of `tm` are in the ranges that they have in the time of an instant. -/
structure Tm.InRange (tm : Tm) : Prop where
  /-- No leap seconds. -/
  sec : 0 ≤ tm.sec ∧ tm.sec < 60
  /-- Sixty minutes. -/
  min : 0 ≤ tm.min ∧ tm.min < 60
  /-- 24 hours. -/
  hour : 0 ≤ tm.hour ∧ tm.hour < 24
  /-- At most 31 days. -/
  mday : 1 ≤ tm.mday ∧ tm.mday ≤ 31
  /-- Twelve months. -/
  mon : 0 ≤ tm.mon ∧ tm.mon < 12

theorem gmtime_inRange (t : ℤ) : (gmtime t).InRange where
  sec := by simp only [gmtime]; omega
  min := by simp only [gmtime]; omega
  hour := by simp only [gmtime]; omega
  mday := by
    have h := (Calendar.ofDayNumber (t / 86400)).day_lt
    simp only [gmtime]
    omega
  mon := by
    have h := (Calendar.ofDayNumber (t / 86400)).month_lt
    simp only [gmtime]
    omega

/-- **Breaking down and putting together.** -/
@[simp] theorem timegm_gmtime (t : ℤ) : timegm (gmtime t) = t := by
  have hday := Calendar.dayNumber_ofDayNumber (t / 86400)
  have hmonth := (Calendar.ofDayNumber (t / 86400)).month_lt
  rw [Calendar.dayNumber] at hday
  have hdiv : ((Calendar.ofDayNumber (t / 86400)).month : ℤ) / 12 = 0 :=
    Int.ediv_eq_zero_of_lt (by omega) (by omega)
  have hmod : ((Calendar.ofDayNumber (t / 86400)).month : ℤ) % 12 =
      (Calendar.ofDayNumber (t / 86400)).month := Int.emod_eq_of_lt (by omega) (by omega)
  simp only [timegm, gmtime, Int.sub_add_cancel, hdiv, hmod, Int.add_zero, Int.toNat_natCast]
  omega

theorem gmtime_injective : Function.Injective gmtime := by
  intro t t' h
  rw [← timegm_gmtime t, h, timegm_gmtime]

/-- From an instant in a year on the years are that year or a later one. -/
theorem le_gmtime_year {y t : ℤ} (h : 86400 * Calendar.yearStart y ≤ t) :
    y - 1900 ≤ (gmtime t).year := by
  have hlt := (Calendar.yearOf_spec (t / 86400)).2
  have hyear : (gmtime t).year = Calendar.yearOf (t / 86400) - 1900 := rfl
  by_contra hyr
  have hle : Calendar.yearStart (Calendar.yearOf (t / 86400) + 1) ≤ Calendar.yearStart y :=
    Calendar.yearStart_mono (by omega)
  omega

/-- Before the first instant of a year the years are earlier. -/
theorem gmtime_year_lt {y t : ℤ} (h : t < 86400 * Calendar.yearStart y) :
    (gmtime t).year < y - 1900 := by
  have hge := (Calendar.yearOf_spec (t / 86400)).1
  have hyear : (gmtime t).year = Calendar.yearOf (t / 86400) - 1900 := rfl
  by_contra hyr
  have hle : Calendar.yearStart y ≤ Calendar.yearStart (Calendar.yearOf (t / 86400)) :=
    Calendar.yearStart_mono (by omega)
  omega

/-- Between 1970 and the end of 9999 years have four digits. -/
theorem gmtime_year {t : ℤ} (hlow : 0 ≤ t) (hhigh : t < 253402300800) :
    70 ≤ (gmtime t).year ∧ (gmtime t).year < 8100 := by
  have hfirst : Calendar.yearStart 1970 = 0 := by decide
  have hend : Calendar.yearStart 10000 = 2932897 := by decide
  constructor
  · exact le_gmtime_year (y := 1970) (by omega)
  · exact gmtime_year_lt (y := 10000) (by omega)

/-! ### Time zones -/

/-- A time zone. -/
structure TimeZone where
  /-- The offset of standard time from UTC, in seconds. -/
  standard : ℤ
  /-- Offsets lie between -12 and +14 hours. -/
  standard_mem : -43200 ≤ standard ∧ standard ≤ 50400
  /-- The seconds that daylight saving adds at an instant. -/
  daylight : ℤ → ℤ
  /-- `mktime`. -/
  mktime : Tm → ℤ
  /-- A time marked as standard time is read as such. -/
  mktime_standard : ∀ tm, tm.isdst = 0 → mktime tm = timegm tm - standard
  /-- `mktime` inverts `localtime`. -/
  mktime_localtime : ∀ t, mktime
    { gmtime (t + standard + daylight t) with isdst := if daylight t = 0 then 0 else 1 } = t

namespace TimeZone

variable (z : TimeZone)

/-- The offset from UTC in force at an instant. -/
def offset (t : ℤ) : ℤ := z.standard + z.daylight t

/-- `localtime`. -/
def localtime (t : ℤ) : Tm :=
  { gmtime (t + z.offset t) with isdst := if z.daylight t = 0 then 0 else 1 }

theorem mktime_localtime_eq (t : ℤ) : z.mktime (z.localtime t) = t := by
  rw [localtime, offset, ← Int.add_assoc, z.mktime_localtime]

/-- `mktime` reads the time in UTC of an instant as standard time. -/
theorem mktime_gmtime (t : ℤ) : z.mktime (gmtime t) = t - z.standard := by
  rw [z.mktime_standard _ rfl, timegm_gmtime]

/-- A zone whose clocks are `saving` seconds ahead of standard time at the instants in `summer`. -/
def ofSaving (standard saving : ℤ) (summer : ℤ → Bool)
    (h : -43200 ≤ standard ∧ standard ≤ 50400) : TimeZone where
  standard := standard
  standard_mem := h
  daylight t := if summer t then saving else 0
  mktime tm := timegm tm - standard - if tm.isdst = 0 then 0 else saving
  mktime_standard tm htm := by rw [if_pos htm, Int.sub_zero]
  mktime_localtime t := by
    have hfields : ∀ tm : Tm, ∀ d : ℤ, timegm { tm with isdst := d } = timegm tm := fun _ _ => rfl
    simp only [hfields, timegm_gmtime]
    by_cases hsummer : summer t = true
    · by_cases hsaving : saving = 0
      · simp [hsaving]
      · simp [hsummer, hsaving]
        omega
    · simp [hsummer]

/-- The zone of UTC. -/
def utc : TimeZone := ofSaving 0 0 (fun _ => false) (by decide)

end TimeZone

end Behh
