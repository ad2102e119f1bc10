import Behh.Std.TimeText

/-!
# Dates and times in UTC

The functions of `date_and_time_functions`. What the clock shows is a parameter: `now` is the
count of nanoseconds that `system_clock::now()` returns, so evaluating several functions at the
same instant is applying them to the same `now`. A sum or a product of 64-bit counts that
overflows is no outcome (`checked`); a conversion of a text to a number that throws is none
either. The divisions of `std::chrono` truncate toward zero.

The functions of one kind have the same body up to the format, the unit and the name of the
namespace. Each body is written once, with these as parameters.

## Main definitions

* `localTimezone`: the offset of the machine's time zone in hours.
* `offsetTime`, `put`: the shifted time, and how it is written.
* `toMillisOf`, `toMillisNowOf`, `toMillisStringOf`: texts from counts and counts from texts.
* `Year`, `Month`, `Day`, `Hour`, `Minute`, `Second`, `YYYYMMDD`, `hhmmss`, `YYYYMMDDhhmmss`,
  `YYYYMMDDhhmmssms`, `YYYYMMDDhhmmssus`, `YYYYMMDDhhmmssns`: the namespaces of the source.
* `Precision`: the last four namespaces as one family.
-/

namespace Behh.DateAndTime

/-- A result of 64-bit arithmetic; an overflow has no outcome. -/
def checked (n : ℤ) : Option ℤ := if -2 ^ 63 ≤ n ∧ n < 2 ^ 63 then some n else none

/-- `static_cast<int32_t>`. -/
def toInt32 (n : ℤ) : ℤ := n.bmod (2 ^ 32)

/-- `local_timezone()`. `std::time` counts whole seconds, rounded down. -/
def localTimezone (z : TimeZone) (now : ℤ) : ℤ :=
  let now := now / 1000000000
  let utcTime := gmtime now
  let localTime := z.localtime now
  let utcTimeT := z.mktime utcTime
  let localTimeT := z.mktime localTime
  let offset := toInt32 (localTimeT - utcTimeT)
  offset.tdiv 3600

namespace Utc

/-! ### The shifted time -/

/-- `system_clock::to_time_t`. -/
def toTimeT (now : ℤ) : ℤ := now.tdiv 1000000000

/-- The offset in hours that is used for `time_offset`. -/
def timezoneOffset (timeOffset : ℤ) : ℤ :=
  let timezoneOffset := if timeOffset ≤ -12 then -12 else timeOffset
  if timezoneOffset ≥ 14 then 14 else timezoneOffset

/-- `tm_buf`, broken down after the shift. -/
def offsetTime (now timeOffset : ℤ) : Tm :=
  gmtime (toTimeT now + timezoneOffset timeOffset * 3600)

/-- `ss << std::put_time(&tm_buf, fmt)`. -/
def put (fmt : Bytes) (now timeOffset : ℤ) : OStream :=
  ({} : OStream).putTime (offsetTime now timeOffset) fmt

/-- The zero in front of a text of two digits is erased. -/
def eraseZero (s : Bytes) : Bytes := if s.head? = some 0x30 then s.tail else s

/-- The number returned by `std::stoi`, `std::stol` or `std::stoll`. -/
def number (parsed : Option (ℤ × ℕ)) : Option ℤ := parsed.map Prod.fst

/-- The fraction of the second in units of which `perSecond` make a second:
`time_point_cast<unit>(now).time_since_epoch() % seconds(1)`. -/
def fraction (perSecond now : ℤ) : ℤ := (now.tdiv (1000000000 / perSecond)).tmod perSecond

/-- `<< std::setw(width) << std::setfill('0') << fraction.count()`. -/
def putFraction (perSecond : ℤ) (width : ℕ) (now : ℤ) (o : OStream) : OStream :=
  ((o.setw width).setfill 0x30).putInt64 (fraction perSecond now)

/-- The format of the human readable forms. -/
def humanFormat (useTimeSign : Bool) : Bytes :=
  if useTimeSign then str "%Y-%m-%dT%H:%M:%S" else str "%Y-%m-%d %H:%M:%S"

/-- The raw form of the time `secondsOffset` seconds after the clock reading. -/
def putSecondsOffset (now secondsOffset : ℤ) : Option OStream :=
  (checked (now + secondsOffset * 1000000000)).map fun futureTime =>
    ({} : OStream).putTime (gmtime (toTimeT futureTime)) (str "%Y%m%d%H%M%S")

/-! ### Counts -/

/-- The body of the functions `to_millis`: an exception when the text cannot be parsed, else the
count of units from the epoch on. The namespace's name is part of the message. -/
def toMillisOf (perSecond : ℤ) (name : Bytes) (z : TimeZone) (text : Bytes) :
    Option (Except Bytes ℤ) :=
  let fmt := if 0x54 ∈ text then str "%Y-%m-%dT%H:%M:%S" else str "%Y-%m-%d %H:%M:%S"
  match getTime fmt {} text with
  | none => some (.error (str "ERROR " ++ name ++ str ": Failed to parse time string"))
  | some (time, _) =>
    let timeSinceEpoch := z.mktime time
    (checked (timeSinceEpoch * 1000000000)).map fun tp => .ok (tp.tdiv (1000000000 / perSecond))

/-- The body of the functions `to_millis_now`. -/
def toMillisNowOf (perSecond now timeOffset : ℤ) : Option ℤ :=
  let timezoneOffset := max (-12) (min timeOffset 14)
  (checked (now + timezoneOffset * 3600 * 1000000000)).map fun adjusted =>
    adjusted.tdiv (1000000000 / perSecond)

/-- The point in time of a count of units. -/
def timePoint (perSecond count : ℤ) : Option ℤ := checked (count * (1000000000 / perSecond))

/-- The date and time of a point in time, as `to_millis_string` writes it. -/
def putTimePoint (tp : ℤ) (useTimeSign : Bool) : OStream :=
  ({} : OStream).putTime (gmtime (toTimeT tp)) (humanFormat useTimeSign)

/-- The body of the functions `to_millis_string` that write a fraction. -/
def toMillisStringOf (perSecond : ℤ) (width : ℕ) (count : ℤ) (useTimeSign : Bool) :
    Option Bytes :=
  (timePoint perSecond count).map fun tp =>
    ((((putTimePoint tp useTimeSign).putText (str ".")).setfill 0x30).setw width
      |>.putInt64 (fraction perSecond tp)).text

/-! ### Parts of the date and of the time of day -/

/-- The namespaces `month`, `day`, `hour`, `minute` and `second`: a number without the zero in
front of it. -/
def partToInt (fmt : Bytes) (now timeOffset : ℤ) : Option ℤ :=
  number (stoi (eraseZero (put fmt now timeOffset).text))

/-- The text of `partToInt`. -/
def partToString (fmt : Bytes) (now timeOffset : ℤ) : Bytes :=
  eraseZero (put fmt now timeOffset).text

namespace Year

/-- `year::to_int`. -/
def toInt (now timeOffset : ℤ) : Option ℤ := number (stoi (put (str "%Y") now timeOffset).text)

/-- `year::to_string`. -/
def toString (now timeOffset : ℤ) : Bytes := (put (str "%Y") now timeOffset).text

end Year

namespace Month

/-- `month::to_int`. -/
def toInt (now timeOffset : ℤ) : Option ℤ := partToInt (str "%m") now timeOffset

/-- `month::to_string`. -/
def toString (now timeOffset : ℤ) : Bytes := partToString (str "%m") now timeOffset

end Month

namespace Day

/-- `day::to_int`. -/
def toInt (now timeOffset : ℤ) : Option ℤ := partToInt (str "%d") now timeOffset

/-- `day::to_string`. -/
def toString (now timeOffset : ℤ) : Bytes := partToString (str "%d") now timeOffset

end Day

namespace Hour

/-- `hour::to_int`. -/
def toInt (now timeOffset : ℤ) : Option ℤ := partToInt (str "%H") now timeOffset

/-- `hour::to_string`. -/
def toString (now timeOffset : ℤ) : Bytes := partToString (str "%H") now timeOffset

end Hour

namespace Minute

/-- `minute::to_int`. -/
def toInt (now timeOffset : ℤ) : Option ℤ := partToInt (str "%M") now timeOffset

/-- `minute::to_string`. -/
def toString (now timeOffset : ℤ) : Bytes := partToString (str "%M") now timeOffset

end Minute

namespace Second

/-- `second::to_int`. -/
def toInt (now timeOffset : ℤ) : Option ℤ := partToInt (str "%S") now timeOffset

/-- `second::to_string`. -/
def toString (now timeOffset : ℤ) : Bytes := partToString (str "%S") now timeOffset

end Second

namespace YYYYMMDD

/-- `YYYYMMDD::to_int`. -/
def toInt (now timeOffset : ℤ) : Option ℤ :=
  number (stoi (put (str "%Y%m%d") now timeOffset).text)

/-- `YYYYMMDD::to_string`. -/
def toString (now timeOffset : ℤ) : Bytes := (put (str "%Y%m%d") now timeOffset).text

/-- `YYYYMMDD::to_string_iso8601`. -/
def toStringIso8601 (now timeOffset : ℤ) : Bytes := (put (str "%Y-%m-%d") now timeOffset).text

end YYYYMMDD

namespace hhmmss

/-- `hhmmss::to_int`: the `long` that `std::stol` returns is converted to 32 bits. -/
def toInt (now timeOffset : ℤ) : Option ℤ :=
  (number (stoll (put (str "%H%M%S") now timeOffset).text)).map toInt32

/-- `hhmmss::to_string`. -/
def toString (now timeOffset : ℤ) : Bytes := (put (str "%H%M%S") now timeOffset).text

/-- `hhmmss::to_string_human`. -/
def toStringHuman (now timeOffset : ℤ) : Bytes := (put (str "%H:%M:%S") now timeOffset).text

end hhmmss

/-! ### Dates with the time of day -/

namespace YYYYMMDDhhmmss

/-- `YYYYMMDDhhmmss::to_int64`. -/
def toInt64 (now timeOffset : ℤ) : Option ℤ :=
  number (stoll (put (str "%Y%m%d%H%M%S") now timeOffset).text)

/-- `YYYYMMDDhhmmss::to_millis`. -/
def toMillis (z : TimeZone) (text : Bytes) : Option (Except Bytes ℤ) :=
  toMillisOf 1000 (str "YYYYMMDDhhmmss") z text

/-- `YYYYMMDDhhmmss::to_millis_now`. -/
def toMillisNow (now timeOffset : ℤ) : Option ℤ := toMillisNowOf 1000 now timeOffset

/-- `YYYYMMDDhhmmss::to_millis_string`: the fraction of the second is left out. -/
def toMillisString (count : ℤ) (useTimeSign : Bool) : Option Bytes :=
  (timePoint 1000 count).map fun tp => (putTimePoint tp useTimeSign).text

/-- `YYYYMMDDhhmmss::to_string`. -/
def toString (now timeOffset : ℤ) : Bytes := (put (str "%Y%m%d%H%M%S") now timeOffset).text

/-- `YYYYMMDDhhmmss::to_string_human`. -/
def toStringHuman (now timeOffset : ℤ) (useTimeSign : Bool) : Bytes :=
  (put (humanFormat useTimeSign) now timeOffset).text

/-- `YYYYMMDDhhmmss::to_string_seconds_offset`. -/
def toStringSecondsOffset (now secondsOffset : ℤ) : Option Bytes :=
  (putSecondsOffset now secondsOffset).map OStream.text

end YYYYMMDDhhmmss

/-- The body of the functions `to_string` that write a fraction. -/
def toStringOf (perSecond : ℤ) (width : ℕ) (now timeOffset : ℤ) : Bytes :=
  (putFraction perSecond width now (put (str "%Y%m%d%H%M%S") now timeOffset)).text

/-- The body of the functions `to_string_human` that write a fraction. -/
def toStringHumanOf (perSecond : ℤ) (width : ℕ) (now timeOffset : ℤ) (useTimeSign : Bool) :
    Bytes :=
  (putFraction perSecond width now
    ((put (humanFormat useTimeSign) now timeOffset).putText (str "."))).text

/-- The body of the functions `to_string_second_offset`: the fraction is that of the clock
reading. -/
def toStringSecondOffsetOf (perSecond : ℤ) (width : ℕ) (now secondsOffset : ℤ) : Option Bytes :=
  (putSecondsOffset now secondsOffset).map fun ss => (putFraction perSecond width now ss).text

namespace YYYYMMDDhhmmssms

/-- `YYYYMMDDhhmmssms::to_int64`. -/
def toInt64 (now timeOffset : ℤ) : Option ℤ := number (stoll (toStringOf 1000 3 now timeOffset))

/-- `YYYYMMDDhhmmssms::to_millis`. -/
def toMillis (z : TimeZone) (text : Bytes) : Option (Except Bytes ℤ) :=
  toMillisOf 1000 (str "YYYYMMDDhhmmssms") z text

/-- `YYYYMMDDhhmmssms::to_millis_now`. -/
def toMillisNow (now timeOffset : ℤ) : Option ℤ := toMillisNowOf 1000 now timeOffset

/-- `YYYYMMDDhhmmssms::to_millis_string`. -/
def toMillisString (count : ℤ) (useTimeSign : Bool) : Option Bytes :=
  toMillisStringOf 1000 3 count useTimeSign

/-- `YYYYMMDDhhmmssms::to_string`. -/
def toString (now timeOffset : ℤ) : Bytes := toStringOf 1000 3 now timeOffset

/-- `YYYYMMDDhhmmssms::to_string_human`. -/
def toStringHuman (now timeOffset : ℤ) (useTimeSign : Bool) : Bytes :=
  toStringHumanOf 1000 3 now timeOffset useTimeSign

/-- `YYYYMMDDhhmmssms::to_string_second_offset`. -/
def toStringSecondOffset (now secondsOffset : ℤ) : Option Bytes :=
  toStringSecondOffsetOf 1000 3 now secondsOffset

end YYYYMMDDhhmmssms

namespace YYYYMMDDhhmmssus

/-- `YYYYMMDDhhmmssus::to_millis`. -/
def toMillis (z : TimeZone) (text : Bytes) : Option (Except Bytes ℤ) :=
  toMillisOf 1000000 (str "YYYYMMDDhhmmssus") z text

/-- `YYYYMMDDhhmmssus::to_millis_now`. -/
def toMillisNow (now timeOffset : ℤ) : Option ℤ := toMillisNowOf 1000000 now timeOffset

/-- `YYYYMMDDhhmmssus::to_millis_string`. -/
def toMillisString (count : ℤ) (useTimeSign : Bool) : Option Bytes :=
  toMillisStringOf 1000000 6 count useTimeSign

/-- `YYYYMMDDhhmmssus::to_string`. -/
def toString (now timeOffset : ℤ) : Bytes := toStringOf 1000000 6 now timeOffset

/-- `YYYYMMDDhhmmssus::to_string_human`. -/
def toStringHuman (now timeOffset : ℤ) (useTimeSign : Bool) : Bytes :=
  toStringHumanOf 1000000 6 now timeOffset useTimeSign

/-- `YYYYMMDDhhmmssus::to_string_second_offset`. -/
def toStringSecondOffset (now secondsOffset : ℤ) : Option Bytes :=
  toStringSecondOffsetOf 1000000 6 now secondsOffset

end YYYYMMDDhhmmssus

namespace YYYYMMDDhhmmssns

/-- `YYYYMMDDhhmmssns::to_millis`. -/
def toMillis (z : TimeZone) (text : Bytes) : Option (Except Bytes ℤ) :=
  toMillisOf 1000000000 (str "YYYYMMDDhhmmssns") z text

/-- `YYYYMMDDhhmmssns::to_millis_now`. -/
def toMillisNow (now timeOffset : ℤ) : Option ℤ := toMillisNowOf 1000000000 now timeOffset

/-- `YYYYMMDDhhmmssns::to_millis_string`. -/
def toMillisString (count : ℤ) (useTimeSign : Bool) : Option Bytes :=
  toMillisStringOf 1000000000 9 count useTimeSign

/-- `YYYYMMDDhhmmssns::to_string`. -/
def toString (now timeOffset : ℤ) : Bytes := toStringOf 1000000000 9 now timeOffset

/-- `YYYYMMDDhhmmssns::to_string_human`. -/
def toStringHuman (now timeOffset : ℤ) (useTimeSign : Bool) : Bytes :=
  toStringHumanOf 1000000000 9 now timeOffset useTimeSign

/-- `YYYYMMDDhhmmssns::to_string_second_offset`. -/
def toStringSecondOffset (now secondsOffset : ℤ) : Option Bytes :=
  toStringSecondOffsetOf 1000000000 9 now secondsOffset

end YYYYMMDDhhmmssns

/-! ### The four precisions -/

/-- The namespaces for dates with the time of day. -/
inductive Precision where
  | seconds | milliseconds | microseconds | nanoseconds
  deriving DecidableEq

namespace Precision

/-- How many of the units that `to_millis` counts in make a second. The first namespace counts
milliseconds. -/
def perSecond : Precision → ℤ
  | seconds => 1000
  | milliseconds => 1000
  | microseconds => 1000000
  | nanoseconds => 1000000000

/-- `to_millis`. -/
def toMillis : Precision → TimeZone → Bytes → Option (Except Bytes ℤ)
  | seconds => YYYYMMDDhhmmss.toMillis
  | milliseconds => YYYYMMDDhhmmssms.toMillis
  | microseconds => YYYYMMDDhhmmssus.toMillis
  | nanoseconds => YYYYMMDDhhmmssns.toMillis

/-- `to_millis_now`. -/
def toMillisNow : Precision → ℤ → ℤ → Option ℤ
  | seconds => YYYYMMDDhhmmss.toMillisNow
  | milliseconds => YYYYMMDDhhmmssms.toMillisNow
  | microseconds => YYYYMMDDhhmmssus.toMillisNow
  | nanoseconds => YYYYMMDDhhmmssns.toMillisNow

/-- `to_millis_string`. -/
def toMillisString : Precision → ℤ → Bool → Option Bytes
  | seconds => YYYYMMDDhhmmss.toMillisString
  | milliseconds => YYYYMMDDhhmmssms.toMillisString
  | microseconds => YYYYMMDDhhmmssus.toMillisString
  | nanoseconds => YYYYMMDDhhmmssns.toMillisString

/-- `to_string`. -/
def toString : Precision → ℤ → ℤ → Bytes
  | seconds => YYYYMMDDhhmmss.toString
  | milliseconds => YYYYMMDDhhmmssms.toString
  | microseconds => YYYYMMDDhhmmssus.toString
  | nanoseconds => YYYYMMDDhhmmssns.toString

/-- `to_string_human`. -/
def toStringHuman : Precision → ℤ → ℤ → Bool → Bytes
  | seconds => YYYYMMDDhhmmss.toStringHuman
  | milliseconds => YYYYMMDDhhmmssms.toStringHuman
  | microseconds => YYYYMMDDhhmmssus.toStringHuman
  | nanoseconds => YYYYMMDDhhmmssns.toStringHuman

/-- `to_string_seconds_offset` and `to_string_second_offset`. -/
def toStringSecondsOffset : Precision → ℤ → ℤ → Option Bytes
  | seconds => YYYYMMDDhhmmss.toStringSecondsOffset
  | milliseconds => YYYYMMDDhhmmssms.toStringSecondOffset
  | microseconds => YYYYMMDDhhmmssus.toStringSecondOffset
  | nanoseconds => YYYYMMDDhhmmssns.toStringSecondOffset

end Precision

end Utc

end Behh.DateAndTime
