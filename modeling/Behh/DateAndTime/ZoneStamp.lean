import Behh.DateAndTime.RoundTrip

/-!
# The zone-stamped text

`time_zone::to_string`, lines 34–96 of `src/date_and_time.cc`, writes the time shifted by the offset
and the offset behind it: a sign, two digits for the hours, and `:00`. The sign and the zero in
front of one digit are put together in four branches. Whoever reads the time as UTC and takes the
offset off has the second of the clock reading back, whatever the offset is.

## Main definitions

* `TimeZone.toString`: `time_zone::to_string`.
* `zoneSuffix`, `readSuffix`: the text of an offset, and its reading.
* `readStamp`: the instant that a stamped text denotes.

## Main results

* `toString_eq`: the parts of the text.
* `readStamp_toString`: the text denotes the second of the clock reading.
-/

namespace Behh.DateAndTime.Utc

variable {now timeOffset : ℤ}

/-- `time_zone::to_string`. -/
def TimeZone.toString (now timeOffset : ℤ) (iso8601 : Bool) : Bytes :=
  let timezoneOffset := timezoneOffset timeOffset
  let negativeOrPositive := if timezoneOffset ≥ 0 then str "+" else []
  let digits := intNumeral timezoneOffset
  let utcFormat :=
    if timezoneOffset ≥ 0 ∧ timezoneOffset ≤ 9 then str "0" ++ digits
    else if timezoneOffset ≤ -1 ∧ timezoneOffset ≥ -9 then
      -- `utc_format.insert(1, "0")`
      digits.take 1 ++ str "0" ++ digits.drop 1
    else digits
  let utcFormat := utcFormat ++ str ":00"
  let result := (put (humanFormat iso8601) now timeOffset).text
  if iso8601 then result ++ negativeOrPositive ++ utcFormat
  else result ++ str " " ++ negativeOrPositive ++ utcFormat

/-! ### What the text says -/

/-- The offset of whole hours: a sign, two digits and `:00`. -/
def zoneSuffix (hours : ℤ) : Bytes :=
  (if hours < 0 then str "-" else str "+") ++ padded 2 hours.natAbs ++ str ":00"

/-- Reading a sign, two digits and `:00`. -/
def readSuffix : Bytes → Option ℤ
  | [sign, tens, units, 0x3a, 0x30, 0x30] =>
    if isdigit tens && isdigit units then
      if sign = 0x2b then some (decimal [tens, units])
      else if sign = 0x2d then some (-decimal [tens, units])
      else none
    else none
  | _ => none

/-- The instant that a stamped text denotes, in seconds: the date and the time are read as UTC, and
the offset behind them, with a blank or without, is taken off. -/
def readStamp (iso8601 : Bool) (text : Bytes) : Option ℤ :=
  (getTime (humanFormat iso8601) {} text).bind fun r =>
    (readSuffix (if r.2.head? = some 0x20 then r.2.tail else r.2)).map fun hours =>
      timegm r.1 - 3600 * hours

theorem suffix_eq {hours : ℤ} (h : -12 ≤ hours ∧ hours ≤ 14) :
    (if hours ≥ 0 then str "+" else []) ++
        ((if hours ≥ 0 ∧ hours ≤ 9 then str "0" ++ intNumeral hours
          else if hours ≤ -1 ∧ hours ≥ -9 then
            (intNumeral hours).take 1 ++ str "0" ++ (intNumeral hours).drop 1
          else intNumeral hours) ++ str ":00") = zoneSuffix hours := by
  obtain ⟨hlow, hhigh⟩ := h
  interval_cases hours <;> decide

theorem readSuffix_zoneSuffix {hours : ℤ} (h : -12 ≤ hours ∧ hours ≤ 14) :
    readSuffix (zoneSuffix hours) = some hours ∧ (zoneSuffix hours).head? ≠ some 0x20 := by
  obtain ⟨hlow, hhigh⟩ := h
  interval_cases hours <;> decide

/-- **The parts of the text**: the shifted time, a blank unless the letter is asked for, and the
offset. -/
theorem toString_eq (now timeOffset : ℤ) (iso8601 : Bool) :
    TimeZone.toString now timeOffset iso8601 =
      strftime (offsetTime now timeOffset) (humanFormat iso8601) ++
        ((if iso8601 then [] else str " ") ++ zoneSuffix (timezoneOffset timeOffset)) := by
  have hsuffix := suffix_eq (timezoneOffset_mem timeOffset)
  rw [← hsuffix, ← put_text]
  cases iso8601 with
  | true => simp only [TimeZone.toString, if_true, List.nil_append, List.append_assoc]
  | false =>
    simp only [TimeZone.toString, Bool.false_eq_true, if_false, List.append_assoc]

/-- **The stamped text denotes the second of the clock reading.** From the second day of the epoch
on, as long as the year shown has four digits, the text is the shifted time, an optional blank and
the clamped offset with two digits, and the time less the offset is the second of the clock
reading, whatever offset was asked for. -/
theorem readStamp_toString (hlow : 86400000000000 ≤ now)
    (hyear : (offsetTime now timeOffset).year + 1900 ≤ 9999) (iso8601 : Bool) :
    timezoneOffset timeOffset = max (-12) (min timeOffset 14) ∧
      TimeZone.toString now timeOffset iso8601 =
        strftime (offsetTime now timeOffset) (humanFormat iso8601) ++
          ((if iso8601 then [] else str " ") ++ zoneSuffix (timezoneOffset timeOffset)) ∧
      readStamp iso8601 (TimeZone.toString now timeOffset iso8601) = some (now / 1000000000) := by
  have htext := toString_eq now timeOffset iso8601
  refine ⟨timezoneOffset_eq timeOffset, htext, ?_⟩
  have hoffset := timezoneOffset_mem timeOffset
  have hseconds := toTimeT_of_nonneg (show 0 ≤ now by omega)
  have hfirst : Calendar.yearStart 1970 = 0 := by decide
  have hstart : 1970 - 1900 ≤ (offsetTime now timeOffset).year :=
    le_gmtime_year (y := 1970) (by omega)
  have hrange : (offsetTime now timeOffset).InRange := gmtime_inRange _
  have hreadable : ∀ f : Field, f.Readable (offsetTime now timeOffset) := fun f =>
    f.readable hrange (by omega) (by omega)
  have hinto : readInto (offsetTime now timeOffset) (directives (humanFormat iso8601)) {} =
      offsetTime now timeOffset := readInto_humanFormat _ iso8601
  have hread : getTime (humanFormat iso8601) {} (TimeZone.toString now timeOffset iso8601) =
      some (offsetTime now timeOffset,
        (if iso8601 then [] else str " ") ++ zoneSuffix (timezoneOffset timeOffset)) := by
    rw [htext, getTime_strftime (by omega), hinto]
    · exact fun f _ => hreadable f
    · cases iso8601 <;> decide
    · cases iso8601 <;> decide
  obtain ⟨hsuffix, hblank⟩ := readSuffix_zoneSuffix hoffset
  have hrest : readSuffix
      (if ((if iso8601 then [] else str " ") ++
          zoneSuffix (timezoneOffset timeOffset)).head? = some 0x20 then
        ((if iso8601 then [] else str " ") ++ zoneSuffix (timezoneOffset timeOffset)).tail
      else (if iso8601 then [] else str " ") ++ zoneSuffix (timezoneOffset timeOffset)) =
        some (timezoneOffset timeOffset) := by
    cases iso8601 with
    | true => simpa only [if_true, List.nil_append, if_neg hblank] using hsuffix
    | false => exact hsuffix
  rw [readStamp, hread, Option.bind_some, hrest, Option.map_some, offsetTime, timegm_gmtime,
    hseconds]
  congr 1
  omega

/-- A text made three hours behind UTC. -/
theorem readStamp_toString_july :
    timezoneOffset (-3) = max (-12) (min (-3) 14) ∧
      TimeZone.toString 1720915200123456789 (-3) true =
        strftime (offsetTime 1720915200123456789 (-3)) (humanFormat true) ++
          ((if true then [] else str " ") ++ zoneSuffix (timezoneOffset (-3))) ∧
      readStamp true (TimeZone.toString 1720915200123456789 (-3) true) =
        some (1720915200123456789 / 1000000000) :=
  readStamp_toString (by decide) (by decide) true

end Behh.DateAndTime.Utc
