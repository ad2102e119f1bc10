import Behh.DateAndTime.BeforeEpoch
import Mathlib.Data.List.Nodup

/-!
# The texts of clock readings

The texts of `to_string` and `to_string_human` of one offset are in the order of the clock readings
they were made at, up to the unit of the namespace: readings in the same unit give the same text.
The functions `to_string_seconds_offset` and `to_string_second_offset` give the text of the reading
that is so many seconds away.

`month::to_string_human` names the month in one of two languages.

## Main definitions

* `Precision.resolution`: the nanoseconds in the last digit of a text.
* `Month.toStringHuman`: the name of the month.

## Main results

* `clockTexts_lt_iff`: the order of the texts.
* `toStringSecondsOffset_shift`: the text of a reading some seconds away.
* `toStringHuman_eq_iff`: the names tell the months apart.
-/

namespace Behh.DateAndTime.Utc

variable {P : Precision} {now now' timeOffset : ℤ}

/-! ### The order -/

/-- The nanoseconds that the last digit of a text stands for. -/
def Precision.resolution : Precision → ℤ
  | seconds => 1000000000
  | milliseconds => 1000000
  | microseconds => 1000
  | nanoseconds => 1

/-- Behind the second, the digits of a text. -/
def Precision.fractionText (P : Precision) (now : ℤ) : Bytes :=
  if P = seconds then []
  else padded P.fractionDigits (now / P.resolution % 10 ^ P.fractionDigits).toNat

theorem Precision.resolution_spec (P : Precision) :
    0 < P.resolution ∧ P.resolution * 10 ^ P.fractionDigits = 1000000000 := by
  cases P <;> decide

theorem Precision.div_resolution (P : Precision) (now : ℤ) :
    now / P.resolution / 10 ^ P.fractionDigits = now / 1000000000 := by
  rw [Int.ediv_ediv_of_nonneg P.resolution_spec.1.le, P.resolution_spec.2]

theorem earlierFields_filter {tm tm' : Tm} {ds : List Directive} :
    EarlierFields tm tm' (ds.filter (Directive.kept fun _ => false)) ↔
      EarlierFields tm tm' ds := by
  induction ds with
  | nil => rfl
  | cons d ds ih =>
    cases d with
    | field f =>
      rw [List.filter_cons_of_pos rfl, EarlierFields, EarlierFields, ih]
    | literal c =>
      rw [List.filter_cons_of_neg Bool.false_ne_true, ih, EarlierFields]

/-- A format of the date and the time of day, with or without separators. -/
def IsClockFormat (fmt : Bytes) : Prop :=
  (directives fmt).filter (Directive.kept fun _ => false) = directives (str "%Y%m%d%H%M%S")

theorem isClockFormat_raw : IsClockFormat (str "%Y%m%d%H%M%S") := rfl

theorem isClockFormat_human (useTimeSign : Bool) : IsClockFormat (humanFormat useTimeSign) := by
  cases useTimeSign <;> rfl

/-- The second in a format, and the digits behind it. -/
def Precision.clockText (P : Precision) (fmt sep : Bytes) (now timeOffset : ℤ) : Bytes :=
  strftime (offsetTime now timeOffset) fmt ++ (sep ++ P.fractionText now)

theorem clockText_lt {fmt : Bytes} (hfmt : IsClockFormat fmt) (sep : Bytes)
    (hlow : 86400000000000 ≤ now) (hhigh : now < 253402214400000000000)
    (hlow' : 86400000000000 ≤ now') (hhigh' : now' < 253402214400000000000)
    (hlt : now / P.resolution < now' / P.resolution) :
    P.clockText fmt sep now timeOffset < P.clockText fmt sep now' timeOffset := by
  have hpos : (0 : ℤ) < 10 ^ P.fractionDigits := by positivity
  have hdiv := P.div_resolution now
  have hdiv' := P.div_resolution now'
  have hle : now / 1000000000 ≤ now' / 1000000000 := by
    rw [← hdiv, ← hdiv']
    exact Int.ediv_le_ediv hpos hlt.le
  rcases hle.lt_or_eq with hsecond | hsecond
  · have htime : toTimeT now + timezoneOffset timeOffset * 3600 <
        toTimeT now' + timezoneOffset timeOffset * 3600 := by
      rw [toTimeT_of_nonneg (by omega), toTimeT_of_nonneg (by omega)]
      omega
    have hearlier := earlierFields_gmtime htime false
    rw [← earlierFields_filter, isClockFormat_human, ← hfmt, earlierFields_filter] at hearlier
    exact flatMap_text_lt (fun f _ => ⟨offsetTime_readable hlow hhigh timeOffset f,
      offsetTime_readable hlow' hhigh' timeOffset f⟩) hearlier _ _
  · -- in the same second the fractions decide
    have htime : offsetTime now timeOffset = offsetTime now' timeOffset := by
      rw [offsetTime, offsetTime, toTimeT_of_nonneg (by omega), toTimeT_of_nonneg (by omega),
        hsecond]
    have hunits : now / P.resolution % 10 ^ P.fractionDigits <
        now' / P.resolution % 10 ^ P.fractionDigits := by
      rw [Int.emod_def, Int.emod_def, hdiv, hdiv', hsecond]
      omega
    have hP : P ≠ .seconds := by
      rintro rfl
      simp only [Precision.fractionDigits, pow_zero, Int.emod_one, lt_self_iff_false] at hunits
    have hdigits : 0 < P.fractionDigits := by
      cases P with
      | seconds => exact absurd rfl hP
      | _ => decide
    have hnonneg := Int.emod_nonneg (now / P.resolution) hpos.ne'
    have hbound := Int.emod_lt_of_pos (now' / P.resolution) hpos
    rw [Precision.clockText, Precision.clockText, htime, Precision.fractionText,
      Precision.fractionText, if_neg hP, if_neg hP]
    refine List.append_left_lt (List.append_left_lt (padded_lt_padded hdigits ?_ (by omega)))
    have hcast : ((10 ^ P.fractionDigits : ℕ) : ℤ) = 10 ^ P.fractionDigits := by push_cast; rfl
    omega

theorem clockText_congr (hlow : 0 ≤ now) (hlow' : 0 ≤ now')
    (h : now / P.resolution = now' / P.resolution) (fmt sep : Bytes) :
    P.clockText fmt sep now timeOffset = P.clockText fmt sep now' timeOffset := by
  have hsecond : now / 1000000000 = now' / 1000000000 := by
    rw [← P.div_resolution now, ← P.div_resolution now', h]
  rw [Precision.clockText, Precision.clockText, offsetTime, offsetTime, toTimeT_of_nonneg hlow,
    toTimeT_of_nonneg hlow', hsecond, Precision.fractionText, Precision.fractionText, h]

theorem clockText_lt_iff {fmt : Bytes} (hfmt : IsClockFormat fmt) (sep : Bytes)
    (hlow : 86400000000000 ≤ now) (hhigh : now < 253402214400000000000)
    (hlow' : 86400000000000 ≤ now') (hhigh' : now' < 253402214400000000000) :
    P.clockText fmt sep now timeOffset < P.clockText fmt sep now' timeOffset ↔
      now / P.resolution < now' / P.resolution := by
  rcases Int.lt_trichotomy (now / P.resolution) (now' / P.resolution) with hlt | heq | hgt
  · exact iff_of_true (clockText_lt hfmt sep hlow hhigh hlow' hhigh' hlt) hlt
  · rw [clockText_congr (by omega) (by omega) heq]
    exact iff_of_false (List.lt_irrefl _) (by omega)
  · exact iff_of_false (List.lt_asymm (clockText_lt hfmt sep hlow' hhigh' hlow hhigh hgt))
      (by omega)

theorem putFraction_eq (hP : P ≠ .seconds) (hlow : 0 ≤ now) (o : OStream) (hhex : o.hex = false)
    (hupper : o.uppercase = false) :
    (putFraction P.perSecond P.fractionDigits now o).text = o.text ++ P.fractionText now := by
  have hunit : 1000000000 / P.perSecond = P.resolution ∧ P.perSecond = 10 ^ P.fractionDigits := by
    cases P with
    | seconds => exact absurd rfl hP
    | _ => exact ⟨rfl, rfl⟩
  rw [putFraction_text hlow P.perSecond_pos _ _ hhex hupper, Precision.fractionText, if_neg hP,
    hunit.1, hunit.2]

theorem toString_eq_clockText (P : Precision) (hlow : 0 ≤ now) (timeOffset : ℤ) :
    P.toString now timeOffset = P.clockText (str "%Y%m%d%H%M%S") [] now timeOffset := by
  have hfamily : P ≠ .seconds → P.toString now timeOffset =
      (putFraction P.perSecond P.fractionDigits now
        (put (str "%Y%m%d%H%M%S") now timeOffset)).text := by
    intro hP
    cases P with
    | seconds => exact absurd rfl hP
    | _ => rfl
  by_cases hP : P = .seconds
  · subst hP
    rw [Precision.clockText, Precision.fractionText, if_pos rfl, List.append_nil, List.append_nil]
    exact put_text _ _ _
  · rw [hfamily hP, putFraction_eq hP hlow _ rfl rfl, put_text]
    rfl

theorem toStringHuman_eq_clockText (P : Precision) (hlow : 0 ≤ now) (timeOffset : ℤ)
    (useTimeSign : Bool) :
    P.toStringHuman now timeOffset useTimeSign = P.clockText (humanFormat useTimeSign)
      (if P = .seconds then [] else str ".") now timeOffset := by
  have hfamily : P ≠ .seconds → P.toStringHuman now timeOffset useTimeSign =
      (putFraction P.perSecond P.fractionDigits now
        ((put (humanFormat useTimeSign) now timeOffset).putText (str "."))).text := by
    intro hP
    cases P with
    | seconds => exact absurd rfl hP
    | _ => rfl
  by_cases hP : P = .seconds
  · subst hP
    rw [Precision.clockText, Precision.fractionText, if_pos rfl, if_pos rfl, List.append_nil,
      List.append_nil]
    exact put_text _ _ _
  · rw [hfamily hP, putFraction_eq hP hlow _ rfl rfl, OStream.putText_text rfl, put_text, if_neg hP,
      List.append_assoc]
    rfl

/-- **The order of the texts.** In the four precisions, and for two clock readings from 2 January
1970 to 30 December 9999 with the same offset, the texts of `to_string` and of `to_string_human`
are in the order of the readings, counted in the unit of the last digit. -/
theorem clockTexts_lt_iff (P : Precision) (timeOffset : ℤ) (useTimeSign : Bool)
    (hlow : 86400000000000 ≤ now) (hhigh : now < 253402214400000000000)
    (hlow' : 86400000000000 ≤ now') (hhigh' : now' < 253402214400000000000) :
    (P.toString now timeOffset < P.toString now' timeOffset ↔
        now / P.resolution < now' / P.resolution) ∧
      (P.toStringHuman now timeOffset useTimeSign < P.toStringHuman now' timeOffset useTimeSign ↔
        now / P.resolution < now' / P.resolution) := by
  rw [toString_eq_clockText P (by omega), toString_eq_clockText P (by omega),
    toStringHuman_eq_clockText P (by omega), toStringHuman_eq_clockText P (by omega)]
  exact ⟨clockText_lt_iff isClockFormat_raw _ hlow hhigh hlow' hhigh',
    clockText_lt_iff (isClockFormat_human useTimeSign) _ hlow hhigh hlow' hhigh'⟩

/-- Two readings on both sides of the end of a year, in an offset in which it is not the end. -/
theorem clockTexts_lt_newYear :
    (Precision.milliseconds.toString 1735689599999000000 7 <
        Precision.milliseconds.toString 1735689600000000000 7 ↔
      (1735689599999000000 : ℤ) / 1000000 < 1735689600000000000 / 1000000) ∧
    (Precision.milliseconds.toStringHuman 1735689599999000000 7 true <
        Precision.milliseconds.toStringHuman 1735689600000000000 7 true ↔
      (1735689599999000000 : ℤ) / 1000000 < 1735689600000000000 / 1000000) :=
  clockTexts_lt_iff .milliseconds 7 true (by decide) (by decide) (by decide) (by decide)

/-! ### Readings some seconds away -/

/-- The fraction of a second is that of the reading any whole number of seconds away. -/
theorem fractionText_add (P : Precision) (now seconds : ℤ) :
    P.fractionText (now + seconds * 1000000000) = P.fractionText now := by
  obtain ⟨hpos, hsplit⟩ := P.resolution_spec
  have hshift : now + seconds * 1000000000 =
      now + seconds * 10 ^ P.fractionDigits * P.resolution := by
    rw [← hsplit]
    ring
  rw [Precision.fractionText, Precision.fractionText, hshift,
    Int.add_mul_ediv_right _ _ hpos.ne', Int.add_mul_emod_self_right]

/-- **Texts of readings some seconds away.** In the four precisions, and for every clock reading
from the epoch on: the functions have an outcome exactly when the shifted reading is one of the
clock's, and from the epoch on the outcome is the text of `to_string` for the shifted reading in
UTC. -/
theorem toStringSecondsOffset_shift (P : Precision) (seconds : ℤ) (hlow : 0 ≤ now) :
    (P.toStringSecondsOffset now seconds = none ↔
        ¬(-2 ^ 63 ≤ now + seconds * 1000000000 ∧ now + seconds * 1000000000 < 2 ^ 63)) ∧
      (0 ≤ now + seconds * 1000000000 → now + seconds * 1000000000 < 2 ^ 63 →
        P.toStringSecondsOffset now seconds =
          some (P.toString (now + seconds * 1000000000) 0)) := by
  have hput : putSecondsOffset now seconds = (checked (now + seconds * 1000000000)).map
      fun futureTime => put (str "%Y%m%d%H%M%S") futureTime 0 := by
    rw [putSecondsOffset]
    congr 1
    funext futureTime
    rw [put, offsetTime, show timezoneOffset 0 = 0 from rfl, Int.zero_mul, Int.add_zero]
  have hfamily : P.toStringSecondsOffset now seconds = (putSecondsOffset now seconds).map fun ss =>
      if P = .seconds then ss.text else (putFraction P.perSecond P.fractionDigits now ss).text := by
    cases P <;> rfl
  constructor
  · rw [hfamily, Option.map_eq_none_iff, putSecondsOffset, Option.map_eq_none_iff, checked]
    split <;> simp_all
  · intro hnonneg hfits
    rw [hfamily, hput, checked, if_pos ⟨by omega, hfits⟩, Option.map_some, Option.map_some,
      toString_eq_clockText P hnonneg, Precision.clockText, fractionText_add, ← put_text]
    split
    · next hP => rw [Precision.fractionText, if_pos hP, List.append_nil, List.append_nil]
    · next hP =>
      rw [putFraction_eq hP hlow _ rfl rfl]
      rfl

/-- A minute after a reading, across the end of a year. -/
theorem toStringSecondsOffset_newYear :
    (Precision.milliseconds.toStringSecondsOffset 1735689599999000000 60 = none ↔
        ¬((-2 ^ 63 : ℤ) ≤ 1735689599999000000 + 60 * 1000000000 ∧
          (1735689599999000000 : ℤ) + 60 * 1000000000 < 2 ^ 63)) ∧
      (0 ≤ (1735689599999000000 : ℤ) + 60 * 1000000000 →
        (1735689599999000000 : ℤ) + 60 * 1000000000 < 2 ^ 63 →
        Precision.milliseconds.toStringSecondsOffset 1735689599999000000 60 =
          some (Precision.milliseconds.toString (1735689599999000000 + 60 * 1000000000) 0)) :=
  toStringSecondsOffset_shift .milliseconds 60 (by decide)

/-! ### The names of the months -/

/-- The names of the months. Language 1 and all others but 2 have the same ones. -/
def monthNames (language : ℤ) : List Bytes :=
  (if language = 2 then
    ["Jan", "Feb", "Mar", "Apr", "Mei", "Jun", "Jul", "Agu", "Sep", "Okt", "Nov", "Des"]
  else
    ["Jan", "Feb", "Mar", "Apr", "May", "Jun", "Jul", "Aug", "Sep", "Oct", "Nov", "Dec"]).map str

/-- The name of a month; an empty text for a number that is none. -/
def monthName (language month : ℤ) : Bytes :=
  if 1 ≤ month then (monthNames language).getD (month.toNat - 1) [] else []

/-- `month::to_string_human`: the number of the month is read as in `month::to_int`. -/
def Month.toStringHuman (language now timeOffset : ℤ) : Option Bytes :=
  (Month.toInt now timeOffset).map (monthName language)

/-- There are twelve names, and they are different ones. -/
theorem monthNames_spec (language : ℤ) :
    (monthNames language).length = 12 ∧ (monthNames language).Nodup ∧
      [] ∉ monthNames language := by
  rw [monthNames]
  split <;> decide

theorem monthName_mem {month : ℤ} (language : ℤ) (h : 1 ≤ month ∧ month ≤ 12) :
    ∃ hlt : month.toNat - 1 < (monthNames language).length,
      monthName language month = (monthNames language)[month.toNat - 1] := by
  have hlength := (monthNames_spec language).1
  have hlt : month.toNat - 1 < (monthNames language).length := by omega
  refine ⟨hlt, ?_⟩
  rw [monthName, if_pos h.1, List.getD_eq_getElem?_getD, List.getElem?_eq_getElem hlt,
    Option.getD_some]

/-- The number of the month is the one of the shifted time. -/
theorem Month.toInt_eq (hlow : 86400000000000 ≤ now) (hhigh : now < 253402214400000000000)
    (timeOffset : ℤ) : Month.toInt now timeOffset = some ((offsetTime now timeOffset).mon + 1) := by
  have hread := offsetTime_readable hlow hhigh timeOffset .month
  have hformat : directives (str "%m") = [.field .month] := by decide
  obtain ⟨-, hvalue⟩ : _ ∧ Month.toInt now timeOffset = _ := denotes_part hlow hhigh hformat rfl
  rw [hvalue, value, put_text, strftime, hformat, List.flatMap_singleton, Directive.text,
    Field.text_eq_padded hread, decimal_padded, Int.toNat_of_nonneg (by have := hread.1; omega)]
  rfl

/-- **The names tell the months apart**, for every language, at any two clock readings from
2 January 1970 to 30 December 9999 and with any offsets. -/
theorem toStringHuman_eq_iff (language timeOffset timeOffset' : ℤ)
    (hlow : 86400000000000 ≤ now) (hhigh : now < 253402214400000000000)
    (hlow' : 86400000000000 ≤ now') (hhigh' : now' < 253402214400000000000) :
    (∃ name ≠ [], Month.toStringHuman language now timeOffset = some name) ∧
      (Month.toStringHuman language now timeOffset =
          Month.toStringHuman language now' timeOffset' ↔
        Month.toInt now timeOffset = Month.toInt now' timeOffset') := by
  obtain ⟨-, hnodup, hempty⟩ := monthNames_spec language
  have hmon := (gmtime_inRange (toTimeT now + timezoneOffset timeOffset * 3600)).mon
  have hmon' := (gmtime_inRange (toTimeT now' + timezoneOffset timeOffset' * 3600)).mon
  rw [← offsetTime] at hmon hmon'
  obtain ⟨hlt, hname⟩ := monthName_mem language
    (show 1 ≤ (offsetTime now timeOffset).mon + 1 ∧ _ by omega)
  obtain ⟨hlt', hname'⟩ := monthName_mem language
    (show 1 ≤ (offsetTime now' timeOffset').mon + 1 ∧ _ by omega)
  rw [Month.toStringHuman, Month.toStringHuman, Month.toInt_eq hlow hhigh,
    Month.toInt_eq hlow' hhigh', Option.map_some, Option.map_some, hname, hname']
  refine ⟨⟨_, fun hnil => hempty (hnil ▸ List.getElem_mem hlt), rfl⟩, ?_⟩
  rw [Option.some_inj, Option.some_inj, List.Nodup.getElem_inj_iff hnodup]
  omega

/-- The months before and after the end of a year. -/
theorem toStringHuman_eq_iff_newYear :
    (∃ name ≠ [], Month.toStringHuman 2 1735689599999000000 7 = some name) ∧
      (Month.toStringHuman 2 1735689599999000000 7 = Month.toStringHuman 2 1735689600000000000 0 ↔
        Month.toInt 1735689599999000000 7 = Month.toInt 1735689600000000000 0) :=
  toStringHuman_eq_iff 2 7 0 (by decide) (by decide) (by decide) (by decide)

end Behh.DateAndTime.Utc
