import Behh.DateAndTime.Utc

/-!
# All renderings of one instant

Evaluated at the same clock reading and with the same offset, the functions of
`date_and_time_functions` show the same broken-down time. The texts of its fields have fixed
widths, so a number made of several fields is the sum of its parts; zeros that are erased in front
of a field do not change its value.

## Main definitions

* `Denotes`: a number is the value of the digits of a text.
* `RenderingsAgree`: what the renderings of one instant have to do with each other.

## Main results

* `offsetTime_readable`: all fields of the shifted time can be written with fixed widths.
* `renderings_agree`: the renderings agree from 2 January 1970 to 30 December 9999.
-/

namespace Behh.DateAndTime.Utc

variable {now timeOffset : ℤ}

/-! ### The shifted time -/

theorem timezoneOffset_eq (timeOffset : ℤ) :
    timezoneOffset timeOffset = max (-12) (min timeOffset 14) := by
  simp only [timezoneOffset]
  split <;> split <;> omega

theorem timezoneOffset_mem (timeOffset : ℤ) :
    -12 ≤ timezoneOffset timeOffset ∧ timezoneOffset timeOffset ≤ 14 := by
  rw [timezoneOffset_eq]
  omega

theorem toTimeT_of_nonneg (h : 0 ≤ now) : toTimeT now = now / 1000000000 :=
  Int.tdiv_eq_ediv_of_nonneg h

theorem offsetTime_year (hlow : 86400000000000 ≤ now) (hhigh : now < 253402214400000000000)
    (timeOffset : ℤ) :
    70 ≤ (offsetTime now timeOffset).year ∧ (offsetTime now timeOffset).year < 8100 := by
  have hoffset := timezoneOffset_mem timeOffset
  rw [offsetTime, toTimeT_of_nonneg (by omega)]
  exact gmtime_year (by omega) (by omega)

/-- Every field of the shifted time can be written with its fixed width. -/
theorem offsetTime_readable (hlow : 86400000000000 ≤ now)
    (hhigh : now < 253402214400000000000) (timeOffset : ℤ) (f : Field) :
    f.Readable (offsetTime now timeOffset) := by
  have hyear := offsetTime_year hlow hhigh timeOffset
  have hrange : (offsetTime now timeOffset).InRange := gmtime_inRange _
  exact f.readable hrange (by omega) (by omega)

/-! ### The value of a text -/

/-- `result` is the value of the digits of `text`, a number of `bits` bits with its sign. -/
def Denotes (bits : ℕ) (result : Option ℤ) (text : Bytes) : Prop :=
  text ≠ [] ∧ text.all isdigit = true ∧ decimal text < 2 ^ (bits - 1) ∧
    result = some (decimal text : ℤ)

theorem denotes_stoi {text : Bytes} (hne : text ≠ []) (hall : text.all isdigit = true)
    (hlength : text.length ≤ 9) : Denotes 32 (number (stoi text)) text := by
  have hlt : decimal text < 10 ^ 9 :=
    Nat.lt_of_lt_of_le (decimal_lt hall) (Nat.pow_le_pow_right (by decide) hlength)
  refine ⟨hne, hall, by omega, ?_⟩
  rw [stoi_digits hne hall (by omega)]
  rfl

theorem denotes_stoll {text : Bytes} (hne : text ≠ []) (hall : text.all isdigit = true)
    (hlength : text.length ≤ 18) : Denotes 64 (number (stoll text)) text := by
  have hlt : decimal text < 10 ^ 18 :=
    Nat.lt_of_lt_of_le (decimal_lt hall) (Nat.pow_le_pow_right (by decide) hlength)
  refine ⟨hne, hall, by omega, ?_⟩
  rw [stoll_digits hne hall (by omega)]
  rfl

/-- The conversion of a `long` that is an `int` keeps the value. -/
theorem denotes_toInt32 {text : Bytes} (hne : text ≠ []) (hall : text.all isdigit = true)
    (hlength : text.length ≤ 9) : Denotes 32 ((number (stoll text)).map toInt32) text := by
  obtain ⟨-, -, hlt, -⟩ := denotes_stoi hne hall hlength
  refine ⟨hne, hall, hlt, ?_⟩
  rw [(denotes_stoll hne hall (by omega)).2.2.2, Option.map_some, toInt32,
    Int.bmod_eq_of_le (by omega) (by omega)]

/-! ### Erased zeros -/

theorem decimal_eraseZero (s : Bytes) : decimal (eraseZero s) = decimal s := by
  rw [eraseZero]
  split
  · next h =>
    obtain ⟨cs, rfl⟩ := List.head?_eq_some_iff.1 h
    exact (decimal_cons_zero cs).symm
  · rfl

theorem all_eraseZero {s : Bytes} (h : s.all isdigit = true) :
    (eraseZero s).all isdigit = true := by
  rw [eraseZero]
  split
  · exact List.all_eq_true.2 fun c hc => List.all_eq_true.1 h c (List.mem_of_mem_tail hc)
  · exact h

theorem length_eraseZero (s : Bytes) :
    (eraseZero s).length ≤ s.length ∧ s.length ≤ (eraseZero s).length + 1 := by
  rw [eraseZero]
  split
  · rw [List.length_tail]
    omega
  · omega

/-! ### Texts of fields -/

/-- The number of characters that a part of a format makes. -/
def width : Directive → ℕ
  | .field f => f.limits.2.2
  | .literal _ => 1

/-- The value of the text in a format. -/
def value (now timeOffset : ℤ) (fmt : Bytes) : ℕ := decimal (put fmt now timeOffset).text

theorem put_text (fmt : Bytes) (now timeOffset : ℤ) :
    (put fmt now timeOffset).text = strftime (offsetTime now timeOffset) fmt := List.nil_append _

/-! ### The fraction -/

/-- The fraction of the second, with a zero for each digit that is missing. -/
theorem putFraction_text (h : 0 ≤ now) {perSecond : ℤ} (hper : 0 < perSecond) (w : ℕ)
    (o : OStream) (hhex : o.hex = false) (hupper : o.uppercase = false) :
    (putFraction perSecond w now o).text =
      o.text ++ padded w (now / (1000000000 / perSecond) % perSecond).toNat := by
  have hunit : 0 ≤ 1000000000 / perSecond := Int.ediv_nonneg (by decide) hper.le
  have hcount : 0 ≤ now / (1000000000 / perSecond) := Int.ediv_nonneg h hunit
  have hfraction : fraction perSecond now =
      ((now / (1000000000 / perSecond) % perSecond).toNat : ℤ) := by
    rw [fraction, Int.tdiv_eq_ediv_of_nonneg h, Int.tmod_eq_emod_of_nonneg hcount,
      Int.toNat_of_nonneg (Int.emod_nonneg _ hper.ne')]
  rw [putFraction, hfraction, OStream.putInt64_natCast]
  · rfl
  · exact hhex
  · exact hupper
  · rfl

/-! ### Separators -/

/-- A text without the separators of dates and times. -/
def withoutSeparators (s : Bytes) : Bytes := s.filter fun c => !(str "-:T .").contains c

theorem not_separator_of_isdigit (c : UInt8) (h : isdigit c = true) :
    (!(str "-:T .").contains c) = true := by
  have hall : ∀ c : UInt8, isdigit c = true → (!(str "-:T .").contains c) = true :=
    forall_byte (by decide +kernel)
  exact hall c h

theorem withoutSeparators_of_all {s : Bytes} (h : s.all isdigit = true) :
    withoutSeparators s = s :=
  List.filter_eq_self.2 fun c hc => not_separator_of_isdigit c (List.all_eq_true.1 h c hc)

section

variable (hlow : 86400000000000 ≤ now) (hhigh : now < 253402214400000000000)
include hlow hhigh

theorem length_put (timeOffset : ℤ) (fmt : Bytes) :
    (put fmt now timeOffset).text.length = ((directives fmt).map width).sum := by
  rw [put_text, strftime, List.length_flatMap]
  congr 1
  refine List.map_congr_left fun d _ => ?_
  cases d with
  | field f => exact Field.length_text (offsetTime_readable hlow hhigh timeOffset f)
  | literal c => rfl

theorem all_put {fmt : Bytes} (h : (directives fmt).all (Directive.kept fun _ => false) = true) :
    (put fmt now timeOffset).text.all isdigit = true := by
  have hyear := offsetTime_year hlow hhigh timeOffset
  rw [put_text]
  exact all_isdigit_strftime (by omega) h

theorem put_ne_nil {fmt : Bytes} (hpos : 0 < ((directives fmt).map width).sum) :
    (put fmt now timeOffset).text ≠ [] :=
  List.ne_nil_of_length_pos ((length_put hlow hhigh timeOffset fmt).symm ▸ hpos)

section

variable {fmt : Bytes} (hconv : (directives fmt).all (Directive.kept fun _ => false) = true)
  (hpos : 0 < ((directives fmt).map width).sum)
include hconv hpos

theorem denotes_put_stoi (hle : ((directives fmt).map width).sum ≤ 9) :
    Denotes 32 (number (stoi (put fmt now timeOffset).text)) (put fmt now timeOffset).text :=
  denotes_stoi (put_ne_nil hlow hhigh hpos) (all_put hlow hhigh hconv)
    ((length_put hlow hhigh timeOffset fmt).symm ▸ hle)

theorem denotes_put_toInt32 (hle : ((directives fmt).map width).sum ≤ 9) :
    Denotes 32 ((number (stoll (put fmt now timeOffset).text)).map toInt32)
      (put fmt now timeOffset).text :=
  denotes_toInt32 (put_ne_nil hlow hhigh hpos) (all_put hlow hhigh hconv)
    ((length_put hlow hhigh timeOffset fmt).symm ▸ hle)

theorem denotes_put_stoll (hle : ((directives fmt).map width).sum ≤ 18) :
    Denotes 64 (number (stoll (put fmt now timeOffset).text)) (put fmt now timeOffset).text :=
  denotes_stoll (put_ne_nil hlow hhigh hpos) (all_put hlow hhigh hconv)
    ((length_put hlow hhigh timeOffset fmt).symm ▸ hle)

end

/-- The value of a text that is made of two texts. -/
theorem value_append {fmt fmt₁ fmt₂ : Bytes}
    (h : directives fmt = directives fmt₁ ++ directives fmt₂) :
    value now timeOffset fmt =
      10 ^ ((directives fmt₂).map width).sum * value now timeOffset fmt₁ +
        value now timeOffset fmt₂ := by
  have hlength := length_put hlow hhigh timeOffset fmt₂
  rw [put_text] at hlength
  rw [value, put_text, strftime, h, List.flatMap_append, decimal_append, value, value, put_text,
    put_text, strftime, strftime, ← hlength, strftime]

theorem denotes_part {fmt : Bytes} {f : Field} (h : directives fmt = [.field f])
    (hwidth : f.limits.2.2 = 2) :
    Denotes 32 (partToInt fmt now timeOffset) (partToString fmt now timeOffset) ∧
      partToInt fmt now timeOffset = some (value now timeOffset fmt : ℤ) := by
  have hall : (put fmt now timeOffset).text.all isdigit = true :=
    all_put hlow hhigh (by simp [h, Directive.kept])
  have hlength := length_put hlow hhigh timeOffset fmt
  rw [h, List.map_singleton, List.sum_singleton, width, hwidth] at hlength
  obtain ⟨hle, hge⟩ := length_eraseZero (put fmt now timeOffset).text
  have hdenotes := denotes_stoi (List.ne_nil_of_length_pos (by omega)) (all_eraseZero hall)
    (by omega)
  exact ⟨hdenotes, by rw [partToInt, hdenotes.2.2.2, decimal_eraseZero, value]⟩

theorem denotes_millis :
    Denotes 64 (YYYYMMDDhhmmssms.toInt64 now timeOffset)
        (YYYYMMDDhhmmssms.toString now timeOffset) ∧
      YYYYMMDDhhmmssms.toInt64 now timeOffset = some
        (1000 * (value now timeOffset (str "%Y%m%d%H%M%S") : ℤ) + now / 1000000 % 1000) := by
  have hall : (put (str "%Y%m%d%H%M%S") now timeOffset).text.all isdigit = true :=
    all_put hlow hhigh (by decide)
  have hlength : (put (str "%Y%m%d%H%M%S") now timeOffset).text.length = 14 :=
    length_put hlow hhigh timeOffset _
  have hmillis : (now / 1000000 % 1000).toNat < 10 ^ 3 := by omega
  have hpadded := length_padded (by decide) hmillis
  have htext : toStringOf 1000 3 now timeOffset =
      (put (str "%Y%m%d%H%M%S") now timeOffset).text ++
        padded 3 (now / 1000000 % 1000).toNat := by
    rw [toStringOf, putFraction_text (by omega) (by decide) _ _ rfl rfl]
    rfl
  have hdenotes : Denotes 64 (YYYYMMDDhhmmssms.toInt64 now timeOffset)
      (toStringOf 1000 3 now timeOffset) := by
    apply denotes_stoll
    · exact List.ne_nil_of_length_pos (by rw [htext, List.length_append]; omega)
    · rw [htext, List.all_append, hall, all_isdigit_padded, Bool.and_self]
    · rw [htext, List.length_append]
      omega
  refine ⟨hdenotes, ?_⟩
  rw [hdenotes.2.2.2, htext, decimal_append, hpadded, decimal_padded, value]
  congr 1
  omega

/-! ### The raw and the human readable forms -/

theorem withoutSeparators_put {fmt fmt' : Bytes}
    (h : (directives fmt).filter (Directive.kept fun c => !(str "-:T .").contains c) =
      directives fmt') :
    withoutSeparators (put fmt now timeOffset).text = (put fmt' now timeOffset).text := by
  have hyear := offsetTime_year hlow hhigh timeOffset
  rw [put_text, put_text, withoutSeparators]
  exact filter_strftime not_separator_of_isdigit (by omega) h

theorem withoutSeparators_humanFormat (timeOffset : ℤ) (useTimeSign : Bool) :
    withoutSeparators (put (humanFormat useTimeSign) now timeOffset).text =
      (put (str "%Y%m%d%H%M%S") now timeOffset).text := by
  cases useTimeSign
  · exact withoutSeparators_put hlow hhigh (by decide)
  · exact withoutSeparators_put hlow hhigh (by decide)

theorem withoutSeparators_toStringHumanOf {perSecond : ℤ} (hper : 0 < perSecond) (w : ℕ)
    (useTimeSign : Bool) :
    withoutSeparators (toStringHumanOf perSecond w now timeOffset useTimeSign) =
      toStringOf perSecond w now timeOffset := by
  have hdigits := withoutSeparators_of_all
    (all_isdigit_padded w (now / (1000000000 / perSecond) % perSecond).toNat)
  have hhuman := withoutSeparators_humanFormat hlow hhigh timeOffset useTimeSign
  have hdot : withoutSeparators (str ".") = [] := by decide
  rw [toStringHumanOf, toStringOf, putFraction_text (by omega) hper _ _ rfl rfl,
    putFraction_text (by omega) hper _ _ rfl rfl]
  rw [OStream.putText_text rfl]
  simp only [withoutSeparators, List.filter_append] at hdigits hhuman hdot ⊢
  rw [hdigits, hhuman, hdot, List.append_nil]

/-! ### Shifting the clock reading -/

/-- Shifting the clock reading by whole hours is shifting the count of seconds. -/
theorem putSecondsOffset_eq
    (hcount : now + 3600 * 1000000000 * timezoneOffset timeOffset < 2 ^ 63) :
    putSecondsOffset now (3600 * timezoneOffset timeOffset) =
      some (put (str "%Y%m%d%H%M%S") now timeOffset) := by
  have hoffset := timezoneOffset_mem timeOffset
  have htime : toTimeT (now + 3600 * timezoneOffset timeOffset * 1000000000) =
      toTimeT now + timezoneOffset timeOffset * 3600 := by
    rw [toTimeT_of_nonneg (by omega), toTimeT_of_nonneg (by omega)]
    omega
  rw [putSecondsOffset, checked, if_pos (by omega), Option.map_some, htime]
  rfl

end

/-- The renderings of one instant agree. -/
structure RenderingsAgree (now timeOffset : ℤ) : Prop where
  /-- A date is made of the year, the month and the day. -/
  date : ∃ y m d, Year.toInt now timeOffset = some y ∧ Month.toInt now timeOffset = some m ∧
    Day.toInt now timeOffset = some d ∧
    YYYYMMDD.toInt now timeOffset = some (10000 * y + 100 * m + d)
  /-- A time of day is made of the hour, the minute and the second. -/
  time : ∃ h m s, Hour.toInt now timeOffset = some h ∧ Minute.toInt now timeOffset = some m ∧
    Second.toInt now timeOffset = some s ∧
    hhmmss.toInt now timeOffset = some (10000 * h + 100 * m + s)
  /-- A date with the time of day is made of both. -/
  dateTime : ∃ d t, YYYYMMDD.toInt now timeOffset = some d ∧ hhmmss.toInt now timeOffset = some t ∧
    YYYYMMDDhhmmss.toInt64 now timeOffset = some (10 ^ 6 * d + t)
  /-- The millisecond part of the clock reading is put behind it. -/
  millis : ∃ n, YYYYMMDDhhmmss.toInt64 now timeOffset = some n ∧
    YYYYMMDDhhmmssms.toInt64 now timeOffset = some (1000 * n + now / 1000000 % 1000)
  /-- The numbers of 32 bits are the values of the texts. -/
  denotes : ∀ r ∈ [(Year.toInt now timeOffset, Year.toString now timeOffset),
    (Month.toInt now timeOffset, Month.toString now timeOffset),
    (Day.toInt now timeOffset, Day.toString now timeOffset),
    (Hour.toInt now timeOffset, Hour.toString now timeOffset),
    (Minute.toInt now timeOffset, Minute.toString now timeOffset),
    (Second.toInt now timeOffset, Second.toString now timeOffset),
    (YYYYMMDD.toInt now timeOffset, YYYYMMDD.toString now timeOffset),
    (hhmmss.toInt now timeOffset, hhmmss.toString now timeOffset)], Denotes 32 r.1 r.2
  /-- The numbers of 64 bits are the values of the texts. -/
  denotes64 : ∀ r ∈
    [(YYYYMMDDhhmmss.toInt64 now timeOffset, YYYYMMDDhhmmss.toString now timeOffset),
    (YYYYMMDDhhmmssms.toInt64 now timeOffset, YYYYMMDDhhmmssms.toString now timeOffset)],
    Denotes 64 r.1 r.2
  /-- A readable date is the raw one with separators. -/
  readableDate : withoutSeparators (YYYYMMDD.toStringIso8601 now timeOffset) =
    YYYYMMDD.toString now timeOffset
  /-- A readable time of day is the raw one with separators. -/
  readableTime : withoutSeparators (hhmmss.toStringHuman now timeOffset) =
    hhmmss.toString now timeOffset
  /-- The readable dates with the time of day are the raw ones with separators. -/
  readable : ∀ (P : Precision) (useTimeSign : Bool),
    withoutSeparators (P.toStringHuman now timeOffset useTimeSign) = P.toString now timeOffset
  /-- An offset in hours is an offset in seconds, as long as the shifted count of nanoseconds does
  not overflow. -/
  shifted : now + 3600 * 1000000000 * max (-12) (min timeOffset 14) < 2 ^ 63 → ∀ P : Precision,
    P.toStringSecondsOffset now (3600 * max (-12) (min timeOffset 14)) =
      some (P.toString now timeOffset)

section

variable (hlow : 86400000000000 ≤ now) (hhigh : now < 253402214400000000000)
include hlow hhigh

/-- What the functions that return a number return. -/
theorem toInt_eq (timeOffset : ℤ) :
    Year.toInt now timeOffset = some (value now timeOffset (str "%Y") : ℤ) ∧
      YYYYMMDD.toInt now timeOffset = some (value now timeOffset (str "%Y%m%d") : ℤ) ∧
      hhmmss.toInt now timeOffset = some (value now timeOffset (str "%H%M%S") : ℤ) ∧
      YYYYMMDDhhmmss.toInt64 now timeOffset =
        some (value now timeOffset (str "%Y%m%d%H%M%S") : ℤ) :=
  ⟨(denotes_put_stoi hlow hhigh (by decide) (by decide) (by decide)).2.2.2,
    (denotes_put_stoi hlow hhigh (by decide) (by decide) (by decide)).2.2.2,
    (denotes_put_toInt32 hlow hhigh (by decide) (by decide) (by decide)).2.2.2,
    (denotes_put_stoll hlow hhigh (by decide) (by decide) (by decide)).2.2.2⟩

/-- A date is made of the year, the month and the day. -/
theorem value_date (timeOffset : ℤ) : value now timeOffset (str "%Y%m%d") =
    10000 * value now timeOffset (str "%Y") + 100 * value now timeOffset (str "%m") +
      value now timeOffset (str "%d") := by
  have hmonthDay : value now timeOffset (str "%m%d") =
      100 * value now timeOffset (str "%m") + value now timeOffset (str "%d") :=
    value_append hlow hhigh (show directives (str "%m%d") =
      directives (str "%m") ++ directives (str "%d") by decide)
  have hdate : value now timeOffset (str "%Y%m%d") =
      10000 * value now timeOffset (str "%Y") + value now timeOffset (str "%m%d") :=
    value_append hlow hhigh (show directives (str "%Y%m%d") =
      directives (str "%Y") ++ directives (str "%m%d") by decide)
  rw [hdate, hmonthDay, Nat.add_assoc]

/-- A time of day is made of the hour, the minute and the second. -/
theorem value_time (timeOffset : ℤ) : value now timeOffset (str "%H%M%S") =
    10000 * value now timeOffset (str "%H") + 100 * value now timeOffset (str "%M") +
      value now timeOffset (str "%S") := by
  have hminuteSecond : value now timeOffset (str "%M%S") =
      100 * value now timeOffset (str "%M") + value now timeOffset (str "%S") :=
    value_append hlow hhigh (show directives (str "%M%S") =
      directives (str "%M") ++ directives (str "%S") by decide)
  have htime : value now timeOffset (str "%H%M%S") =
      10000 * value now timeOffset (str "%H") + value now timeOffset (str "%M%S") :=
    value_append hlow hhigh (show directives (str "%H%M%S") =
      directives (str "%H") ++ directives (str "%M%S") by decide)
  rw [htime, hminuteSecond, Nat.add_assoc]

theorem value_dateTime (timeOffset : ℤ) : value now timeOffset (str "%Y%m%d%H%M%S") =
    1000000 * value now timeOffset (str "%Y%m%d") + value now timeOffset (str "%H%M%S") :=
  value_append hlow hhigh (show directives (str "%Y%m%d%H%M%S") =
    directives (str "%Y%m%d") ++ directives (str "%H%M%S") by decide)

/-- The readable form of every precision is the raw one with separators. -/
theorem withoutSeparators_toStringHuman (timeOffset : ℤ) (P : Precision) (useTimeSign : Bool) :
    withoutSeparators (P.toStringHuman now timeOffset useTimeSign) = P.toString now timeOffset := by
  cases P with
  | seconds => exact withoutSeparators_humanFormat hlow hhigh timeOffset useTimeSign
  | milliseconds => exact withoutSeparators_toStringHumanOf hlow hhigh (by decide) 3 useTimeSign
  | microseconds => exact withoutSeparators_toStringHumanOf hlow hhigh (by decide) 6 useTimeSign
  | nanoseconds => exact withoutSeparators_toStringHumanOf hlow hhigh (by decide) 9 useTimeSign

/-- An offset in hours is an offset in seconds, for every precision. -/
theorem toStringSecondsOffset_eq {timeOffset : ℤ}
    (hcount : now + 3600 * 1000000000 * timezoneOffset timeOffset < 2 ^ 63) (P : Precision) :
    P.toStringSecondsOffset now (3600 * timezoneOffset timeOffset) =
      some (P.toString now timeOffset) := by
  have hshift := putSecondsOffset_eq hlow hhigh hcount
  cases P with
  | seconds => exact congrArg (Option.map OStream.text) hshift
  | milliseconds =>
    exact congrArg (Option.map fun ss => (putFraction 1000 3 now ss).text) hshift
  | microseconds =>
    exact congrArg (Option.map fun ss => (putFraction 1000000 6 now ss).text) hshift
  | nanoseconds =>
    exact congrArg (Option.map fun ss => (putFraction 1000000000 9 now ss).text) hshift

end

/-- **All renderings of one instant agree**, from 2 January 1970 to 30 December 9999 and with
every offset. -/
theorem renderings_agree (hlow : 86400000000000 ≤ now) (hhigh : now < 253402214400000000000)
    (timeOffset : ℤ) : RenderingsAgree now timeOffset := by
  obtain ⟨hyear, hdate, htime, hdateTime⟩ := toInt_eq hlow hhigh timeOffset
  obtain ⟨hmonth, hmonth'⟩ : _ ∧ Month.toInt now timeOffset = _ :=
    denotes_part hlow hhigh (show directives (str "%m") = [.field .month] by decide) rfl
  obtain ⟨hday, hday'⟩ : _ ∧ Day.toInt now timeOffset = _ :=
    denotes_part hlow hhigh (show directives (str "%d") = [.field .day] by decide) rfl
  obtain ⟨hhour, hhour'⟩ : _ ∧ Hour.toInt now timeOffset = _ :=
    denotes_part hlow hhigh (show directives (str "%H") = [.field .hour] by decide) rfl
  obtain ⟨hminute, hminute'⟩ : _ ∧ Minute.toInt now timeOffset = _ :=
    denotes_part hlow hhigh (show directives (str "%M") = [.field .minute] by decide) rfl
  obtain ⟨hsecond, hsecond'⟩ : _ ∧ Second.toInt now timeOffset = _ :=
    denotes_part hlow hhigh (show directives (str "%S") = [.field .second] by decide) rfl
  constructor
  · refine ⟨_, _, _, hyear, hmonth', hday', ?_⟩
    rw [hdate, value_date hlow hhigh]
    congr 1
  · refine ⟨_, _, _, hhour', hminute', hsecond', ?_⟩
    rw [htime, value_time hlow hhigh]
    congr 1
  · refine ⟨_, _, hdate, htime, ?_⟩
    rw [hdateTime, value_dateTime hlow hhigh]
    congr 1
  · exact ⟨_, hdateTime, (denotes_millis hlow hhigh).2⟩
  · have hyear32 : Denotes 32 (Year.toInt now timeOffset) (Year.toString now timeOffset) :=
      denotes_put_stoi hlow hhigh (by decide) (by decide) (by decide)
    have hdate32 : Denotes 32 (YYYYMMDD.toInt now timeOffset) (YYYYMMDD.toString now timeOffset) :=
      denotes_put_stoi hlow hhigh (by decide) (by decide) (by decide)
    have htime32 : Denotes 32 (hhmmss.toInt now timeOffset) (hhmmss.toString now timeOffset) :=
      denotes_put_toInt32 hlow hhigh (by decide) (by decide) (by decide)
    simp only [List.forall_mem_cons]
    exact ⟨hyear32, hmonth, hday, hhour, hminute, hsecond, hdate32, htime32, by simp⟩
  · have hdateTime64 : Denotes 64 (YYYYMMDDhhmmss.toInt64 now timeOffset)
        (YYYYMMDDhhmmss.toString now timeOffset) :=
      denotes_put_stoll hlow hhigh (by decide) (by decide) (by decide)
    simp only [List.forall_mem_cons]
    exact ⟨hdateTime64, (denotes_millis hlow hhigh).1, by simp⟩
  · exact withoutSeparators_put hlow hhigh (by decide)
  · exact withoutSeparators_put hlow hhigh (by decide)
  · exact withoutSeparators_toStringHuman hlow hhigh timeOffset
  · rw [← timezoneOffset_eq]
    exact toStringSecondsOffset_eq hlow hhigh

/-- On 14 July 2024 the renderings agree. -/
theorem renderings_agree_july : RenderingsAgree 1720915200123456789 9 :=
  renderings_agree (by decide) (by decide) 9

end Behh.DateAndTime.Utc
