import Behh.DateAndTime.LocalClock
import Behh.DateAndTime.RoundTrip
import Behh.Std.TextOrder

/-!
# Counts before the epoch

The functions `to_millis_string` of lines 1148, 1299 and 1450 of `src/date_and_time.cc` write a
count of units as the date and the time of day of a second, a point, and the rest of the count.
Both the conversion to whole seconds and the operator `%` round toward zero. Before the epoch the
second is then the one behind the instant, and the rest is a negative number, whose sign is filled
up with zeros like a digit: a millisecond before the epoch is `1970-01-01 00:00:00.0-1`.

The texts that hold the second in which the instant lies, and the units from its beginning on, are
in the order of the counts.

## Main definitions

* `Precision.timestamp`: the second of a count, and its units from the beginning of the second on.
* `Precision.Rendered`: a count is written as its time stamp.
* `Precision.OrderKept`: two counts are in the order of the texts that are written for them.

## Main results

* `rendered_iff`: the counts that are written as their time stamps.
* `timestamp_lt_iff`: time stamps are in the order of the counts.
* `rendered_inOrder_iff`: both for two counts.
-/

namespace Behh.DateAndTime.Utc

variable {P : Precision} {t t' : ℤ}

namespace Precision

/-- The number of digits of the fraction. The first namespace leaves the fraction out. -/
def fractionDigits : Precision → ℕ
  | seconds => 0
  | milliseconds => 3
  | microseconds => 6
  | nanoseconds => 9

/-- The date and the time of day of the second that a count lies in, and behind a point the units
from the beginning of this second on. -/
def timestamp (P : Precision) (t : ℤ) (useTimeSign : Bool) : Bytes :=
  strftime (gmtime (t / P.perSecond)) (humanFormat useTimeSign) ++
    str "." ++ padded P.fractionDigits (t % P.perSecond).toNat

/-- The count is that of an instant between the beginning of 1678 and the end of 2261. -/
def InYears (P : Precision) (t : ℤ) : Prop :=
  1678 ≤ (gmtime (t / P.perSecond)).year + 1900 ∧ (gmtime (t / P.perSecond)).year + 1900 ≤ 2261

/-- The count is written as its time stamp. -/
def Rendered (P : Precision) (t : ℤ) (useTimeSign : Bool) : Prop :=
  P.toMillisString t useTimeSign = some (P.timestamp t useTimeSign)

/-- The texts written for two counts are in the order of the counts. -/
def OrderKept (P : Precision) (t t' : ℤ) (useTimeSign : Bool) : Prop :=
  ∃ s s', P.toMillisString t useTimeSign = some s ∧ P.toMillisString t' useTimeSign = some s' ∧
    (s < s' ↔ t < t')

/-- The count is not before the epoch, or it is a whole number of seconds. -/
def Whole (P : Precision) (t : ℤ) : Prop := 0 ≤ t ∨ P.perSecond ∣ t

theorem perSecond_pos (P : Precision) : 0 < P.perSecond := by
  cases P <;> decide

/-- The years as bounds on the seconds. -/
theorem InYears.seconds (h : P.InYears t) :
    -9214560000 ≤ t / P.perSecond ∧ t / P.perSecond < 9214646400 := by
  have hfirst : Calendar.yearStart 1678 = -106650 := by decide
  have hend : Calendar.yearStart 2262 = 106651 := by decide
  have hlow : ¬t / P.perSecond < 86400 * Calendar.yearStart 1678 := by
    intro hlt
    have hyear := gmtime_year_lt hlt
    have hin := h.1
    omega
  have hhigh : ¬86400 * Calendar.yearStart 2262 ≤ t / P.perSecond := by
    intro hle
    have hyear := le_gmtime_year hle
    have hin := h.2
    omega
  omega

end Precision

/-! ### What is written -/

/-- The point in time of a count, its second and its fraction: rounded toward zero. -/
theorem timePoint_tdiv (h : P.InYears t) :
    timePoint P.perSecond t = some (t * (1000000000 / P.perSecond)) ∧
      toTimeT (t * (1000000000 / P.perSecond)) = t.tdiv P.perSecond ∧
      fraction P.perSecond (t * (1000000000 / P.perSecond)) = t.tmod P.perSecond := by
  obtain ⟨hlow, hhigh⟩ := h.seconds
  have hunit := P.isUnit
  have hpos : 0 < 1000000000 / P.perSecond := by cases P <;> decide
  have hsplit : 1000000000 = P.perSecond * (1000000000 / P.perSecond) := by cases P <;> decide
  refine ⟨?_, ?_, ?_⟩
  · rw [timePoint, checked, if_pos]
    rcases hunit with hper | hper | hper <;> rw [hper] at hlow hhigh ⊢ <;> omega
  · have hcancel : (t * (1000000000 / P.perSecond)).tdiv
        (P.perSecond * (1000000000 / P.perSecond)) = t.tdiv P.perSecond :=
      Int.mul_tdiv_mul_of_pos_left _ _ hpos
    rw [toTimeT, ← hcancel, ← hsplit]
  · rw [fraction, Int.mul_tdiv_cancel _ hpos.ne']

/-- **The text of a count**: the quotient and the remainder, both rounded toward zero. -/
theorem toMillisString_tdiv (hP : P ≠ .seconds) (h : P.InYears t) (useTimeSign : Bool) :
    ∃ rest, P.toMillisString t useTimeSign =
        some (strftime (gmtime (t.tdiv P.perSecond)) (humanFormat useTimeSign) ++ 0x2e :: rest) ∧
      (0 ≤ t.tmod P.perSecond → rest = padded P.fractionDigits (t.tmod P.perSecond).toNat) := by
  obtain ⟨hpoint, htime, hfraction⟩ := timePoint_tdiv h
  have hfamily : P.toMillisString t useTimeSign =
      toMillisStringOf P.perSecond P.fractionDigits t useTimeSign := by
    cases P with
    | seconds => exact absurd rfl hP
    | milliseconds => rfl
    | microseconds => rfl
    | nanoseconds => rfl
  rw [hfamily, toMillisStringOf, hpoint, Option.map_some, hfraction]
  have hfront : ((((putTimePoint (t * (1000000000 / P.perSecond)) useTimeSign).putText
      (str ".")).setfill 0x30).setw P.fractionDigits).text =
        strftime (gmtime (t.tdiv P.perSecond)) (humanFormat useTimeSign) ++ str "." := by
    rw [← htime, ← putTimePoint_text]
    exact OStream.putText_text rfl _
  by_cases hneg : t.tmod P.perSecond < 0
  · obtain ⟨rest, hrest⟩ := OStream.exists_putInt64_text ((((putTimePoint
      (t * (1000000000 / P.perSecond)) useTimeSign).putText (str ".")).setfill 0x30).setw
        P.fractionDigits) (t.tmod P.perSecond)
    refine ⟨rest, ?_, fun hpos => absurd hneg (Int.not_lt.2 hpos)⟩
    rw [hrest, hfront, List.append_assoc]
    rfl
  · obtain ⟨n, hn⟩ := Int.eq_ofNat_of_zero_le (Int.not_lt.1 hneg)
    refine ⟨padded P.fractionDigits n, ?_, fun _ => by rw [hn, Int.toNat_natCast]⟩
    rw [hn, OStream.putInt64_natCast _ _ rfl rfl rfl, hfront, List.append_assoc]
    rfl

/-- **The counts that are written as their time stamps.** -/
theorem rendered_iff (hP : P ≠ .seconds) (h : P.InYears t) (useTimeSign : Bool) :
    P.Rendered t useTimeSign ↔ P.Whole t := by
  obtain ⟨rest, htext, hrest⟩ := toMillisString_tdiv hP h useTimeSign
  have hpos := P.perSecond_pos
  have hquotient := Int.tdiv_eq_ediv (a := t) (b := P.perSecond)
  rw [Precision.Rendered, htext, Option.some_inj, Precision.timestamp, List.append_assoc]
  by_cases hwhole : P.Whole t
  · refine iff_of_true ?_ hwhole
    have hquotient' : t.tdiv P.perSecond = t / P.perSecond := by
      rw [hquotient, if_pos (show 0 ≤ t ∨ P.perSecond ∣ t from hwhole), Int.add_zero]
    have hremainder : t.tmod P.perSecond = t % P.perSecond := by
      rw [Int.tmod_def, Int.emod_def, hquotient']
    have hnonneg : 0 ≤ t % P.perSecond := Int.emod_nonneg _ hpos.ne'
    rw [hrest (by omega), hquotient', hremainder]
    rfl
  · refine iff_of_false (fun heq => ?_) hwhole
    -- the second written is the one behind the instant
    have hbehind : t.tdiv P.perSecond = t / P.perSecond + 1 := by
      rw [hquotient, if_neg (show ¬(0 ≤ t ∨ P.perSecond ∣ t) from hwhole),
        Int.sign_eq_one_of_pos hpos]
    have hpoint : 0x2e ∉ strftime (gmtime (t / P.perSecond)) (humanFormat useTimeSign) := by
      refine not_mem_strftime (by decide) (by have := h.1; omega) ?_
      cases useTimeSign <;> decide
    have hdigits : 0x2e ∉ padded P.fractionDigits (t % P.perSecond).toNat := fun hmem =>
      absurd (List.all_eq_true.1 (all_isdigit_padded _ _) _ hmem) (by decide)
    have hsame := ((List.append_cons_inj_of_notMem hpoint hdigits).1 heq.symm).1
    have hseconds := strftime_humanFormat_injective useTimeSign hsame
    omega

/-! ### The order -/

/-- A later second has later fields, in the order of the format. -/
theorem earlierFields_gmtime {s s' : ℤ} (h : s < s') (useTimeSign : Bool) :
    EarlierFields (gmtime s) (gmtime s') (directives (humanFormat useTimeSign)) := by
  have hformat : directives (humanFormat useTimeSign) = [.field .year, .literal 0x2d,
      .field .month, .literal 0x2d, .field .day, .literal (if useTimeSign then 0x54 else 0x20),
      .field .hour, .literal 0x3a, .field .minute, .literal 0x3a, .field .second] := by
    cases useTimeSign <;> rfl
  simp only [hformat, EarlierFields, Field.get, gmtime, and_false, or_false]
  rcases Int.lt_or_le (s / 86400) (s' / 86400) with hday | hday
  · rw [← Calendar.dayNumber_ofDayNumber (s / 86400),
      ← Calendar.dayNumber_ofDayNumber (s' / 86400)] at hday
    rcases Calendar.date_lt hday with hyear | ⟨hyear, hmonth | ⟨hmonth, hday⟩⟩
    · omega
    · omega
    · omega
  · have hsame : s / 86400 = s' / 86400 := by omega
    rw [hsame]
    omega

/-- Later counts have larger time stamps. -/
theorem timestamp_lt (hP : P ≠ .seconds) (h : P.InYears t) (h' : P.InYears t') (hlt : t < t')
    (useTimeSign : Bool) : P.timestamp t useTimeSign < P.timestamp t' useTimeSign := by
  have hpos := P.perSecond_pos
  have hdiv := Int.mul_ediv_add_emod t P.perSecond
  have hdiv' := Int.mul_ediv_add_emod t' P.perSecond
  have hread : ∀ {t : ℤ}, P.InYears t → ∀ f : Field, f.Readable (gmtime (t / P.perSecond)) :=
    fun h f => f.readable (gmtime_inRange _) (by have := h.1; omega) (by have := h.2; omega)
  rw [Precision.timestamp, Precision.timestamp, List.append_assoc, List.append_assoc]
  rcases Int.lt_or_le (t / P.perSecond) (t' / P.perSecond) with hsecond | hsecond
  · exact flatMap_text_lt (fun f _ => ⟨hread h f, hread h' f⟩)
      (earlierFields_gmtime hsecond useTimeSign) _ _
  · have hsame : t / P.perSecond = t' / P.perSecond :=
      Int.le_antisymm (Int.ediv_le_ediv hpos hlt.le) hsecond
    have hunits : t % P.perSecond < t' % P.perSecond := by
      rw [hsame] at hdiv
      omega
    have hlow := Int.emod_nonneg t hpos.ne'
    have hhigh := Int.emod_lt_of_pos t' hpos
    have hdigits : 0 < P.fractionDigits ∧ P.perSecond = 10 ^ P.fractionDigits := by
      cases P with
      | seconds => exact absurd rfl hP
      | milliseconds => decide
      | microseconds => decide
      | nanoseconds => decide
    rw [hsame]
    refine List.append_left_lt (List.append_left_lt (padded_lt_padded hdigits.1 ?_ (by omega)))
    have hpow : ((10 ^ P.fractionDigits : ℕ) : ℤ) = P.perSecond := by
      rw [hdigits.2]
      norm_num
    omega

/-- **Time stamps are in the order of the counts.** -/
theorem timestamp_lt_iff (hP : P ≠ .seconds) (h : P.InYears t) (h' : P.InYears t')
    (useTimeSign : Bool) :
    P.timestamp t useTimeSign < P.timestamp t' useTimeSign ↔ t < t' := by
  rcases Int.lt_trichotomy t t' with hlt | rfl | hgt
  · exact iff_of_true (timestamp_lt hP h h' hlt useTimeSign) hlt
  · exact iff_of_false (List.lt_irrefl _) (Int.lt_irrefl _)
  · exact iff_of_false (List.lt_asymm (timestamp_lt hP h' h hgt useTimeSign)) (Int.lt_asymm hgt)

/-- **Counts on both sides of the epoch.** In the three precisions with a fraction, two counts of
instants between 1678 and 2261 are written as their time stamps, in the order of the counts,
exactly when each of them is not before the epoch or is a whole number of seconds. -/
theorem rendered_inOrder_iff (hP : P ≠ .seconds) (h : P.InYears t) (h' : P.InYears t')
    (useTimeSign : Bool) :
    P.Rendered t useTimeSign ∧ P.Rendered t' useTimeSign ∧ P.OrderKept t t' useTimeSign ↔
      P.Whole t ∧ P.Whole t' := by
  rw [rendered_iff hP h, rendered_iff hP h', ← and_assoc, and_iff_left_iff_imp]
  rintro ⟨hwhole, hwhole'⟩
  exact ⟨_, _, (rendered_iff hP h useTimeSign).2 hwhole, (rendered_iff hP h' useTimeSign).2 hwhole',
    timestamp_lt_iff hP h h' useTimeSign⟩

/-- A second before the epoch, and a millisecond behind it. -/
theorem rendered_inOrder_epoch :
    Precision.milliseconds.Rendered (-1000) false ∧ Precision.milliseconds.Rendered 1 false ∧
        Precision.milliseconds.OrderKept (-1000) 1 false ↔
      Precision.milliseconds.Whole (-1000) ∧ Precision.milliseconds.Whole 1 :=
  rendered_inOrder_iff (by decide) ⟨by decide, by decide⟩
    ⟨by decide, by decide⟩ false

/-- The millisecond before the epoch is written with a sign in its fraction, and the millisecond
before it behind it. -/
theorem not_rendered_epoch :
    Precision.milliseconds.toMillisString (-1) false = some (str "1970-01-01 00:00:00.0-1") ∧
      Precision.milliseconds.timestamp (-1) false = str "1969-12-31 23:59:59.999" ∧
      ¬Precision.milliseconds.Rendered (-1) false ∧
      ¬Precision.milliseconds.OrderKept (-2) (-1) false := by
  have hlast : Precision.milliseconds.toMillisString (-1) false =
      some (str "1970-01-01 00:00:00.0-1") := by decide
  have hbefore : Precision.milliseconds.toMillisString (-2) false =
      some (str "1970-01-01 00:00:00.0-2") := by decide
  have hstamp : Precision.milliseconds.timestamp (-1) false = str "1969-12-31 23:59:59.999" := by
    decide
  refine ⟨hlast, hstamp, ?_, ?_⟩
  · rw [Precision.Rendered, hlast, hstamp]
    decide
  · rintro ⟨s, s', hs, hs', horder⟩
    obtain rfl := Option.some.inj (hbefore.symm.trans hs)
    obtain rfl := Option.some.inj (hlast.symm.trans hs')
    exact absurd (horder.2 (by decide)) (by decide)

end Behh.DateAndTime.Utc
