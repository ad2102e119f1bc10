import Behh.DateAndTime.CountPath

/-!
# Overflow in the conversions

A point in time is a count of nanoseconds of 64 bits, from September 1677 to April 2262. The
functions `to_millis_string` multiply their argument up to nanoseconds, the functions `to_millis`
the count of seconds that `mktime` returns. Neither looks at the size of the number first, so the
product overflows for larger arguments, and for dates such as the last day of 9999.

## Main definitions

* `readTime`: the time that `to_millis` reads of a text.
* `Precision.CountFits`, `SecondsFit`: the counts whose products are in range.

## Main results

* `conversions_fit_iff`: the arguments and the texts without an overflow.
-/

namespace Behh.DateAndTime.Utc

/-- The format that `to_millis` reads a text with, as there is a `T` anywhere in it or not. -/
def timeFormat (text : Bytes) : Bytes :=
  if 0x54 ∈ text then str "%Y-%m-%dT%H:%M:%S" else str "%Y-%m-%d %H:%M:%S"

/-- The time that `to_millis` reads, and the text left behind it; `none` when the stream fails. -/
def readTime (text : Bytes) : Option (Tm × Bytes) := getTime (timeFormat text) {} text

/-- A text that is accepted is converted by way of nanoseconds. -/
theorem toMillisOf_eq {perSecond : ℤ} {name : Bytes} {z : TimeZone} {text : Bytes} {time : Tm}
    {rest : Bytes} (h : readTime text = some (time, rest)) :
    toMillisOf perSecond name z text = (checked (z.mktime time * 1000000000)).map fun tp =>
      .ok (tp.tdiv (1000000000 / perSecond)) := by
  rw [readTime, timeFormat] at h
  simp only [toMillisOf, h]

/-- A text that is not accepted makes the function throw. -/
theorem toMillisOf_of_none {perSecond : ℤ} {name : Bytes} {z : TimeZone} {text : Bytes}
    (h : readTime text = none) : toMillisOf perSecond name z text =
      some (.error (str "ERROR " ++ name ++ str ": Failed to parse time string")) := by
  rw [readTime, timeFormat] at h
  simp only [toMillisOf, h]

/-- Reading fields leaves the mark for daylight saving alone. -/
theorem getTimeFrom_isdst {ds : List Directive} {tm tm' : Tm} {s rest : Bytes}
    (h : getTimeFrom ds tm s = some (tm', rest)) : tm'.isdst = tm.isdst := by
  have hset : ∀ (f : Field) (n : ℤ) (t : Tm), (f.set n t).isdst = t.isdst := by
    intro f n t
    cases f <;> rfl
  induction ds generalizing tm s with
  | nil =>
    obtain ⟨rfl, -⟩ := Prod.mk.inj (Option.some.inj h)
    rfl
  | cons d ds ih =>
    cases s with
    | nil => cases h
    | cons x s =>
      cases d with
      | field f =>
        rw [getTimeFrom] at h
        split at h
        · cases h
        · split at h
          · obtain ⟨rfl, -⟩ := Prod.mk.inj (Option.some.inj h)
            exact hset _ _ _
          · rw [ih h, hset]
      | literal c =>
        rw [getTimeFrom] at h
        split at h
        · exact ih h
        · split at h
          · exact ih h
          · cases h

theorem mktime_of_readTime {text : Bytes} {time : Tm} {rest : Bytes}
    (h : readTime text = some (time, rest)) (z : TimeZone) :
    z.mktime time = timegm time - z.standard := by
  rw [readTime, getTime] at h
  split at h
  · cases h
  · exact z.mktime_standard _ (getTimeFrom_isdst h)

/-! ### The counts in range -/

/-- The counts of units whose nanoseconds are a number of 64 bits. -/
def Precision.CountFits : Precision → ℤ → Prop
  | seconds, count | milliseconds, count => -9223372036854 ≤ count ∧ count ≤ 9223372036854
  | microseconds, count => -9223372036854775 ≤ count ∧ count ≤ 9223372036854775
  | nanoseconds, count => -2 ^ 63 ≤ count ∧ count < 2 ^ 63

/-- The counts of seconds whose nanoseconds are a number of 64 bits. -/
def SecondsFit (seconds : ℤ) : Prop := -9223372036 ≤ seconds ∧ seconds ≤ 9223372036

theorem checked_ne_none_iff (n : ℤ) : checked n ≠ none ↔ -2 ^ 63 ≤ n ∧ n < 2 ^ 63 := by
  rw [checked]
  split
  · next h => exact iff_of_true (by simp) h
  · next h => exact iff_of_false (by simp) h

theorem timePoint_ne_none_iff (P : Precision) (count : ℤ) :
    timePoint P.perSecond count ≠ none ↔ P.CountFits count := by
  rw [timePoint, checked_ne_none_iff]
  cases P <;> simp only [Precision.perSecond, Precision.CountFits] <;> omega

theorem toMillisString_ne_none_iff (P : Precision) (count : ℤ) (useTimeSign : Bool) :
    P.toMillisString count useTimeSign ≠ none ↔ P.CountFits count := by
  rw [← timePoint_ne_none_iff, ← not_iff_not, not_not, not_not]
  cases P <;> exact Option.map_eq_none_iff

theorem toMillis_ne_none_iff (P : Precision) (z : TimeZone) {text : Bytes} {time : Tm}
    {rest : Bytes} (h : readTime text = some (time, rest)) :
    P.toMillis z text ≠ none ↔ SecondsFit (timegm time - z.standard) := by
  have hchecked : P.toMillis z text = none ↔ checked (z.mktime time * 1000000000) = none := by
    cases P <;> exact (iff_of_eq (congrArg (· = none) (toMillisOf_eq h))).trans
      Option.map_eq_none_iff
  rw [Ne, hchecked, ← Ne, checked_ne_none_iff, mktime_of_readTime h, SecondsFit]
  omega

/-- **The conversions without an overflow.** In every precision the product of `to_millis_string`
is in range exactly for the counts of less than 2 ^ 63 nanoseconds, and that of `to_millis`, for a
text that it accepts, exactly when the seconds of the instant that the text names are. -/
theorem conversions_fit_iff (P : Precision) (count : ℤ) (useTimeSign : Bool) (z : TimeZone)
    {text : Bytes} {time : Tm} {rest : Bytes} (h : readTime text = some (time, rest)) :
    (P.toMillisString count useTimeSign ≠ none ↔ P.CountFits count) ∧
      (P.toMillis z text ≠ none ↔ SecondsFit (timegm time - z.standard)) :=
  ⟨toMillisString_ne_none_iff P count useTimeSign, toMillis_ne_none_iff P z h⟩

/-- The last second of 9999, which is accepted. -/
theorem conversions_fit_year9999 :
    (Precision.seconds.toMillisString 253402300799000 false ≠ none ↔
        Precision.seconds.CountFits 253402300799000) ∧
      (Precision.seconds.toMillis TimeZone.utc (str "9999-12-31 23:59:59") ≠ none ↔
        SecondsFit (timegm { year := 8099, mon := 11, mday := 31, hour := 23, min := 59, sec := 59 }
          - TimeZone.utc.standard)) :=
  conversions_fit_iff .seconds 253402300799000 false TimeZone.utc
    (show readTime (str "9999-12-31 23:59:59") = some
      ({ year := 8099, mon := 11, mday := 31, hour := 23, min := 59, sec := 59 }, []) by decide)

/-- The last second of 9999 overflows, as text and as a count. -/
theorem not_fit_year9999 :
    Precision.seconds.toMillisString 253402300799000 false = none ∧
      Precision.milliseconds.toMillisString 253402300799000 false = none ∧
      Precision.microseconds.toMillisString 253402300799000000 false = none ∧
      ∀ P : Precision, P.toMillis TimeZone.utc (str "9999-12-31 23:59:59") = none := by
  refine ⟨by decide, by decide, by decide, fun P => ?_⟩
  cases P <;> decide

end Behh.DateAndTime.Utc
