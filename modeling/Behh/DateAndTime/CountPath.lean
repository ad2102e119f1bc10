import Behh.DateAndTime.Renderings

/-!
# The count of units and the text of one clock reading

The text of a clock reading can be had in two ways: directly, where the count of seconds is shifted
by the offset and the fraction is that of the clock reading, or by way of `to_millis_now`, where the
point in time is shifted and truncated to a count of units that `to_millis_string` breaks down.

The shift is a whole number of seconds and a second a whole number of units, so truncating after
the shift changes neither the second nor the fraction in these units.

## Main results

* `toMillisStringOf_truncated`: what `to_millis_string` makes of a truncated point in time.
* `countPath_agrees`: both ways lead to the same text.
-/

namespace Behh.DateAndTime.Utc

variable {now timeOffset perSecond : ℤ}

/-- The numbers of units in a second that occur. -/
def IsUnit (perSecond : ℤ) : Prop :=
  perSecond = 1000 ∨ perSecond = 1000000 ∨ perSecond = 1000000000

theorem Precision.isUnit (P : Precision) : IsUnit P.perSecond := by
  cases P <;> simp [IsUnit, perSecond]

/-! ### Truncating to units -/

theorem toTimeT_truncated (hunit : IsUnit perSecond) (h : 0 ≤ now) :
    toTimeT (now.tdiv (1000000000 / perSecond) * (1000000000 / perSecond)) = toTimeT now := by
  rw [Int.tdiv_eq_ediv_of_nonneg h, toTimeT_of_nonneg h]
  rcases hunit with rfl | rfl | rfl
  · rw [toTimeT_of_nonneg (by omega)]
    omega
  · rw [toTimeT_of_nonneg (by omega)]
    omega
  · rw [toTimeT_of_nonneg (by omega)]
    omega

/-- Truncating to units keeps the fraction in these units. -/
theorem fraction_truncated (hunit : IsUnit perSecond) (now : ℤ) :
    fraction perSecond (now.tdiv (1000000000 / perSecond) * (1000000000 / perSecond)) =
      fraction perSecond now := by
  have hne : 1000000000 / perSecond ≠ 0 := by rcases hunit with rfl | rfl | rfl <;> decide
  rw [fraction, fraction, Int.mul_tdiv_cancel _ hne]

theorem fraction_shifted (hunit : IsUnit perSecond) (h : 0 ≤ now) {seconds : ℤ}
    (hshift : 0 ≤ now + seconds * 1000000000) :
    fraction perSecond (now + seconds * 1000000000) = fraction perSecond now := by
  have heq : ∀ t : ℤ, 0 ≤ t → fraction perSecond t = t / (1000000000 / perSecond) % perSecond := by
    intro t ht
    rw [fraction, Int.tdiv_eq_ediv_of_nonneg ht, Int.tmod_eq_emod_of_nonneg]
    rcases hunit with rfl | rfl | rfl <;> omega
  rw [heq _ h, heq _ hshift]
  rcases hunit with rfl | rfl | rfl <;> omega

/-- The point in time of a count that was truncated. -/
theorem timePoint_truncated (hunit : IsUnit perSecond) (h : 0 ≤ now) (hhigh : now < 2 ^ 63) :
    timePoint perSecond (now.tdiv (1000000000 / perSecond)) =
      some (now.tdiv (1000000000 / perSecond) * (1000000000 / perSecond)) := by
  have hcount : -2 ^ 63 ≤ now.tdiv (1000000000 / perSecond) * (1000000000 / perSecond) ∧
      now.tdiv (1000000000 / perSecond) * (1000000000 / perSecond) < 2 ^ 63 := by
    rw [Int.tdiv_eq_ediv_of_nonneg h]
    rcases hunit with rfl | rfl | rfl <;> omega
  rw [timePoint, checked, if_pos hcount]

/-- **A count that was truncated from a point in time** is written as this point in time. -/
theorem toMillisStringOf_truncated (hunit : IsUnit perSecond) (h : 0 ≤ now) (hhigh : now < 2 ^ 63)
    (w : ℕ) (useTimeSign : Bool) :
    toMillisStringOf perSecond w (now.tdiv (1000000000 / perSecond)) useTimeSign =
      some (putFraction perSecond w now
        ((putTimePoint now useTimeSign).putText (str "."))).text := by
  rw [toMillisStringOf, timePoint_truncated hunit h hhigh, Option.map_some, putTimePoint,
    toTimeT_truncated hunit h, fraction_truncated hunit now]
  rfl

/-! ### Both paths -/

section

variable (hlow : 43200000000000 ≤ now) (hhigh : now < 9214646400000000000)
include hlow hhigh

theorem toMillisNowOf_eq (perSecond timeOffset : ℤ) :
    toMillisNowOf perSecond now timeOffset =
      some ((now + timezoneOffset timeOffset * 3600 * 1000000000).tdiv
        (1000000000 / perSecond)) := by
  have hoffset := timezoneOffset_mem timeOffset
  rw [timezoneOffset_eq] at hoffset ⊢
  rw [toMillisNowOf, checked, if_pos (by omega)]
  rfl

/-- The point in time shifted by whole hours shows the shifted time. -/
theorem putTimePoint_shifted (timeOffset : ℤ) (useTimeSign : Bool) :
    putTimePoint (now + timezoneOffset timeOffset * 3600 * 1000000000) useTimeSign =
      put (humanFormat useTimeSign) now timeOffset := by
  have hoffset := timezoneOffset_mem timeOffset
  have htime : toTimeT (now + timezoneOffset timeOffset * 3600 * 1000000000) =
      toTimeT now + timezoneOffset timeOffset * 3600 := by
    rw [toTimeT_of_nonneg (by omega), toTimeT_of_nonneg (by omega)]
    omega
  rw [putTimePoint, htime]
  rfl

theorem countPath_fraction (hunit : IsUnit perSecond) (w : ℕ) (timeOffset : ℤ)
    (useTimeSign : Bool) :
    ((toMillisNowOf perSecond now timeOffset).bind fun count =>
        toMillisStringOf perSecond w count useTimeSign) =
      some (toStringHumanOf perSecond w now timeOffset useTimeSign) := by
  have hoffset := timezoneOffset_mem timeOffset
  rw [toMillisNowOf_eq hlow hhigh, Option.bind_some,
    toMillisStringOf_truncated hunit (by omega) (by omega),
    putTimePoint_shifted hlow hhigh, toStringHumanOf, putFraction,
    fraction_shifted hunit (by omega) (by omega), ← putFraction]

theorem countPath_seconds (timeOffset : ℤ) (useTimeSign : Bool) :
    ((YYYYMMDDhhmmss.toMillisNow now timeOffset).bind fun count =>
        YYYYMMDDhhmmss.toMillisString count useTimeSign) =
      some (YYYYMMDDhhmmss.toStringHuman now timeOffset useTimeSign) := by
  have hoffset := timezoneOffset_mem timeOffset
  have hunit : IsUnit 1000 := Or.inl rfl
  have hshifted := putTimePoint_shifted hlow hhigh timeOffset useTimeSign
  rw [putTimePoint] at hshifted
  rw [YYYYMMDDhhmmss.toMillisNow, toMillisNowOf_eq hlow hhigh, Option.bind_some,
    YYYYMMDDhhmmss.toMillisString, timePoint_truncated hunit (by omega) (by omega),
    Option.map_some, putTimePoint, toTimeT_truncated hunit (by omega), hshifted]
  rfl

/-- The counts of finer units are counts of milliseconds after truncation. -/
theorem toMillisNow_truncated (P : Precision) (timeOffset : ℤ) :
    ((P.toMillisNow now timeOffset).map fun count => count.tdiv (P.perSecond / 1000)) =
      some ((now + timezoneOffset timeOffset * 3600 * 1000000000) / 1000000) := by
  have hoffset := timezoneOffset_mem timeOffset
  have hnow : P.toMillisNow now timeOffset = toMillisNowOf P.perSecond now timeOffset := by
    cases P <;> rfl
  have hcount : (now + timezoneOffset timeOffset * 3600 * 1000000000).tdiv
        (1000000000 / P.perSecond) =
      (now + timezoneOffset timeOffset * 3600 * 1000000000) / (1000000000 / P.perSecond) :=
    Int.tdiv_eq_ediv_of_nonneg (by omega)
  have hpos : 0 ≤ (now + timezoneOffset timeOffset * 3600 * 1000000000) /
      (1000000000 / P.perSecond) := Int.ediv_nonneg (by omega) (by cases P <;> decide)
  rw [hnow, toMillisNowOf_eq hlow hhigh, Option.map_some, hcount, Int.tdiv_eq_ediv_of_nonneg hpos]
  congr 1
  cases P <;> simp only [Precision.perSecond] <;> omega

end

/-- **The count path is the text path.** From twelve hours after the epoch on and before 2262, with
every offset, the text of the count is the text of the clock reading in all four precisions, and the
four counts are the same number of milliseconds. -/
theorem countPath_agrees (hlow : 43200000000000 ≤ now) (hhigh : now < 9214646400000000000)
    (timeOffset : ℤ) (useTimeSign : Bool) :
    (∀ P : Precision,
        ((P.toMillisNow now timeOffset).bind fun count => P.toMillisString count useTimeSign) =
          some (P.toStringHuman now timeOffset useTimeSign)) ∧
      ∃ millis : ℤ, ∀ P : Precision,
        ((P.toMillisNow now timeOffset).map fun count => count.tdiv (P.perSecond / 1000)) =
          some millis := by
  refine ⟨fun P => ?_, _, fun P => toMillisNow_truncated hlow hhigh P timeOffset⟩
  cases P with
  | seconds => exact countPath_seconds hlow hhigh timeOffset useTimeSign
  | milliseconds => exact countPath_fraction hlow hhigh (Or.inl rfl) 3 timeOffset useTimeSign
  | microseconds =>
    exact countPath_fraction hlow hhigh (Or.inr (Or.inl rfl)) 6 timeOffset useTimeSign
  | nanoseconds =>
    exact countPath_fraction hlow hhigh (Or.inr (Or.inr rfl)) 9 timeOffset useTimeSign

/-- The two paths at noon of the first day of the epoch, with the largest offset. -/
theorem countPath_agrees_noon :
    (∀ P : Precision,
        ((P.toMillisNow 43200000000000 14).bind fun count => P.toMillisString count true) =
          some (P.toStringHuman 43200000000000 14 true)) ∧
      ∃ millis : ℤ, ∀ P : Precision,
        ((P.toMillisNow 43200000000000 14).map fun count => count.tdiv (P.perSecond / 1000)) =
          some millis :=
  countPath_agrees (by decide) (by decide) 14 true

end Behh.DateAndTime.Utc
