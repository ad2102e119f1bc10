import Mathlib.Algebra.BigOperators.Group.List.Basic
import Mathlib.Algebra.GroupWithZero.Nat
import Mathlib.Data.Int.Notation
import Mathlib.Tactic.Common

/-!
# The Gregorian calendar

Days are numbered from 1 January 1970 on, in both directions. A date is a year, a month of it and
a day of the month, both counted from 0, and carries the proof that the month has this day.

A year is cut into months of given lengths. Which piece of a line cut into pieces a position
belongs to, and how far it is from the beginning of the piece, is `locate`.

## Main definitions

* `locate`: the piece a position falls into, and its distance from the piece's beginning.
* `Calendar.yearStart`, `Calendar.monthLengths`: the first day of a year, the lengths of its months.
* `Calendar.Date`: a date that exists.
* `Calendar.dayNumber`, `Calendar.ofDayNumber`: the day of a date and the date of a day.

## Main results

* `locate_spec`: what `locate` finds.
* `Calendar.dayNumber_ofDayNumber`: the date of a day is that of no other day.
* `Calendar.date_lt`: later days have later dates.
-/

/-! ### Positions in a line cut into pieces -/

/-- The piece that position `n` belongs to in a line cut into pieces of the given lengths, and the
distance of `n` from the beginning of this piece. -/
def locate : List ℕ → ℕ → ℕ × ℕ
  | [], n => (0, n)
  | l :: ls, n => if n < l then (0, n) else ((locate ls (n - l)).1 + 1, (locate ls (n - l)).2)

/-- A position is found in a piece that is long enough, behind the pieces before it. -/
theorem locate_spec {ls : List ℕ} {n : ℕ} (h : n < ls.sum) :
    (locate ls n).2 < ls.getD (locate ls n).1 0 ∧
      (ls.take (locate ls n).1).sum + (locate ls n).2 = n := by
  induction ls generalizing n with
  | nil => simp at h
  | cons l ls ih =>
    rw [List.sum_cons] at h
    rw [locate]
    split
    · next hl => simpa using hl
    · obtain ⟨hlt, hsum⟩ := ih (n := n - l) (by omega)
      refine ⟨by simpa using hlt, ?_⟩
      rw [List.take_succ_cons, List.sum_cons]
      omega

theorem sum_take_add_lt {ls : List ℕ} {i r : ℕ} (h : r < ls.getD i 0) :
    (ls.take i).sum + r < ls.sum := by
  induction ls generalizing i with
  | nil => simp at h
  | cons l ls ih =>
    cases i with
    | zero =>
      have hl : r < l := by simpa using h
      simp
      omega
    | succ i =>
      have hlt := ih (i := i) (by simpa using h)
      simp only [List.take_succ_cons, List.sum_cons]
      omega

namespace Calendar

/-! ### Years and months -/

/-- The leap years. -/
def leapYear (y : ℤ) : Bool := y % 4 = 0 && (y % 100 ≠ 0 || y % 400 = 0)

/-- The number of the first day of year `y`; 477 leap years lie before 1970. -/
def yearStart (y : ℤ) : ℤ :=
  365 * (y - 1970) + (y - 1) / 4 - (y - 1) / 100 + (y - 1) / 400 - 477

/-- The number of days of a year. -/
def yearLength (leap : Bool) : ℕ := if leap then 366 else 365

/-- The lengths of the months of a year. -/
def monthLengths (leap : Bool) : List ℕ :=
  [31, if leap then 29 else 28, 31, 30, 31, 30, 31, 31, 30, 31, 30, 31]

theorem sum_monthLengths (leap : Bool) : (monthLengths leap).sum = yearLength leap := by
  cases leap <;> rfl

theorem yearStart_succ (y : ℤ) : yearStart (y + 1) = yearStart y + yearLength (leapYear y) := by
  have hleap : leapYear y = true ↔ y % 4 = 0 ∧ (y % 100 ≠ 0 ∨ y % 400 = 0) := by simp [leapYear]
  rw [yearStart, yearStart, yearLength]
  split
  · have h := hleap.1 ‹_›
    omega
  · have h := mt hleap.2 ‹_›
    omega

theorem yearStart_mono {y y' : ℤ} (h : y ≤ y') : yearStart y ≤ yearStart y' := by
  rw [yearStart, yearStart]
  omega

/-- The year of a day: 400 years have 146097 days, which gives it up to one year. -/
def yearOf (n : ℤ) : ℤ :=
  let y := 400 * n / 146097 + 1970
  if n < yearStart y then y - 1 else if n < yearStart (y + 1) then y else y + 1

theorem yearOf_spec (n : ℤ) : yearStart (yearOf n) ≤ n ∧ n < yearStart (yearOf n + 1) := by
  have hlow : yearStart (400 * n / 146097 + 1970 - 1) ≤ n := by
    rw [yearStart]
    omega
  have hhigh : n < yearStart (400 * n / 146097 + 1970 + 1 + 1) := by
    rw [yearStart]
    omega
  rw [yearOf]
  split
  · exact ⟨hlow, by rwa [Int.sub_add_cancel]⟩
  · split
    · exact ⟨Int.not_lt.1 ‹_›, ‹_›⟩
    · exact ⟨Int.not_lt.1 ‹_›, hhigh⟩

/-! ### Dates -/

/-- A date that exists. -/
@[ext]
structure Date where
  /-- The year. -/
  year : ℤ
  /-- The month of the year, from 0 on. -/
  month : ℕ
  /-- The day of the month, from 0 on. -/
  day : ℕ
  /-- The month has this day. -/
  valid : day < (monthLengths (leapYear year)).getD month 0
  deriving DecidableEq

theorem Date.month_lt (d : Date) : d.month < 12 := by
  by_contra h
  have hvalid := d.valid
  have hlen : (monthLengths (leapYear d.year)).length ≤ d.month := Nat.not_lt.1 h
  rw [List.getD_eq_getElem?_getD, List.getElem?_eq_none hlen] at hvalid
  exact absurd hvalid (Nat.not_lt_zero _)

theorem Date.day_lt (d : Date) : d.day < 31 := by
  have hall : ∀ leap : Bool, ∀ i : Fin 12, (monthLengths leap).getD i.1 0 ≤ 31 := by decide
  exact Nat.lt_of_lt_of_le d.valid (hall _ ⟨d.month, d.month_lt⟩)

/-- The number of days between the beginning of a year and the beginning of its month `month`. -/
def monthStart (leap : Bool) (month : ℕ) : ℕ := ((monthLengths leap).take month).sum

/-- The number of the day with a given date. -/
def dayNumber (d : Date) : ℤ := yearStart d.year + monthStart (leapYear d.year) d.month + d.day

/-- The distance of a day from the beginning of its year. -/
def dayOfYear (n : ℤ) : ℕ := (n - yearStart (yearOf n)).toNat

theorem dayOfYear_lt (n : ℤ) : dayOfYear n < (monthLengths (leapYear (yearOf n))).sum := by
  have h := yearOf_spec n
  rw [yearStart_succ] at h
  rw [sum_monthLengths, dayOfYear]
  omega

/-- The date of a day. -/
def ofDayNumber (n : ℤ) : Date where
  year := yearOf n
  month := (locate (monthLengths (leapYear (yearOf n))) (dayOfYear n)).1
  day := (locate (monthLengths (leapYear (yearOf n))) (dayOfYear n)).2
  valid := (locate_spec (dayOfYear_lt n)).1

theorem dayNumber_ofDayNumber (n : ℤ) : dayNumber (ofDayNumber n) = n := by
  have hsum := (locate_spec (dayOfYear_lt n)).2
  have hyear := (yearOf_spec n).1
  simp only [dayNumber, ofDayNumber, monthStart]
  rw [dayOfYear] at *
  omega

/-- A month begins behind the days of the months before it. -/
theorem monthStart_add_lt {leap : Bool} {month month' day : ℕ}
    (hday : day < (monthLengths leap).getD month 0) (h : month < month') (hmonth : month' < 12) :
    monthStart leap month + day < monthStart leap month' := by
  have hall : ∀ leap : Bool, ∀ i j : Fin 12, i.1 < j.1 →
      monthStart leap i.1 + (monthLengths leap).getD i.1 0 ≤ monthStart leap j.1 := by decide
  have hle := hall leap ⟨month, by omega⟩ ⟨month', hmonth⟩ h
  simp only at hle
  omega

theorem dayNumber_lt (d : Date) : dayNumber d < yearStart (d.year + 1) := by
  have hlt := sum_take_add_lt d.valid
  rw [sum_monthLengths] at hlt
  rw [yearStart_succ, dayNumber, monthStart]
  omega

theorem yearStart_le_dayNumber (d : Date) : yearStart d.year ≤ dayNumber d := by
  rw [dayNumber]
  omega

/-- **Later days have later dates**: a later year, or a later month of the same year, or a later day
of the same month. -/
theorem date_lt {d d' : Date} (h : dayNumber d < dayNumber d') :
    d.year < d'.year ∨ d.year = d'.year ∧
      (d.month < d'.month ∨ d.month = d'.month ∧ d.day < d'.day) := by
  rcases Int.lt_trichotomy d.year d'.year with hyear | hyear | hyear
  · exact Or.inl hyear
  · refine Or.inr ⟨hyear, ?_⟩
    rw [dayNumber, dayNumber, ← hyear] at h
    rcases Nat.lt_trichotomy d.month d'.month with hmonth | hmonth | hmonth
    · exact Or.inl hmonth
    · rw [← hmonth] at h
      exact Or.inr ⟨hmonth, by omega⟩
    · have hvalid := d'.valid
      rw [← hyear] at hvalid
      have hlater := monthStart_add_lt hvalid hmonth d.month_lt
      omega
  · have hend := dayNumber_lt d'
    have hstart := yearStart_le_dayNumber d
    have hle : yearStart (d'.year + 1) ≤ yearStart d.year := yearStart_mono (by omega)
    omega

example : dayNumber ⟨1970, 0, 0, by decide⟩ = 0 := by decide

end Calendar
