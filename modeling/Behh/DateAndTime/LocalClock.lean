import Behh.DateAndTime.Renderings

/-!
# The local wall clock

`local_timezone` compares what `mktime` makes of the time in UTC and of the local time of one
instant. The time in UTC is not marked as daylight saving time, so it is read as standard time, and
the difference is the standard offset; it is returned in hours, truncated toward zero. A text made
with it shows the local clock when the offset in force is that many hours: when the standard offset
has no odd minutes and no daylight saving time is in force.

Two instants have different texts, so the texts agree in no other case.

## Main results

* `localTimezone_eq`: `local_timezone` is the standard offset in hours.
* `strftime_humanFormat_injective`: different instants are written differently.
* `localClock_iff`: when the text is that of the local clock.
-/

namespace Behh.DateAndTime

/-- The difference that `local_timezone` divides is the standard offset. -/
theorem localTimezone_eq (z : TimeZone) (now : ℤ) :
    localTimezone z now = z.standard.tdiv 3600 := by
  have hstandard := z.standard_mem
  have hdiff : now / 1000000000 - (now / 1000000000 - z.standard) = z.standard := by omega
  simp only [localTimezone, z.mktime_gmtime, z.mktime_localtime_eq, hdiff, toInt32]
  rw [Int.bmod_eq_of_le (by omega) (by omega)]

/-- The hours of a standard offset are not changed by the clamping. -/
theorem timezoneOffset_localTimezone (z : TimeZone) (now : ℤ) :
    Utc.timezoneOffset (localTimezone z now) = z.standard.tdiv 3600 := by
  have hstandard := z.standard_mem
  have hhours : -12 ≤ z.standard.tdiv 3600 ∧ z.standard.tdiv 3600 ≤ 14 := by
    rcases Int.le_total 0 z.standard with hpos | hneg
    · rw [Int.tdiv_eq_ediv_of_nonneg hpos]
      omega
    · have hflip : z.standard.tdiv 3600 = -((-z.standard) / 3600) := by
        rw [← Int.tdiv_eq_ediv_of_nonneg (by omega), Int.neg_tdiv, Int.neg_neg]
      rw [hflip]
      omega
  rw [localTimezone_eq, Utc.timezoneOffset_eq]
  omega

/-! ### Different instants are written differently -/

/-- When the parts of a format make texts of equal lengths for two times, equal texts are made of
equal parts. -/
theorem text_eq_of_flatMap_eq {tm tm' : Tm} {ds : List Directive}
    (hlength : ∀ d ∈ ds, (d.text tm).length = (d.text tm').length)
    (h : ds.flatMap (Directive.text tm) = ds.flatMap (Directive.text tm')) :
    ∀ d ∈ ds, d.text tm = d.text tm' := by
  induction ds with
  | nil => simp
  | cons d ds ih =>
    obtain ⟨hd, hds⟩ := List.forall_mem_cons.1 hlength
    rw [List.flatMap_cons, List.flatMap_cons] at h
    obtain ⟨hfirst, hrest⟩ := List.append_inj h hd
    exact List.forall_mem_cons.2 ⟨hfirst, ih hds hrest⟩

/-- All parts of a format but the year make texts of one length. -/
theorem length_text_of_inRange {tm : Tm} (h : tm.InRange) {d : Directive}
    (hd : d ≠ .field .year) : (d.text tm).length = Utc.width d := by
  have hsec := h.sec
  have hmin := h.min
  have hhour := h.hour
  have hmday := h.mday
  have hmon := h.mon
  cases d with
  | literal c => rfl
  | field f =>
    have hf : f ≠ .year := fun hf => hd (congrArg Directive.field hf)
    have hget : (f.get tm).toNat < 10 ^ 2 := by
      cases f <;> simp only [Field.get] <;> first | omega | exact absurd rfl hf
    rw [Directive.text, Field.text, if_neg hf, length_padded (by decide) hget]
    cases f <;> first | rfl | exact absurd rfl hf

theorem get_eq_of_text_eq {tm tm' : Tm} (h : tm.InRange) (h' : tm'.InRange) {f : Field}
    (htext : f.text tm = f.text tm') : f.get tm = f.get tm' := by
  rw [Field.text, Field.text] at htext
  split at htext
  · exact intNumeral_injective htext
  · next hf =>
    have hnonneg : ∀ tm : Tm, tm.InRange → 0 ≤ f.get tm := by
      intro tm h
      have hsec := h.sec
      have hmin := h.min
      have hhour := h.hour
      have hmday := h.mday
      have hmon := h.mon
      cases f <;> simp only [Field.get] <;> first | omega | exact absurd rfl hf
    have hnat := padded_injective htext
    have hpos := hnonneg tm h
    have hpos' := hnonneg tm' h'
    omega

theorem gmtime_eq_of_get {t t' : ℤ} (h : ∀ f : Field, f.get (gmtime t) = f.get (gmtime t')) :
    gmtime t = gmtime t' := by
  have hyear : (gmtime t).year + 1900 = (gmtime t').year + 1900 := h .year
  have hmon : (gmtime t).mon + 1 = (gmtime t').mon + 1 := h .month
  ext
  · exact h .second
  · exact h .minute
  · exact h .hour
  · exact h .day
  · omega
  · omega
  · rfl

/-- **Different instants are written differently** in the human readable formats. -/
theorem strftime_humanFormat_injective (useTimeSign : Bool) :
    Function.Injective fun t => strftime (gmtime t) (Utc.humanFormat useTimeSign) := by
  intro t t' h
  have hrange := gmtime_inRange t
  have hrange' := gmtime_inRange t'
  -- the year may have any number of digits, what stands behind it has a fixed length
  obtain ⟨ds, hds, hyear, hfields⟩ : ∃ ds,
      directives (Utc.humanFormat useTimeSign) = .field .year :: ds ∧ .field .year ∉ ds ∧
        ∀ f : Field, f ≠ .year → .field f ∈ ds := by
    cases useTimeSign
    · exact ⟨(directives (Utc.humanFormat false)).tail, by decide, by decide,
        fun f hf => by cases f <;> first | decide | exact absurd rfl hf⟩
    · exact ⟨(directives (Utc.humanFormat true)).tail, by decide, by decide,
        fun f hf => by cases f <;> first | decide | exact absurd rfl hf⟩
  have hlength : ∀ d ∈ ds, (d.text (gmtime t)).length = (d.text (gmtime t')).length := by
    intro d hd
    have hne : d ≠ .field .year := fun hyr => hyear (hyr ▸ hd)
    rw [length_text_of_inRange hrange hne, length_text_of_inRange hrange' hne]
  have hsum : (ds.flatMap (Directive.text (gmtime t))).length =
      (ds.flatMap (Directive.text (gmtime t'))).length := by
    rw [List.length_flatMap, List.length_flatMap, List.map_congr_left hlength]
  simp only [strftime, hds, List.flatMap_cons] at h
  obtain ⟨hfirst, hrest⟩ := List.append_inj' h hsum
  have hparts := text_eq_of_flatMap_eq hlength hrest
  refine gmtime_injective (gmtime_eq_of_get fun f => ?_)
  by_cases hf : f = .year
  · subst hf
    exact get_eq_of_text_eq hrange hrange' hfirst
  · exact get_eq_of_text_eq hrange hrange' (hparts _ (hfields f hf))

/-! ### The local clock -/

/-- **The local wall clock.** The text made with `local_timezone` shows the date and the time that
`localtime` gives exactly when what the standard offset has beyond whole hours and what daylight
saving adds cancel out; from 1970 on the right hand side is 0. Before 1970 the text rounds a broken
second up and `localtime` rounds it down. -/
theorem localClock_iff (z : TimeZone) (now : ℤ) (useTimeSign : Bool) :
    Utc.YYYYMMDDhhmmss.toStringHuman now (localTimezone z now) useTimeSign =
        strftime (z.localtime (now / 1000000000)) (Utc.humanFormat useTimeSign) ↔
      z.standard.tmod 3600 + z.daylight (now / 1000000000) =
        now.tdiv 1000000000 - now / 1000000000 := by
  have hhours := Int.mul_tdiv_add_tmod z.standard 3600
  have hinj : strftime (gmtime (now.tdiv 1000000000 + z.standard.tdiv 3600 * 3600))
        (Utc.humanFormat useTimeSign) =
      strftime (gmtime (now / 1000000000 + z.offset (now / 1000000000)))
        (Utc.humanFormat useTimeSign) ↔
      now.tdiv 1000000000 + z.standard.tdiv 3600 * 3600 =
        now / 1000000000 + z.offset (now / 1000000000) :=
    (strftime_humanFormat_injective useTimeSign).eq_iff
  have hlocal : strftime (z.localtime (now / 1000000000)) (Utc.humanFormat useTimeSign) =
      strftime (gmtime (now / 1000000000 + z.offset (now / 1000000000)))
        (Utc.humanFormat useTimeSign) := strftime_isdst _ _ _
  rw [Utc.YYYYMMDDhhmmss.toStringHuman, Utc.put_text, Utc.offsetTime,
    timezoneOffset_localTimezone, Utc.toTimeT, hlocal, hinj, TimeZone.offset]
  omega

/-- A zone one hour ahead of UTC that is always two hours ahead, as in summer. -/
def summerTime : TimeZone := TimeZone.ofSaving 3600 3600 (fun _ => true) (by decide)

/-- A zone five hours and a half ahead of UTC. -/
def halfHour : TimeZone := TimeZone.ofSaving 19800 0 (fun _ => false) (by decide)

/-- In daylight saving time, and in a zone whose offset is no whole number of hours, the text does
not show the local clock. -/
theorem not_localClock :
    Utc.YYYYMMDDhhmmss.toStringHuman 1720915200000000000
        (localTimezone summerTime 1720915200000000000) false ≠
        strftime (summerTime.localtime 1720915200) (Utc.humanFormat false) ∧
      Utc.YYYYMMDDhhmmss.toStringHuman 1720915200000000000
        (localTimezone halfHour 1720915200000000000) false ≠
        strftime (halfHour.localtime 1720915200) (Utc.humanFormat false) := by
  constructor
  · decide
  · decide

end Behh.DateAndTime
