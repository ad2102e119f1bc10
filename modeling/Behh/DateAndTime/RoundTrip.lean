import Behh.DateAndTime.CountPath

/-!
# Reading back a written count

`to_millis_string` breaks a count down with `gmtime` and writes the date, the time of day and, but
for the first namespace, the fraction of the second. `to_millis` reads the text up to the seconds
and puts the fields together with `mktime`, which reads them as standard time of the machine's
zone. So the count that comes back is short of the fraction, and of the zone's offset.

## Main results

* `toMillis_written`: what `to_millis` makes of a text that begins with a date and a time of day.
* `toMillis_toMillisString`: what comes back of a count.
* `roundTrip_iff`: the counts that come back are the whole seconds, in zones without an offset.
-/

namespace Behh.DateAndTime.Utc

variable {perSecond t : ℤ}

/-! ### Reading -/

theorem readInto_humanFormat (s : ℤ) (useTimeSign : Bool) :
    readInto (gmtime s) (directives (humanFormat useTimeSign)) {} = gmtime s := by
  have hdirectives : ∀ c : UInt8,
      readInto (gmtime s) [.field .year, .literal 0x2d, .field .month, .literal 0x2d, .field .day,
        .literal c, .field .hour, .literal 0x3a, .field .minute, .literal 0x3a, .field .second] {} =
        gmtime s := by
    intro c
    ext <;> simp [readInto, Field.set, Field.get, gmtime]
  cases useTimeSign
  · exact hdirectives 0x20
  · exact hdirectives 0x54

/-- The letter that tells the formats apart is in the text when it is in the format. -/
theorem mem_written_iff {s : ℤ} (hlow : 0 ≤ s) (hhigh : s < 253402300800) (useTimeSign : Bool)
    {rest : Bytes} (hrest : 0x54 ∉ rest) :
    0x54 ∈ strftime (gmtime s) (humanFormat useTimeSign) ++ rest ↔ useTimeSign = true := by
  have hyear := gmtime_year hlow hhigh
  rw [List.mem_append]
  cases useTimeSign with
  | false =>
    have hnot : 0x54 ∉ strftime (gmtime s) (humanFormat false) :=
      not_mem_strftime (by decide) (by omega) (by decide)
    simp [hnot, hrest]
  | true =>
    have hmem : (0x54 : UInt8) ∈ strftime (gmtime s) (humanFormat true) :=
      List.mem_flatMap.2 ⟨.literal 0x54, by decide, by simp [Directive.text]⟩
    simp [hmem]

/-- **What is read of a written text.** Only the date and the time of day count, and they are read
as standard time of the zone. -/
theorem toMillis_written (hunit : IsUnit perSecond) (name : Bytes) (z : TimeZone) {s : ℤ}
    (hlow : 0 ≤ s) (hhigh : s < 9214646400) (useTimeSign : Bool) {rest : Bytes}
    (hrest : 0x54 ∉ rest) :
    toMillisOf perSecond name z (strftime (gmtime s) (humanFormat useTimeSign) ++ rest) =
      some (.ok ((s - z.standard) * perSecond)) := by
  have hyear := gmtime_year hlow (by omega)
  have hstandard := z.standard_mem
  have hfmt : (if 0x54 ∈ strftime (gmtime s) (humanFormat useTimeSign) ++ rest then
      str "%Y-%m-%dT%H:%M:%S" else str "%Y-%m-%d %H:%M:%S") = humanFormat useTimeSign := by
    simp only [mem_written_iff hlow (by omega) useTimeSign hrest]
    rfl
  have hread : getTime (humanFormat useTimeSign) {}
      (strftime (gmtime s) (humanFormat useTimeSign) ++ rest) = some (gmtime s, rest) := by
    rw [getTime_strftime (by omega), readInto_humanFormat]
    · exact fun f _ => f.readable (gmtime_inRange s) (by omega) (by omega)
    · cases useTimeSign <;> decide
    · cases useTimeSign <;> decide
  have hcount : ((s - z.standard) * 1000000000).tdiv (1000000000 / perSecond) =
      (s - z.standard) * perSecond := by
    have hsplit : (s - z.standard) * 1000000000 =
        (s - z.standard) * perSecond * (1000000000 / perSecond) := by
      rcases hunit with rfl | rfl | rfl <;> omega
    rw [hsplit, Int.mul_tdiv_cancel]
    rcases hunit with rfl | rfl | rfl <;> decide
  simp only [toMillisOf, hfmt, hread, z.mktime_gmtime]
  rw [checked, if_pos (by omega), Option.map_some, hcount]

/-! ### Writing -/

/-- The point in time of a count, and the second it lies in. -/
theorem timePoint_eq (hunit : IsUnit perSecond) (hlow : 0 ≤ t)
    (hhigh : t < 9214646400 * perSecond) :
    timePoint perSecond t = some (t * (1000000000 / perSecond)) ∧
      toTimeT (t * (1000000000 / perSecond)) = t / perSecond ∧
      0 ≤ t * (1000000000 / perSecond) := by
  have hpos : 0 ≤ t * (1000000000 / perSecond) := by rcases hunit with rfl | rfl | rfl <;> omega
  refine ⟨?_, ?_, hpos⟩
  · rw [timePoint, checked, if_pos]
    rcases hunit with rfl | rfl | rfl <;> omega
  · rw [toTimeT_of_nonneg hpos]
    rcases hunit with rfl | rfl | rfl <;> omega

theorem putTimePoint_text (tp : ℤ) (useTimeSign : Bool) :
    (putTimePoint tp useTimeSign).text =
      strftime (gmtime (toTimeT tp)) (humanFormat useTimeSign) := List.nil_append _

/-- The fraction of the second is written behind the date and the time of day. -/
theorem toMillisStringOf_eq (hunit : IsUnit perSecond) (hlow : 0 ≤ t)
    (hhigh : t < 9214646400 * perSecond) (w : ℕ) (useTimeSign : Bool) :
    ∃ rest, 0x54 ∉ rest ∧ toMillisStringOf perSecond w t useTimeSign =
      some (strftime (gmtime (t / perSecond)) (humanFormat useTimeSign) ++ rest) := by
  obtain ⟨hpoint, htime, hpos⟩ := timePoint_eq hunit hlow hhigh
  have hper : 0 < perSecond := by rcases hunit with rfl | rfl | rfl <;> decide
  have htext := putFraction_text hpos hper w ((putTimePoint (t * (1000000000 / perSecond))
    useTimeSign).putText (str ".")) rfl rfl
  rw [OStream.putText_text rfl, putTimePoint_text, htime, List.append_assoc] at htext
  refine ⟨_, ?_, by rw [toMillisStringOf, hpoint]; exact congrArg some htext⟩
  rw [List.mem_append, not_or]
  refine ⟨by decide, fun hmem => ?_⟩
  have hdigit := List.all_eq_true.1 (all_isdigit_padded _ _) _ hmem
  exact absurd hdigit (by decide)

theorem Precision.toMillisString_eq (P : Precision) (hlow : 0 ≤ t)
    (hhigh : t < 9214646400 * P.perSecond) (useTimeSign : Bool) :
    ∃ rest, 0x54 ∉ rest ∧ P.toMillisString t useTimeSign =
      some (strftime (gmtime (t / P.perSecond)) (humanFormat useTimeSign) ++ rest) := by
  have hunit := P.isUnit
  cases P with
  | seconds =>
    obtain ⟨hpoint, htime, -⟩ := timePoint_eq hunit hlow hhigh
    have htext := putTimePoint_text (t * (1000000000 / seconds.perSecond)) useTimeSign
    rw [htime] at htext
    refine ⟨[], List.not_mem_nil, ?_⟩
    rw [List.append_nil, ← htext]
    exact congrArg (Option.map fun tp => (putTimePoint tp useTimeSign).text) hpoint
  | milliseconds => exact toMillisStringOf_eq hunit hlow hhigh 3 useTimeSign
  | microseconds => exact toMillisStringOf_eq hunit hlow hhigh 6 useTimeSign
  | nanoseconds => exact toMillisStringOf_eq hunit hlow hhigh 9 useTimeSign

/-! ### Both -/

/-- **What comes back of a count**: the whole seconds, less the offset of the zone. -/
theorem toMillis_toMillisString (P : Precision) (z : TimeZone) (useTimeSign : Bool) (hlow : 0 ≤ t)
    (hhigh : t < 9214646400 * P.perSecond) :
    (P.toMillisString t useTimeSign).bind (P.toMillis z) =
      some (.ok ((t / P.perSecond - z.standard) * P.perSecond)) := by
  obtain ⟨rest, hrest, htext⟩ := P.toMillisString_eq hlow hhigh useTimeSign
  have hunit := P.isUnit
  have hsecond : 0 ≤ t / P.perSecond ∧ t / P.perSecond < 9214646400 := by
    rcases hunit with hper | hper | hper <;> rw [hper] at hhigh ⊢ <;> omega
  rw [htext, Option.bind_some]
  cases P <;> exact toMillis_written hunit _ z hsecond.1 hsecond.2 useTimeSign hrest

/-- **The counts that come back.** In each of the four precisions, a count of an instant before
2262 is read back from its text exactly when it is a whole number of seconds and the standard time
of the machine's zone is UTC. -/
theorem roundTrip_iff (P : Precision) (z : TimeZone) (useTimeSign : Bool) {t : ℤ} (hlow : 0 ≤ t)
    (hhigh : t < 9214646400 * P.perSecond) :
    (P.toMillisString t useTimeSign).bind (P.toMillis z) = some (.ok t) ↔
      z.standard = 0 ∧ P.perSecond ∣ t := by
  rw [toMillis_toMillisString P z useTimeSign hlow hhigh, Option.some_inj, Except.ok.injEq]
  rcases P.isUnit with hper | hper | hper <;> rw [hper] <;> omega

/-- The first day of 2024 comes back on a machine in UTC. -/
theorem roundTrip_newYear :
    (Precision.nanoseconds.toMillisString 1704067200000000000 true).bind
        (Precision.nanoseconds.toMillis TimeZone.utc) = some (.ok 1704067200000000000) ↔
      TimeZone.utc.standard = 0 ∧ Precision.nanoseconds.perSecond ∣ 1704067200000000000 :=
  roundTrip_iff .nanoseconds TimeZone.utc true (by decide) (by decide)

theorem hour_mem : -43200 ≤ (3600 : ℤ) ∧ (3600 : ℤ) ≤ 50400 := by decide

/-- A zone one hour ahead of UTC. -/
def hourAhead : TimeZone := TimeZone.ofSaving 3600 0 (fun _ => false) hour_mem

/-- A millisecond does not come back in UTC, and the first second of 1970 does not come back one
hour ahead of it. -/
theorem not_roundTrip :
    (Precision.milliseconds.toMillisString 1 true).bind
        (Precision.milliseconds.toMillis TimeZone.utc) ≠ some (.ok 1) ∧
      (Precision.seconds.toMillisString 0 false).bind (Precision.seconds.toMillis hourAhead) ≠
        some (.ok 0) := by
  constructor
  · rw [toMillis_toMillisString .milliseconds TimeZone.utc true (by decide) (by decide)]
    exact fun h => absurd (Except.ok.inj (Option.some.inj h)) (by decide)
  · rw [toMillis_toMillisString .seconds hourAhead false (by decide) (by decide)]
    exact fun h => absurd (Except.ok.inj (Option.some.inj h)) (by decide)

end Behh.DateAndTime.Utc
