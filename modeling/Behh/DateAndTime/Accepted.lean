import Behh.DateAndTime.Overflow

/-!
# The texts that are accepted

The functions `to_millis` of lines 942, 1115, 1266 and 1417 of `src/date_and_time.cc` throw when
the stream fails, and return a number in every other case. The stream fails only on a number out
of the range of its field and on a character that is not the one of the format. So a text is
accepted that begins with a date and a time of day, whatever stands behind them, that ends behind
any of the fields, or whose day is beyond the end of its month; blanks may stand in front of the
text, one blank in front of the day, and the fields may have fewer digits.

`Follows` says which texts are read along a format, and `Accepted` which texts are read as a time.
The texts meant are those of `WellFormed`: a date that exists, a letter or a blank, a time of day,
and an optional fraction.

## Main definitions

* `Field.Lead`, `IsNumber`, `Follows`: the texts that a format reads.
* `Utc.Accepted`: the texts that are read as a time.
* `Utc.DateTime`, `Utc.WellFormed`: the texts of the times that exist.

## Main results

* `getTimeFrom_ne_none_iff`: reading along a format succeeds on the texts that follow it.
* `Utc.WellFormed.accepted`: the texts that are meant are accepted.
* `Utc.throws_or_wellFormed_iff`: when only well formed texts yield a number.
-/

namespace Behh

/-! ### The texts that a format reads -/

/-- What may stand in front of the number of a field: one blank in front of a day, and nothing in
front of the others. -/
def Field.Lead (f : Field) (lead : Bytes) : Prop :=
  lead = [] ∨ f = day ∧ ∃ blank, isspace blank = true ∧ lead = [blank]

theorem Field.lead_nil (f : Field) : f.Lead [] := Or.inl rfl

/-- A conversion for the field `f` reads `digits` in front of `rest`: as many digits as are there,
up to the width of the field, of a number in its range. -/
structure IsNumber (f : Field) (digits rest : Bytes) : Prop where
  /-- There is a digit. -/
  ne_nil : digits ≠ []
  /-- There is nothing else. -/
  all_isdigit : digits.all isdigit = true
  /-- The digits fit the width. -/
  length_le : digits.length ≤ f.limits.2.2
  /-- No digit is left that would fit. -/
  complete : digits.length < f.limits.2.2 → ∀ c, rest.head? = some c → isdigit c = false
  /-- The number is not below the range. -/
  low : f.limits.1 ≤ decimal digits
  /-- The number is not above the range. -/
  high : decimal digits ≤ f.limits.2.1

/-- A text follows the parts of a format: it has a number for a conversion, any number of blanks
for a blank, and a letter in either case. One blank may stand in front of a day. The text may end
behind any of the numbers, and anything may stand behind the last part. -/
inductive Follows : List Directive → Bytes → Prop where
  /-- Nothing of the format is left. -/
  | nil (rest : Bytes) : Follows [] rest
  /-- The text ends behind a number, whatever is left of the format. -/
  | last {f : Field} {lead digits : Bytes} (ds : List Directive) (hlead : f.Lead lead)
      (hnumber : IsNumber f digits []) : Follows (.field f :: ds) (lead ++ digits)
  /-- A number with some text behind it. -/
  | number {f : Field} {lead digits rest : Bytes} {ds : List Directive} (hlead : f.Lead lead)
      (hnumber : IsNumber f digits rest) (hrest : rest ≠ []) (h : Follows ds rest) :
      Follows (.field f :: ds) (lead ++ (digits ++ rest))
  /-- Blanks for a blank; the text does not end in front of them. -/
  | blanks {c : UInt8} {blanks rest : Bytes} {ds : List Directive} (hc : isspace c = true)
      (hblanks : blanks.all isspace = true)
      (hrest : ∀ x, rest.head? = some x → isspace x = false) (hne : blanks ++ rest ≠ [])
      (h : Follows ds rest) : Follows (.literal c :: ds) (blanks ++ rest)
  /-- The character of the format, in either case. -/
  | char {c x : UInt8} {rest : Bytes} {ds : List Directive} (hc : isspace c = false)
      (hx : toupper x = toupper c) (h : Follows ds rest) : Follows (.literal c :: ds) (x :: rest)

/-- The number that is read from a text is one at its beginning. -/
theorem extractNum_eq_some_iff {f : Field} {s rest : Bytes} {n : ℕ} :
    extractNum f.limits.1 f.limits.2.1 f.limits.2.2 s = some (n, rest) ↔
      ∃ digits, s = digits ++ rest ∧ n = decimal digits ∧ IsNumber f digits rest := by
  constructor
  · intro h
    simp only [extractNum] at h
    split at h
    · next hrange =>
      obtain ⟨rfl, rfl⟩ := Prod.mk.inj (Option.some.inj h)
      generalize hdigits : (s.take f.limits.2.2).takeWhile isdigit = digits at hrange ⊢
      have hall : digits.all isdigit = true := hdigits ▸ List.all_takeWhile
      have hfit : digits.length ≤ f.limits.2.2 := by
        rw [← hdigits]
        exact (List.takeWhile_prefix _).length_le.trans (List.length_take_le _ _)
      have hprefix : digits <+: s := by
        rw [← hdigits]
        exact (List.takeWhile_prefix _).trans (List.take_prefix _ _)
      obtain ⟨rest, rfl⟩ := hprefix
      rw [List.drop_left]
      refine ⟨digits, rfl, rfl, hrange.1, hall, hfit, fun hshort c hc => ?_, hrange.2.1, hrange.2.2⟩
      -- the character behind the digits is among those that were looked at
      obtain ⟨k, hk⟩ := Nat.exists_eq_add_of_lt hshort
      rw [hk, Nat.add_assoc, List.take_length_add_append,
        List.takeWhile_append_of_pos (List.all_eq_true.1 hall), ← List.cons_head?_tail hc,
        List.take_succ_cons] at hdigits
      have hnone := List.append_cancel_left (hdigits.trans (List.append_nil digits).symm)
      by_contra hdigit
      rw [List.takeWhile_cons_of_pos (by simpa using hdigit)] at hnone
      cases hnone
    · cases h
  · rintro ⟨digits, rfl, rfl, h⟩
    have hlooked : ((digits ++ rest).take f.limits.2.2).takeWhile isdigit = digits := by
      have hfit := h.length_le
      obtain ⟨k, hk⟩ := Nat.exists_eq_add_of_le hfit
      rw [hk, List.take_length_add_append]
      refine (takeWhile_append_of_all h.all_isdigit fun c hc => ?_).1
      cases k with
      | zero => cases hc
      | succ k =>
        refine h.complete (by omega) c ?_
        rwa [List.head?_take, if_neg (Nat.succ_ne_zero k)] at hc
    simp only [extractNum, hlooked, List.drop_left]
    rw [if_pos ⟨h.ne_nil, h.low, h.high⟩]

/-- What is skipped in front of a number is what may stand there. -/
theorem Field.exists_lead (f : Field) (s : Bytes) :
    ∃ lead, f.Lead lead ∧ s = lead ++ f.skipBlank s := by
  cases s with
  | nil => exact ⟨[], f.lead_nil, by cases f <;> rfl⟩
  | cons x s =>
    by_cases hday : f = day ∧ isspace x = true
    · obtain ⟨rfl, hx⟩ := hday
      exact ⟨[x], .inr ⟨rfl, x, hx, rfl⟩, by simp [skipBlank, hx]⟩
    · refine ⟨[], f.lead_nil, ?_⟩
      cases f with
      | day => simp [skipBlank, show ¬isspace x = true from fun hx => hday ⟨rfl, hx⟩]
      | _ => rfl

/-- In front of a number everything is skipped that may stand there. -/
theorem IsNumber.skipBlank {f : Field} {lead digits rest : Bytes} (hlead : f.Lead lead)
    (h : IsNumber f digits rest) : f.skipBlank (lead ++ (digits ++ rest)) = digits ++ rest := by
  rcases hlead with rfl | ⟨rfl, blank, hblank, rfl⟩
  · obtain ⟨x, xs, rfl⟩ := List.exists_cons_of_ne_nil h.ne_nil
    have hx := h.all_isdigit
    rw [List.all_cons, Bool.and_eq_true] at hx
    exact f.skipBlank_cons (ne_sign_of_isdigit hx.1).1 (xs ++ rest)
  · exact if_pos hblank

/-- **What a conversion reads**, with what is skipped in front of it. -/
theorem extractNum_skipBlank_eq_some_iff {f : Field} {s rest : Bytes} {n : ℕ} :
    extractNum f.limits.1 f.limits.2.1 f.limits.2.2 (f.skipBlank s) = some (n, rest) ↔
      ∃ lead digits, s = lead ++ (digits ++ rest) ∧ n = decimal digits ∧ f.Lead lead ∧
        IsNumber f digits rest := by
  rw [extractNum_eq_some_iff]
  constructor
  · rintro ⟨digits, hskip, hn, hnumber⟩
    obtain ⟨lead, hlead, hs⟩ := f.exists_lead s
    exact ⟨lead, digits, hskip ▸ hs, hn, hlead, hnumber⟩
  · rintro ⟨lead, digits, rfl, hn, hlead, hnumber⟩
    exact ⟨digits, hnumber.skipBlank hlead, hn, hnumber⟩

/-- A text that is over follows no part of a format. -/
theorem not_follows_nil {d : Directive} {ds : List Directive} : ¬Follows (d :: ds) [] := by
  generalize hs : ([] : Bytes) = s
  intro h
  cases h with
  | last _ _ hnumber => exact hnumber.ne_nil (List.append_eq_nil_iff.1 hs.symm).2
  | number _ hnumber hrest _ =>
    exact hrest (List.append_eq_nil_iff.1 (List.append_eq_nil_iff.1 hs.symm).2).2
  | blanks _ _ _ hne _ => exact hne hs.symm
  | char _ _ _ => cases hs

/-- A text follows a conversion when a number is read from it, and nothing is left or what is left
follows the rest of the format. -/
theorem follows_field_iff {f : Field} {ds : List Directive} {s : Bytes} :
    Follows (.field f :: ds) s ↔
      ∃ n rest, extractNum f.limits.1 f.limits.2.1 f.limits.2.2 (f.skipBlank s) = some (n, rest) ∧
        (rest = [] ∨ Follows ds rest) := by
  constructor
  · intro h
    cases h with
    | last _ hlead hnumber =>
      exact ⟨_, [], extractNum_skipBlank_eq_some_iff.2
        ⟨_, _, by rw [List.append_nil], rfl, hlead, hnumber⟩, Or.inl rfl⟩
    | number hlead hnumber _ h =>
      exact ⟨_, _, extractNum_skipBlank_eq_some_iff.2 ⟨_, _, rfl, rfl, hlead, hnumber⟩, Or.inr h⟩
  · rintro ⟨n, rest, hread, h⟩
    obtain ⟨lead, digits, rfl, -, hlead, hnumber⟩ := extractNum_skipBlank_eq_some_iff.1 hread
    by_cases hrest : rest = []
    · subst hrest
      rw [List.append_nil]
      exact Follows.last ds hlead hnumber
    · exact Follows.number hlead hnumber hrest (h.resolve_left hrest)

/-- A text that is not over follows a blank when what is behind its blanks follows the rest. -/
theorem follows_blank_iff {c : UInt8} (hc : isspace c = true) {ds : List Directive} {s : Bytes}
    (hs : s ≠ []) : Follows (.literal c :: ds) s ↔ Follows ds (s.dropWhile isspace) := by
  constructor
  · intro h
    cases h with
    | blanks _ hblanks hrest _ h => rwa [(takeWhile_append_of_all hblanks hrest).2]
    | char hc' _ _ => exact absurd hc (by simp [hc'])
  · intro h
    rw [← List.takeWhile_append_dropWhile (p := isspace) (l := s)]
    refine Follows.blanks hc List.all_takeWhile (fun x hx => ?_) ?_ h
    · simpa [hx] using List.head?_dropWhile_not isspace s
    · rwa [List.takeWhile_append_dropWhile]

/-- A text follows a character when it begins with it, in either case. -/
theorem follows_char_iff {c x : UInt8} (hc : ¬isspace c = true) {ds : List Directive}
    {s : Bytes} : Follows (.literal c :: ds) (x :: s) ↔ toupper x = toupper c ∧ Follows ds s := by
  constructor
  · generalize htext : x :: s = text
    intro h
    cases h with
    | blanks hc' _ _ _ _ => exact absurd hc' hc
    | char _ hx h =>
      obtain ⟨rfl, rfl⟩ := List.cons.inj htext
      exact ⟨hx, h⟩
  · rintro ⟨hx, h⟩
    exact Follows.char (by simpa using hc) hx h

/-- **Reading along a format** succeeds on the texts that follow it. -/
theorem getTimeFrom_ne_none_iff (ds : List Directive) (tm : Tm) (s : Bytes) :
    getTimeFrom ds tm s ≠ none ↔ Follows ds s := by
  induction ds generalizing tm s with
  | nil => exact iff_of_true (Option.some_ne_none _) (Follows.nil s)
  | cons d ds ih =>
    cases s with
    | nil => exact iff_of_false (fun h => h rfl) not_follows_nil
    | cons x s =>
      cases d with
      | field f =>
        rw [getTimeFrom, follows_field_iff]
        cases hread :
            extractNum f.limits.1 f.limits.2.1 f.limits.2.2 (f.skipBlank (x :: s)) with
        | none => simp
        | some r =>
          obtain ⟨n, rest⟩ := r
          by_cases hrest : rest = []
          · simp [hrest]
          · simp [hrest, ih]
      | literal c =>
        rw [getTimeFrom]
        by_cases hc : isspace c = true
        · rw [if_pos hc, ih, follows_blank_iff hc (List.cons_ne_nil x s)]
        · rw [if_neg hc, follows_char_iff hc]
          by_cases hx : toupper x = toupper c
          · rw [if_pos hx, ih, and_iff_right hx]
          · rw [if_neg hx]
            exact iff_of_false (fun h => h rfl) fun h => hx h.1

/-- A number of the width of its field is read to its end. -/
theorem isNumber_padded {f : Field} {n : ℕ} (hlow : f.limits.1 ≤ n) (hhigh : n ≤ f.limits.2.1)
    (rest : Bytes) : IsNumber f (padded f.limits.2.2 n) rest := by
  have hlimits := f.limits_spec
  have hlength := length_padded hlimits.1 (Nat.lt_of_le_of_lt hhigh hlimits.2)
  refine ⟨List.ne_nil_of_length_pos (by omega), all_isdigit_padded _ _, hlength.le,
    fun hshort => absurd hlength hshort.ne, ?_, ?_⟩
  · rwa [decimal_padded]
  · rwa [decimal_padded]

/-- A number of the width of its field, with nothing behind it or with a text that follows the
rest of the format. -/
theorem follows_padded {f : Field} {n : ℕ} (hlow : f.limits.1 ≤ n) (hhigh : n ≤ f.limits.2.1)
    {ds : List Directive} {rest : Bytes} (h : rest ≠ [] → Follows ds rest) :
    Follows (.field f :: ds) (padded f.limits.2.2 n ++ rest) := by
  have hnumber := isNumber_padded hlow hhigh rest
  rw [← List.nil_append (_ ++ rest)]
  by_cases hrest : rest = []
  · subst hrest
    rw [List.append_nil]
    exact Follows.last ds f.lead_nil hnumber
  · exact Follows.number f.lead_nil hnumber hrest (h hrest)

theorem isspace_head_padded {width n : ℕ} (rest : Bytes) :
    ∀ c, (padded width n ++ rest).head? = some c → isspace c = false := by
  have hne : padded width n ≠ [] := List.append_ne_nil_of_right_ne_nil _ (numeral_ne_nil n)
  obtain ⟨x, xs, hcons⟩ := List.exists_cons_of_ne_nil hne
  have hall := all_isdigit_padded width n
  rw [hcons, List.all_cons, Bool.and_eq_true] at hall
  intro c hc
  rw [hcons] at hc
  obtain rfl := Option.some.inj hc
  exact (ne_sign_of_isdigit hall.1).1

theorem dropWhile_padded (width n : ℕ) (rest : Bytes) :
    (padded width n ++ rest).dropWhile isspace = padded width n ++ rest :=
  (takeWhile_append_of_all (s := []) rfl (isspace_head_padded rest)).2

namespace DateAndTime.Utc

/-! ### The texts that are read as a time -/

/-- A text is accepted when it follows the format behind the blanks in front of it. -/
def Accepted (text : Bytes) : Prop :=
  Follows (directives (timeFormat text)) (text.dropWhile isspace)

theorem readTime_ne_none_iff (text : Bytes) : readTime text ≠ none ↔ Accepted text := by
  rw [readTime, getTime, Accepted, ← getTimeFrom_ne_none_iff _ {}]
  split
  · next hblank =>
    rw [hblank]
    refine iff_of_false (fun h => h rfl) ?_
    rw [getTimeFrom_ne_none_iff, timeFormat]
    split
    · exact not_follows_nil
    · exact not_follows_nil
  · exact Iff.rfl

/-- The functions throw on the texts that are not accepted, and on no others. -/
theorem toMillis_throws_iff (P : Precision) (z : TimeZone) (text : Bytes) :
    (∃ message, P.toMillis z text = some (.error message)) ↔ ¬Accepted text := by
  obtain ⟨name, hname⟩ : ∃ name, P.toMillis z text = toMillisOf P.perSecond name z text := by
    cases P <;> exact ⟨_, rfl⟩
  rw [← readTime_ne_none_iff, not_not, hname]
  cases hread : readTime text with
  | none => exact iff_of_true ⟨_, toMillisOf_of_none hread⟩ rfl
  | some r =>
    refine iff_of_false ?_ (Option.some_ne_none _)
    rintro ⟨message, herror⟩
    rw [toMillisOf_eq hread, Option.map_eq_some_iff] at herror
    obtain ⟨tp, -, hok⟩ := herror
    cases hok

/-! ### The texts of the times that exist -/

/-- A date that exists, in a year of four digits, and a time of day. -/
structure DateTime where
  /-- The date. -/
  date : Calendar.Date
  /-- The hour. -/
  hour : Fin 24
  /-- The minute. -/
  minute : Fin 60
  /-- The second. -/
  second : Fin 60
  /-- The year has four digits. -/
  year_mem : 0 ≤ date.year ∧ date.year ≤ 9999

/-- The text of a date and a time of day, with `separator` between them. -/
def DateTime.text (time : DateTime) (separator : UInt8) : Bytes :=
  padded 4 time.date.year.toNat ++ str "-" ++ padded 2 (time.date.month + 1) ++ str "-" ++
    padded 2 (time.date.day + 1) ++ [separator] ++ padded 2 time.hour ++ str ":" ++
    padded 2 time.minute ++ str ":" ++ padded 2 time.second

/-- Nothing, or a point and digits. -/
def IsFraction (fraction : Bytes) : Prop :=
  fraction = [] ∨ ∃ digits, digits ≠ [] ∧ digits.all isdigit = true ∧ fraction = 0x2e :: digits

/-- The text is that of a date and a time of day that exist, with the letter or a blank between
them, and an optional fraction behind them. -/
def WellFormed (text : Bytes) : Prop :=
  ∃ (time : DateTime) (separator : UInt8) (fraction : Bytes),
    (separator = 0x54 ∨ separator = 0x20) ∧ IsFraction fraction ∧
      text = time.text separator ++ fraction

/-- The letter is in a well formed text when it stands between the date and the time of day. -/
theorem timeFormat_text (time : DateTime) {separator : UInt8} {fraction : Bytes}
    (hseparator : separator = 0x54 ∨ separator = 0x20) (hfraction : IsFraction fraction) :
    directives (timeFormat (time.text separator ++ fraction)) =
      [.field .year, .literal 0x2d, .field .month, .literal 0x2d, .field .day, .literal separator,
        .field .hour, .literal 0x3a, .field .minute, .literal 0x3a, .field .second] := by
  have hletter : ∀ digits : Bytes, digits.all isdigit = true → 0x54 ∉ digits :=
    fun digits hdigits hmem => absurd (List.all_eq_true.1 hdigits _ hmem) (by decide)
  have hpadded : ∀ width n, 0x54 ∉ padded width n := fun width n =>
    hletter _ (all_isdigit_padded width n)
  have hbehind : 0x54 ∉ fraction := by
    rcases hfraction with rfl | ⟨digits, -, hdigits, rfl⟩
    · exact List.not_mem_nil
    · exact fun hmem => hletter digits hdigits ((List.mem_cons.1 hmem).resolve_left (by decide))
  have hmem : 0x54 ∈ time.text separator ++ fraction ↔ 0x54 = separator := by
    have hdash : 0x54 ∉ str "-" := by decide
    have hcolon : 0x54 ∉ str ":" := by decide
    simp only [DateTime.text, List.mem_append, hpadded, hdash, hcolon, hbehind, List.mem_singleton,
      false_or, or_false]
  rw [timeFormat]
  rcases hseparator with rfl | rfl
  · rw [if_pos (hmem.2 rfl)]
    rfl
  · rw [if_neg fun h => absurd (hmem.1 h) (by decide)]
    rfl

/-- A text that is meant is accepted. -/
theorem WellFormed.accepted {text : Bytes} (h : WellFormed text) : Accepted text := by
  obtain ⟨time, separator, fraction, hseparator, hfraction, htext⟩ := h
  rw [htext]
  have hyear := time.year_mem
  have hmonth := time.date.month_lt
  have hday := time.date.day_lt
  have hblank : ∀ {ds : List Directive} {n : ℕ} {rest : Bytes}, Follows ds (padded 2 n ++ rest) →
      Follows (.literal separator :: ds) (separator :: (padded 2 n ++ rest)) := by
    intro ds n rest h
    rcases hseparator with rfl | rfl
    · exact .char rfl rfl h
    · exact Follows.blanks (c := 0x20) rfl (show [0x20].all isspace = true from rfl)
        (isspace_head_padded rest) (List.cons_ne_nil _ _) h
  rw [Accepted, timeFormat_text time hseparator hfraction]
  simp only [DateTime.text, List.append_assoc]
  rw [dropWhile_padded]
  refine follows_padded (f := .year) (Nat.zero_le _) ?_ fun _ => .char rfl rfl ?_
  · show time.date.year.toNat ≤ 9999
    omega
  refine follows_padded (f := .month) (Nat.succ_pos _) hmonth fun _ => .char rfl rfl ?_
  refine follows_padded (f := .day) (Nat.succ_pos _) hday fun _ => hblank ?_
  refine follows_padded (f := .hour) (Nat.zero_le _) (Nat.le_of_lt_succ time.hour.2) fun _ =>
    .char rfl rfl ?_
  refine follows_padded (f := .minute) (Nat.zero_le _) (Nat.le_of_lt_succ time.minute.2) fun _ =>
    .char rfl rfl ?_
  exact follows_padded (f := .second) (Nat.zero_le _) (Nat.le_of_lt time.second.2) fun _ =>
    .nil fraction

/-- A well formed text shows a date that exists, and is long enough for it. -/
theorem WellFormed.exists_date {text : Bytes} (h : WellFormed text) :
    ∃ date : Calendar.Date, date.year = decimal (text.take 4) ∧
      date.month + 1 = decimal ((text.drop 5).take 2) ∧
      date.day + 1 = decimal ((text.drop 8).take 2) ∧ 10 ≤ text.length := by
  obtain ⟨time, separator, fraction, -, -, htext⟩ := h
  rw [htext]
  have hmonth := time.date.month_lt
  have hday := time.date.day_lt
  have hyear := time.year_mem
  have hlength : (padded 4 time.date.year.toNat).length = 4 :=
    length_padded (by decide) (by omega)
  have hlength' : (padded 2 (time.date.month + 1)).length = 2 :=
    length_padded (by decide) (by omega)
  have hlength'' : (padded 2 (time.date.day + 1)).length = 2 :=
    length_padded (by decide) (by omega)
  simp only [DateTime.text, List.append_assoc]
  generalize [separator] ++ (padded 2 ↑time.hour ++ (str ":" ++ (padded 2 ↑time.minute ++
    (str ":" ++ (padded 2 ↑time.second ++ fraction))))) = rest
  have hmonths : (padded 4 time.date.year.toNat ++ str "-").length = 5 := by
    rw [List.length_append, hlength]
    rfl
  have hdays : (padded 4 time.date.year.toNat ++ str "-" ++
      (padded 2 (time.date.month + 1) ++ str "-")).length = 8 := by
    rw [List.length_append, hmonths, List.length_append, hlength']
    rfl
  refine ⟨time.date, ?_, ?_, ?_, ?_⟩
  · rw [List.take_left' hlength, decimal_padded]
    omega
  · rw [← List.append_assoc, List.drop_left' hmonths, List.take_left' hlength', decimal_padded]
  · rw [← List.append_assoc, ← List.append_assoc _ _ (padded _ _ ++ _), ← List.append_assoc,
      List.drop_left' hdays, List.take_left' hlength'', decimal_padded]
  · simp only [List.length_append, hlength, hlength', hlength'']
    have hdash : (str "-").length = 1 := rfl
    omega

/-- **Only real dates and times yield a number** when the text is accepted only if it is well
formed. -/
theorem throws_or_wellFormed_iff (P : Precision) (z : TimeZone) (text : Bytes) :
    (∃ message, P.toMillis z text = some (.error message)) ∨ WellFormed text ↔
      (Accepted text → WellFormed text) := by
  rw [toMillis_throws_iff]
  exact imp_iff_not_or.symm

/-- The last day of February 2024 is its 29th, but the 31st is read as the 2nd of March; and a year
without a date is read as the last day of the year before. -/
theorem not_wellFormed_february :
    (∀ P : Precision, P.toMillis TimeZone.utc (str "2024-02-31 00:00:00") =
        some (.ok (1709337600 * P.perSecond))) ∧
      ¬WellFormed (str "2024-02-31 00:00:00") ∧
      (∀ P : Precision, P.toMillis TimeZone.utc (str "2024") =
        some (.ok (1703980800 * P.perSecond))) ∧
      ¬WellFormed (str "2024") := by
  refine ⟨fun P => ?_, fun h => ?_, fun P => ?_, fun h => ?_⟩
  · cases P <;> decide
  · obtain ⟨date, hyear, hmonth, hday, -⟩ := h.exists_date
    have hdigits : decimal ((str "2024-02-31 00:00:00").take 4) = 2024 ∧
        decimal (((str "2024-02-31 00:00:00").drop 5).take 2) = 2 ∧
        decimal (((str "2024-02-31 00:00:00").drop 8).take 2) = 31 := by decide
    have hvalid := date.valid
    rw [hyear, hdigits.1, show date.month = 1 by omega, show date.day = 30 by omega] at hvalid
    exact absurd hvalid (by decide)
  · cases P <;> decide
  · obtain ⟨-, -, -, -, hlength⟩ := h.exists_date
    exact absurd hlength (by decide)

end DateAndTime.Utc

end Behh
