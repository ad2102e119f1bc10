import Behh.Std.Numerals
import Behh.Std.Time

/-!
# Dates and times as text

`std::put_time` and `std::get_time` with the six conversions that occur in the repository's
formats. A format is a list of conversions and of characters that stand for themselves.

Writing: the year is written without padding, the other fields with two digits.

Reading follows the GNU library. Blanks in front of the text are skipped. A conversion reads as
many digits as are there, up to four for the year and two for the others, and fails on a number
out of the range of its field. One blank may stand in front of the day, for which `%d` is the same
as `%e`, and none in front of the other fields. In the format, a blank stands for any number of
blanks, and a letter matches in both cases. Text left at the end is not read. A text that ends right
behind a conversion ends the reading without an error, whatever is left of the format.

## Main definitions

* `Field`, `Directive`, `directives`: the conversions and the parts of a format.
* `strftime`, `OStream.putTime`: writing.
* `Field.skipBlank`, `extractNum`, `getTime`: reading.

## Main results

* `filter_strftime`: leaving characters out of the text is leaving them out of the format.
* `getTime_strftime`: what has been written is read back.
-/

namespace Behh

/-! ### Formats -/

/-- The fields of a time that a conversion can stand for. -/
inductive Field where
  | year | month | day | hour | minute | second
  deriving DecidableEq

namespace Field

/-- The field of a conversion character: `%Y`, `%m`, `%d`, `%H`, `%M` and `%S`. -/
def ofChar (c : UInt8) : Option Field :=
  if c = 0x59 then some year
  else if c = 0x6d then some month
  else if c = 0x64 then some day
  else if c = 0x48 then some hour
  else if c = 0x4d then some minute
  else if c = 0x53 then some second
  else none

/-- The number that is shown for a field. -/
def get (tm : Tm) : Field → ℤ
  | year => tm.year + 1900
  | month => tm.mon + 1
  | day => tm.mday
  | hour => tm.hour
  | minute => tm.min
  | second => tm.sec

/-- Storing the number that has been read for a field. -/
def set (n : ℤ) (tm : Tm) : Field → Tm
  | year => { tm with year := n - 1900 }
  | month => { tm with mon := n - 1 }
  | day => { tm with mday := n }
  | hour => { tm with hour := n }
  | minute => { tm with min := n }
  | second => { tm with sec := n }

/-- The smallest number, the largest number and the number of digits that a conversion reads. -/
def limits : Field → ℕ × ℕ × ℕ
  | year => (0, 9999, 4)
  | month => (1, 12, 2)
  | day => (1, 31, 2)
  | hour => (0, 23, 2)
  | minute => (0, 59, 2)
  | second => (0, 60, 2)

/-- What a conversion writes. -/
def text (tm : Tm) (f : Field) : Bytes :=
  if f = year then intNumeral (f.get tm) else padded 2 (f.get tm).toNat

end Field

/-- A part of a format. -/
inductive Directive where
  /-- A conversion. -/
  | field (f : Field)
  /-- A character that stands for itself. -/
  | literal (c : UInt8)
  deriving DecidableEq

/-- The parts of a format. -/
def directives : Bytes → List Directive
  | [] => []
  | [c] => [.literal c]
  | c :: d :: fmt =>
    if c = 0x25 then
      (match Field.ofChar d with
        | some f => Directive.field f
        | none => .literal d) :: directives fmt
    else .literal c :: directives (d :: fmt)

/-! ### Writing -/

/-- What a part of a format writes. -/
def Directive.text (tm : Tm) : Directive → Bytes
  | .field f => f.text tm
  | .literal c => [c]

/-- The text that `strftime` makes of a time. -/
def strftime (tm : Tm) (fmt : Bytes) : Bytes := (directives fmt).flatMap (Directive.text tm)

/-- `<< std::put_time(tm, fmt)`: neither the width nor the fill character count. -/
def OStream.putTime (tm : Tm) (fmt : Bytes) (o : OStream) : OStream :=
  { o with text := o.text ++ strftime tm fmt }

/-! ### Reading -/

/-- Reading a number of at most `len` digits from the beginning of a text: the number, and the
text behind it. -/
def extractNum (low high len : ℕ) (s : Bytes) : Option (ℕ × Bytes) :=
  let digits := (s.take len).takeWhile isdigit
  if digits ≠ [] ∧ low ≤ decimal digits ∧ decimal digits ≤ high then
    some (decimal digits, s.drop digits.length)
  else none

/-- What is left for the number of a field: a day may have one blank in front of it. -/
def Field.skipBlank : Field → Bytes → Bytes
  | day, x :: s => if isspace x then s else x :: s
  | _, s => s

/-- Reading a text along the parts of a format; `none` when `failbit` is set. -/
def getTimeFrom : List Directive → Tm → Bytes → Option (Tm × Bytes)
  | [], tm, s => some (tm, s)
  | _ :: _, _, [] => none
  | .field f :: ds, tm, x :: s =>
    match extractNum f.limits.1 f.limits.2.1 f.limits.2.2 (f.skipBlank (x :: s)) with
    | none => none
    | some (n, s') =>
      -- `eofbit` ends the loop over the format
      if s' = [] then some (f.set n tm, []) else getTimeFrom ds (f.set n tm) s'
  | .literal c :: ds, tm, x :: s =>
    if isspace c then getTimeFrom ds tm ((x :: s).dropWhile isspace)
    else if toupper x = toupper c then getTimeFrom ds tm s
    else none

/-- `>> std::get_time(&tm, fmt)`: the time and the text that is left in the stream; `none` when
the stream fails. -/
def getTime (fmt : Bytes) (tm : Tm) (s : Bytes) : Option (Tm × Bytes) :=
  if s.dropWhile isspace = [] then none
  else getTimeFrom (directives fmt) tm (s.dropWhile isspace)

/-! ### What is written -/

theorem Field.all_isdigit_text {tm : Tm} (hyear : 0 ≤ tm.year + 1900) (f : Field) :
    (f.text tm).all isdigit = true := by
  rw [text]
  split
  · next hf =>
    have hpos : ¬f.get tm < 0 := by
      rw [hf, get]
      omega
    rw [intNumeral, if_neg hpos]
    exact all_isdigit_numeral _
  · exact all_isdigit_padded _ _

/-- Whether a part of a format stays when only the characters in `keep` are kept. -/
def Directive.kept (keep : UInt8 → Bool) : Directive → Bool
  | .field _ => true
  | .literal c => keep c

/-- **Characters left out of the text** are the same characters left out of the format, when
digits are kept. -/
theorem filter_strftime {keep : UInt8 → Bool} (hkeep : ∀ c, isdigit c = true → keep c = true)
    {tm : Tm} (hyear : 0 ≤ tm.year + 1900) {fmt fmt' : Bytes}
    (h : (directives fmt).filter (Directive.kept keep) = directives fmt') :
    (strftime tm fmt).filter keep = strftime tm fmt' := by
  rw [strftime, strftime, ← h]
  induction directives fmt with
  | nil => rfl
  | cons d ds ih =>
    rw [List.flatMap_cons, List.filter_append, ih]
    cases d with
    | field f =>
      have hall : (f.text tm).filter keep = f.text tm := by
        rw [List.filter_eq_self]
        intro c hc
        exact hkeep c (List.all_eq_true.1 (Field.all_isdigit_text hyear f) c hc)
      rw [List.filter_cons_of_pos (by rfl), List.flatMap_cons, Directive.text, hall]
    | literal c => cases hc : keep c <;> simp [Directive.kept, Directive.text, hc]

/-- A format of conversions only makes a text of digits. -/
theorem all_isdigit_strftime {tm : Tm} (hyear : 0 ≤ tm.year + 1900) {fmt : Bytes}
    (h : (directives fmt).all (Directive.kept fun _ => false) = true) :
    (strftime tm fmt).all isdigit = true := by
  rw [strftime, List.all_flatMap, List.all_eq_true]
  intro d hd
  cases d with
  | field f => exact Field.all_isdigit_text hyear f
  | literal c => exact absurd (List.all_eq_true.1 h _ hd) (by simp [Directive.kept])

/-- A character that is no digit and not in the format is not in the text. -/
theorem not_mem_strftime {c : UInt8} (hc : isdigit c = false) {tm : Tm}
    (hyear : 0 ≤ tm.year + 1900) {fmt : Bytes} (h : Directive.literal c ∉ directives fmt) :
    c ∉ strftime tm fmt := by
  intro hmem
  obtain ⟨d, hd, hcd⟩ := List.mem_flatMap.1 hmem
  cases d with
  | field f =>
    have hdigit := List.all_eq_true.1 (Field.all_isdigit_text hyear f) c hcd
    simp [hc] at hdigit
  | literal c' =>
    obtain rfl : c = c' := by simpa [Directive.text] using hcd
    exact h hd

/-- The text does not depend on whether daylight saving is in effect. -/
theorem strftime_isdst (tm : Tm) (d : ℤ) (fmt : Bytes) :
    strftime { tm with isdst := d } fmt = strftime tm fmt := by
  rw [strftime, strftime]
  congr 1

/-! ### What is read -/

theorem extractNum_padded {low high len n : ℕ} (hlen : 0 < len) (hn : n < 10 ^ len)
    (hlow : low ≤ n) (hhigh : n ≤ high) (rest : Bytes) :
    extractNum low high len (padded len n ++ rest) = some (n, rest) := by
  have hlength := length_padded hlen hn
  have htake : (padded len n ++ rest).take len = padded len n := by
    rw [List.take_append_of_le_length hlength.ge, List.take_of_length_le hlength.le]
  have hdrop : (padded len n ++ rest).drop (padded len n).length = rest := List.drop_left
  have hne : padded len n ≠ [] := List.ne_nil_of_length_pos (by omega)
  have hdigits := List.takeWhile_eq_self_iff.2 (List.all_eq_true.1 (all_isdigit_padded len n))
  simp only [extractNum, htake, hdigits, hdrop, decimal_padded]
  rw [if_pos ⟨hne, hlow, hhigh⟩]

/-- The number shown for a field can be read, and a year has four digits. -/
def Field.Readable (tm : Tm) (f : Field) : Prop :=
  (f.limits.1 : ℤ) ≤ f.get tm ∧ f.get tm ≤ f.limits.2.1 ∧ (f = year → 1000 ≤ f.get tm)

theorem Field.text_eq_padded {tm : Tm} {f : Field} (h : f.Readable tm) :
    f.text tm = padded f.limits.2.2 (f.get tm).toNat := by
  obtain ⟨-, -, hyear⟩ := h
  rw [text]
  split
  · next hf =>
    subst hf
    have hget := hyear rfl
    rw [intNumeral, if_neg (by omega)]
    have habs : (year.get tm).natAbs = (year.get tm).toNat := by omega
    have hlong : 10 ^ 3 ≤ (year.get tm).toNat := by omega
    rw [habs]
    exact (padded_eq_numeral hlong).symm
  · next hf => cases f <;> first | rfl | exact absurd rfl hf

theorem Field.limits_spec (f : Field) : 0 < f.limits.2.2 ∧ f.limits.2.1 < 10 ^ f.limits.2.2 := by
  cases f <;> decide

theorem Field.length_text {tm : Tm} {f : Field} (h : f.Readable tm) :
    (f.text tm).length = f.limits.2.2 := by
  have hlimits := f.limits_spec
  have hhigh := h.2.1
  rw [text_eq_padded h, length_padded hlimits.1 (by omega)]

/-- The fields of a time in range can be read when the year has four digits. -/
theorem Field.readable {tm : Tm} (h : tm.InRange) (hlow : -900 ≤ tm.year) (hhigh : tm.year < 8100)
    (f : Field) : f.Readable tm := by
  have hsec := h.sec
  have hmin := h.min
  have hhour := h.hour
  have hmday := h.mday
  have hmon := h.mon
  have hyear : f = year → 1000 ≤ f.get tm := by
    rintro rfl
    rw [get]
    omega
  refine ⟨?_, ?_, hyear⟩
  · cases f <;> simp only [limits, get] <;> omega
  · cases f <;> simp only [limits, get] <;> omega

theorem Field.extractNum_text {tm : Tm} {f : Field} (h : f.Readable tm) (rest : Bytes) :
    extractNum f.limits.1 f.limits.2.1 f.limits.2.2 (f.text tm ++ rest) =
      some ((f.get tm).toNat, rest) := by
  have hlimits := f.limits_spec
  have hlow := h.1
  have hhigh := h.2.1
  rw [text_eq_padded h]
  exact extractNum_padded hlimits.1 (by omega) (by omega) (by omega) rest

/-- Every blank of a format has a conversion behind it. -/
def separated : List Directive → Bool
  | [] => true
  | .field _ :: ds => separated ds
  | .literal c :: ds =>
    (!isspace c || ds.head?.any (Directive.kept fun _ => false)) && separated ds

/-- Storing the fields of `tm` along a format. -/
def readInto (tm : Tm) (ds : List Directive) (tm₀ : Tm) : Tm :=
  ds.foldl (fun t d => match d with
    | .field f => f.set (f.get tm) t
    | .literal _ => t) tm₀

theorem Field.exists_text_cons {tm : Tm} (hyear : 0 ≤ tm.year + 1900) (f : Field) :
    ∃ c cs, f.text tm = c :: cs ∧ isspace c = false := by
  have hne : f.text tm ≠ [] := by
    rw [text]
    split
    · rw [intNumeral]
      split
      · exact List.cons_ne_nil _ _
      · exact numeral_ne_nil _
    · exact List.append_ne_nil_of_right_ne_nil _ (numeral_ne_nil _)
  obtain ⟨c, cs, htext⟩ := List.exists_cons_of_ne_nil hne
  have hall := all_isdigit_text hyear f
  rw [htext, List.all_cons, Bool.and_eq_true] at hall
  exact ⟨c, cs, htext, (ne_sign_of_isdigit hall.1).1⟩

/-- There is nothing to skip in front of a text that begins with no blank. -/
theorem Field.skipBlank_cons {x : UInt8} (hx : isspace x = false) (f : Field) (s : Bytes) :
    f.skipBlank (x :: s) = x :: s := by
  cases f <;> simp [skipBlank, hx]

/-- A conversion is read; when nothing is left behind it, nothing of the format may be left. -/
theorem getTimeFrom_field {tm : Tm} {f : Field} (hyear : 0 ≤ tm.year + 1900) (h : f.Readable tm)
    {ds : List Directive} {rest : Bytes} (hend : rest = [] → ds = []) (tm₀ : Tm) :
    getTimeFrom (.field f :: ds) tm₀ (f.text tm ++ rest) =
      getTimeFrom ds (f.set (f.get tm) tm₀) rest := by
  have hnum := Field.extractNum_text h rest
  have hget : ((f.get tm).toNat : ℤ) = f.get tm := Int.toNat_of_nonneg (by have := h.1; omega)
  obtain ⟨c, cs, htext, hc⟩ := f.exists_text_cons hyear
  rw [htext, List.cons_append] at hnum ⊢
  simp only [getTimeFrom, f.skipBlank_cons hc, hnum, hget]
  split
  · next hnil => rw [hnil, hend hnil, getTimeFrom]
  · rfl

/-- A part of a format makes some text, and a conversion one that begins with no blank. -/
theorem Directive.exists_text_cons {tm : Tm} (hyear : 0 ≤ tm.year + 1900) (d : Directive) :
    ∃ c cs, d.text tm = c :: cs ∧ (d.kept (fun _ => false) = true → isspace c = false) := by
  cases d with
  | field f =>
    obtain ⟨c, cs, htext, hc⟩ := f.exists_text_cons hyear
    exact ⟨c, cs, htext, fun _ => hc⟩
  | literal c => exact ⟨c, [], rfl, fun h => Bool.noConfusion h⟩

theorem eq_nil_of_flatMap_text {tm : Tm} (hyear : 0 ≤ tm.year + 1900) {ds : List Directive}
    {rest : Bytes} (h : ds.flatMap (Directive.text tm) ++ rest = []) : ds = [] := by
  cases ds with
  | nil => rfl
  | cons d ds =>
    obtain ⟨c, cs, htext, -⟩ := d.exists_text_cons hyear
    simp [htext] at h

/-- Behind a format that begins with a conversion there are no blanks to skip. -/
theorem dropWhile_flatMap_text {tm : Tm} (hyear : 0 ≤ tm.year + 1900) {ds : List Directive}
    (hfirst : ds.head?.any (Directive.kept fun _ => false) = true) (rest : Bytes) :
    (ds.flatMap (Directive.text tm) ++ rest).dropWhile isspace =
      ds.flatMap (Directive.text tm) ++ rest := by
  cases ds with
  | nil => cases hfirst
  | cons d ds =>
    obtain ⟨c, cs, htext, hc⟩ := d.exists_text_cons hyear
    rw [List.flatMap_cons, htext, List.cons_append, List.cons_append,
      List.dropWhile_cons_of_neg (by simp [hc hfirst])]

/-- What has been written along the parts of a format is read back along them. -/
theorem getTimeFrom_flatMap {tm : Tm} (hyear : 0 ≤ tm.year + 1900) {ds : List Directive}
    (hread : ∀ f, Directive.field f ∈ ds → f.Readable tm) (hsep : separated ds = true)
    (tm₀ : Tm) (rest : Bytes) :
    getTimeFrom ds tm₀ (ds.flatMap (Directive.text tm) ++ rest) =
      some (readInto tm ds tm₀, rest) := by
  induction ds generalizing tm₀ with
  | nil => rfl
  | cons d ds ih =>
    have ih' := ih fun f hf => hread f (List.mem_cons_of_mem _ hf)
    cases d with
    | field f =>
      rw [List.flatMap_cons, List.append_assoc, Directive.text,
        getTimeFrom_field hyear (hread f (List.mem_cons_self ..))
          (eq_nil_of_flatMap_text hyear), ih' hsep]
      rfl
    | literal c =>
      rw [separated, Bool.and_eq_true] at hsep
      rw [List.flatMap_cons, List.append_assoc, Directive.text, List.singleton_append, getTimeFrom]
      split
      · next hspace =>
        have hfirst : ds.head?.any (Directive.kept fun _ => false) = true := by
          simpa [hspace] using hsep.1
        rw [List.dropWhile_cons_of_pos hspace, dropWhile_flatMap_text hyear hfirst, ih' hsep.2]
        rfl
      · rw [if_pos rfl, ih' hsep.2]
        rfl

/-- **Reading inverts writing.** A time that can be read and is written in a format is read back
in the same format, whatever stands behind it. -/
theorem getTime_strftime {tm : Tm} (hyear : 0 ≤ tm.year + 1900) {fmt : Bytes}
    (hread : ∀ f, Directive.field f ∈ directives fmt → f.Readable tm)
    (hsep : separated (directives fmt) = true)
    (hfirst : (directives fmt).head?.any (Directive.kept fun _ => false) = true)
    (tm₀ : Tm) (rest : Bytes) :
    getTime fmt tm₀ (strftime tm fmt ++ rest) = some (readInto tm (directives fmt) tm₀, rest) := by
  have hskip : (strftime tm fmt ++ rest).dropWhile isspace = strftime tm fmt ++ rest :=
    dropWhile_flatMap_text hyear hfirst rest
  have hne : strftime tm fmt ++ rest ≠ [] := by
    intro hnil
    rw [eq_nil_of_flatMap_text hyear hnil] at hfirst
    cases hfirst
  rw [getTime, hskip, if_neg hne, strftime, getTimeFrom_flatMap hyear hread hsep tm₀ rest]

example : getTime (str "%Y-%m-%d %H:%M:%S") {} (str " 2024-2- 3  7:05:6.5") =
    some ({ year := 124, mon := 1, mday := 3, hour := 7, min := 5, sec := 6 }, str ".5") := by
  decide

end Behh
