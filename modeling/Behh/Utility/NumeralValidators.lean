import Behh.Std.Floats
import Behh.Utility.CsvReader

/-!
# The numeral validators

`is_numeric`, `is_numeric_decimal` and `is_numeric_unsigned`, lines 22–114 of `src/utility.cc`. Each
goes through a list of early exits and then lets the library convert the text, which throws when
the number is out of range. Together these accept the numerals without leading zeros whose value is
in the range of the conversion.

## Main definitions

* `isNumericDecimal`, `isNumericUnsigned`: the functions besides `isNumeric`.
* `MinusText`, `WholeText`: the parts of the numerals.
* `IntegerNumeral`, `FractionNumeral`: the grammars of signed numbers.

## Main results

* `numeralValidators_iff`: the three functions accept exactly their grammars.
-/

namespace Behh

variable {D : Type}

/-! ### The functions -/

/-- What `is_numeric_decimal` asks of the part in front of the point. -/
def integerPartOk (integerPart : Bytes) : Bool :=
  if integerPart = str "0" ∨ integerPart = str "-0" then true
  else if integerPart.head? = some 0x2d then
    if integerPart.length = 1 ∨ integerPart.tail.head? = some 0x30 then false
    else integerPart.tail.all isdigit
  else if integerPart.head? = some 0x30 ∧ 1 < integerPart.length then false
  else integerPart.all isdigit

/-- `is_numeric_decimal`. -/
def isNumericDecimal (stod : Bytes → Option D) (input : Bytes) : Bool :=
  if input.isEmpty then false
  else
    let dotPos := input.idxOf 0x2e
    if dotPos = input.length ∨ dotPos = 0 ∨ dotPos = input.length - 1 then false
    else
      let integerPart := input.take dotPos
      let fractionalPart := input.drop (dotPos + 1)
      if !integerPartOk integerPart then false
      else if !fractionalPart.all isdigit then false
      else (stod input).isSome

/-- `is_numeric_unsigned`. -/
def isNumericUnsigned (input : Bytes) : Bool :=
  if input.isEmpty ∨ input.head? = some 0x2d then false
  else if input = str "0" then true
  else if input.head? = some 0x30 ∧ 1 < input.length then false
  else if !input.all isdigit then false
  else (stoull input).isSome

/-! ### The grammars -/

/-- An optional minus sign, and whether it is there. -/
inductive MinusText : Bytes → Bool → Prop
  | absent : MinusText [] false
  | minus : MinusText [0x2d] true

/-- A zero, or a digit from 1 to 9 and any digits. -/
inductive WholeText : Bytes → Prop
  | zero : WholeText [0x30]
  | digits {c : UInt8} {cs : Bytes} (hc : 0x31 ≤ c ∧ c ≤ 0x39) (hcs : cs.all isdigit = true) :
      WholeText (c :: cs)

/-- An optional minus sign and a whole number, with its value. -/
def IntegerNumeral (s : Bytes) (value : ℤ) : Prop :=
  ∃ sign whole : Bytes, ∃ negative : Bool, s = sign ++ whole ∧ MinusText sign negative ∧
    WholeText whole ∧ value = if negative then -(decimal whole : ℤ) else decimal whole

/-- An optional minus sign, a whole number, a point and digits, with the sign and the absolute
value. -/
def FractionNumeral (s : Bytes) (negative : Bool) (value : ℚ) : Prop :=
  ∃ sign whole fraction : Bytes, s = sign ++ (whole ++ 0x2e :: fraction) ∧
    MinusText sign negative ∧ WholeText whole ∧ Digits fraction ∧
    value = decimal (whole ++ fraction) * 10 ^ (-(fraction.length : ℤ))

/-! ### Whole numbers -/

theorem isdigit_iff (c : UInt8) : isdigit c = true ↔ c = 0x30 ∨ 0x31 ≤ c ∧ c ≤ 0x39 := by
  have hall : ∀ c : UInt8, isdigit c = true ↔ c = 0x30 ∨ 0x31 ≤ c ∧ c ≤ 0x39 :=
    forall_byte (by decide +kernel)
  exact hall c

/-- A text of digits is a whole number when it has no leading zero. -/
theorem wholeText_iff {s : Bytes} :
    WholeText s ↔ Digits s ∧ ¬ (s.head? = some 0x30 ∧ 1 < s.length) := by
  constructor
  · intro h
    cases h with
    | zero => exact ⟨⟨by simp, by decide⟩, by simp⟩
    | @digits c cs hc hcs =>
      have hdigit : isdigit c = true := (isdigit_iff c).2 (Or.inr hc)
      refine ⟨⟨List.cons_ne_nil _ _, by rw [List.all_cons, hdigit, hcs]; rfl⟩, ?_⟩
      rintro ⟨hzero, -⟩
      obtain rfl : c = 0x30 := by simpa using hzero
      exact absurd hc (by decide)
  · rintro ⟨hdigits, hlead⟩
    obtain ⟨c, cs, rfl, hc⟩ := hdigits.head
    have hcs : cs.all isdigit = true := by
      have hall := hdigits.2
      rw [List.all_cons, hc] at hall
      exact hall
    rcases (isdigit_iff c).1 hc with rfl | hc
    · obtain rfl : cs = [] := by
        by_contra hne
        have hpos := List.length_pos_iff.2 hne
        exact hlead ⟨rfl, by rw [List.length_cons]; omega⟩
      exact WholeText.zero
    · exact WholeText.digits hc hcs

theorem WholeText.isDigits {s : Bytes} (h : WholeText s) : Digits s := (wholeText_iff.1 h).1

theorem MinusText.signText {sign : Bytes} {negative : Bool} (h : MinusText sign negative) :
    SignText sign negative := by
  cases h with
  | absent => exact SignText.absent
  | minus => exact SignText.minus

theorem WholeText.head_ne {s : Bytes} (h : WholeText s) : s.head? ≠ some 0x2d := by
  obtain ⟨c, cs, rfl, hc⟩ := h.isDigits.head
  simpa using (ne_sign_of_isdigit hc).2.1

/-! ### Signed and unsigned whole numbers -/

/-- The early exits of `is_numeric` behind a minus sign. -/
theorem isNumeric_minus_iff (s : Bytes) :
    isNumeric (0x2d :: s) = true ↔ WholeText s ∧ (stoll (0x2d :: s)).isSome = true := by
  have hzero : ¬ (0x2d :: s = str "0") := fun h => absurd (List.cons.inj h).1 (by decide)
  rw [wholeText_iff, isNumeric, if_neg (by simp), if_neg hzero, if_pos (by simp)]
  split_ifs with hone htwo hlead hdigits
  · obtain rfl : s = [] := by simpa using hone
    exact iff_of_false (by simp) fun h => h.1.1.1 rfl
  · obtain ⟨d, rfl⟩ := List.length_eq_one_iff.1 (show s.length = 1 by simpa using htwo.1)
    obtain rfl : d = 0x30 := by simpa using htwo.2
    exact iff_of_true rfl ⟨⟨⟨by simp, by decide⟩, by simp⟩, by decide⟩
  · have hlen : s.length ≠ 1 := fun hlen => htwo ⟨by simpa using hlen, hlead⟩
    have hpos : s.length ≠ 0 := fun hlen => hone (by simpa using hlen)
    exact iff_of_false (by simp) fun h => h.1.2 ⟨hlead, by omega⟩
  · refine iff_of_false (by simp) fun h => ?_
    have hall : s.all isdigit = true := h.1.1.2
    simp [List.tail_cons, hall] at hdigits
  · have hne : s ≠ [] := by
      rintro rfl
      exact hone rfl
    have hall : s.all isdigit = true := by simpa using hdigits
    exact (and_iff_right ⟨⟨hne, hall⟩, fun h => hlead h.1⟩).symm

/-- The early exits of `is_numeric` without a minus sign. -/
theorem isNumeric_of_head_ne {s : Bytes} (hminus : s.head? ≠ some 0x2d) :
    isNumeric s = true ↔ WholeText s ∧ (stoll s).isSome = true := by
  rw [wholeText_iff, isNumeric]
  simp only [if_neg hminus]
  split_ifs with hempty hzero hlead hdigits
  · obtain rfl : s = [] := List.isEmpty_iff.1 hempty
    exact iff_of_false (by simp) fun h => h.1.1.1 rfl
  · subst hzero
    exact iff_of_true rfl ⟨⟨⟨by decide, by decide⟩, by decide⟩, by decide⟩
  · exact iff_of_false (by simp) fun h => h.1.2 hlead
  · exact iff_of_false (by simp) fun h => by simp [h.1.1.2] at hdigits
  · have hne : s ≠ [] := fun h => hempty (List.isEmpty_iff.2 h)
    have hall : s.all isdigit = true := by simpa using hdigits
    exact (and_iff_right ⟨⟨hne, hall⟩, hlead⟩).symm

/-- `is_numeric` accepts the signed whole numbers that `std::stoll` converts. -/
theorem isNumeric_iff (s : Bytes) :
    isNumeric s = true ↔ ∃ value, IntegerNumeral s value ∧ -2 ^ 63 ≤ value ∧ value < 2 ^ 63 := by
  have hread : ∀ sign whole : Bytes, ∀ negative : Bool, MinusText sign negative →
      WholeText whole → ((stoll (sign ++ whole)).isSome = true ↔
        -2 ^ 63 ≤ (if negative then -(decimal whole : ℤ) else decimal whole) ∧
          (if negative then -(decimal whole : ℤ) else decimal whole) < 2 ^ 63) := by
    intro sign whole negative hsign hwhole
    rw [stoll, hsign.signText.strtol_eq hwhole.isDigits, Option.filter_some]
    simp [Option.isSome_ite]
  constructor
  · intro h
    by_cases hminus : s.head? = some 0x2d
    · obtain ⟨whole, rfl⟩ := List.head?_eq_some_iff.1 hminus
      obtain ⟨hwhole, hstoll⟩ := (isNumeric_minus_iff whole).1 h
      exact ⟨_, ⟨[0x2d], whole, true, rfl, MinusText.minus, hwhole, rfl⟩,
        (hread _ _ _ MinusText.minus hwhole).1 hstoll⟩
    · obtain ⟨hwhole, hstoll⟩ := (isNumeric_of_head_ne hminus).1 h
      exact ⟨_, ⟨[], s, false, rfl, MinusText.absent, hwhole, rfl⟩,
        (hread _ _ _ MinusText.absent hwhole).1 hstoll⟩
  · rintro ⟨_, ⟨sign, whole, negative, rfl, hsign, hwhole, rfl⟩, hrange⟩
    have hstoll := (hread _ _ _ hsign hwhole).2 hrange
    cases hsign with
    | absent => exact (isNumeric_of_head_ne hwhole.head_ne).2 ⟨hwhole, hstoll⟩
    | minus => exact (isNumeric_minus_iff whole).2 ⟨hwhole, hstoll⟩

/-- `is_numeric_unsigned` accepts the whole numbers that `std::stoull` converts. -/
theorem isNumericUnsigned_iff (s : Bytes) :
    isNumericUnsigned s = true ↔ WholeText s ∧ decimal s < 2 ^ 64 := by
  have hread : Digits s → ((stoull s).isSome = true ↔ decimal s < 2 ^ 64) := by
    intro h
    rw [stoull, strtol_digits h.1 h.2, Option.filter_some]
    simp [Option.isSome_ite]
  rw [isNumericUnsigned]
  split_ifs with hempty hzero hlead hdigits
  · refine iff_of_false (by simp) fun h => ?_
    rcases hempty with hnil | hminus
    · exact h.1.isDigits.1 (List.isEmpty_iff.1 hnil)
    · exact h.1.head_ne hminus
  · subst hzero
    exact iff_of_true rfl ⟨WholeText.zero, by decide⟩
  · exact iff_of_false (by simp) fun h => (wholeText_iff.1 h.1).2 hlead
  · exact iff_of_false (by simp) fun h => by simp [h.1.isDigits.2] at hdigits
  · have hne : s ≠ [] := fun h => hempty (Or.inl (List.isEmpty_iff.2 h))
    have hall : s.all isdigit = true := by simpa using hdigits
    exact (hread ⟨hne, hall⟩).trans
      (and_iff_right (wholeText_iff.2 ⟨⟨hne, hall⟩, hlead⟩)).symm

/-! ### Numbers with a fraction -/

/-- A signed whole number is told by its first character. -/
theorem exists_minus_whole_iff {s : Bytes} :
    (∃ sign whole : Bytes, ∃ negative : Bool, s = sign ++ whole ∧ MinusText sign negative ∧
        WholeText whole) ↔ if s.head? = some 0x2d then WholeText s.tail else WholeText s := by
  constructor
  · rintro ⟨sign, whole, negative, rfl, hsign, hwhole⟩
    cases hsign with
    | absent => rwa [List.nil_append, if_neg hwhole.head_ne]
    | minus => exact hwhole
  · split_ifs with hminus
    · obtain ⟨whole, rfl⟩ := List.head?_eq_some_iff.1 hminus
      exact fun hwhole => ⟨[0x2d], whole, true, rfl, MinusText.minus, hwhole⟩
    · exact fun hwhole => ⟨[], s, false, rfl, MinusText.absent, hwhole⟩

/-- The part in front of the point is a signed whole number. -/
theorem integerPartOk_iff {s : Bytes} (hne : s ≠ []) :
    integerPartOk s = true ↔ ∃ sign whole : Bytes, ∃ negative : Bool, s = sign ++ whole ∧
      MinusText sign negative ∧ WholeText whole := by
  rw [exists_minus_whole_iff, integerPartOk, wholeText_iff, wholeText_iff]
  split_ifs with hzero hfirst hminus hmore hlead
  · obtain rfl : s = str "-0" := by
      rcases hzero with rfl | hzero
      · exact absurd hfirst (by decide)
      · exact hzero
    exact iff_of_true rfl ⟨⟨by decide, by decide⟩, by decide⟩
  · obtain rfl : s = str "0" := by
      rcases hzero with hzero | rfl
      · exact hzero
      · exact absurd (show (str "-0").head? = some 0x2d by decide) hfirst
    exact iff_of_true rfl ⟨⟨by decide, by decide⟩, by decide⟩
  · obtain ⟨t, rfl⟩ := List.head?_eq_some_iff.1 hminus
    refine iff_of_false (by simp) fun h => ?_
    obtain ⟨⟨hne, -⟩, hlong⟩ := h
    rw [List.tail_cons] at hne hlong hmore
    have hpos := List.length_pos_iff.2 hne
    rcases hmore with hshort | hlead
    · rw [List.length_cons] at hshort
      omega
    · obtain ⟨cs, rfl⟩ := List.head?_eq_some_iff.1 hlead
      have hcs : cs = [] := by
        by_contra hcs
        have hlen := List.length_pos_iff.2 hcs
        exact hlong ⟨hlead, by rw [List.length_cons]; omega⟩
      subst hcs
      exact hzero (Or.inr rfl)
  · obtain ⟨t, rfl⟩ := List.head?_eq_some_iff.1 hminus
    have ht : t ≠ [] := by
      rintro rfl
      exact hmore (Or.inl rfl)
    exact ⟨fun hall => ⟨⟨ht, hall⟩, fun h => hmore (Or.inr h.1)⟩, fun h => h.1.2⟩
  · exact iff_of_false (by simp) fun h => h.2 hlead
  · exact ⟨fun hall => ⟨⟨hne, hall⟩, hlead⟩, fun h => h.1.2⟩

/-- A point stands behind a text without points, and is found there. -/
theorem idxOf_point {front : Bytes} (h : 0x2e ∉ front) (back : Bytes) :
    (front ++ 0x2e :: back).idxOf 0x2e = front.length := by
  rw [List.idxOf_append_of_notMem h, List.idxOf_cons_self, Nat.add_zero]

/-- `is_numeric_decimal` cuts its input at the first point. -/
theorem isNumericDecimal_cut (stod : Bytes → Option D) {front : Bytes} (h : 0x2e ∉ front)
    (back : Bytes) :
    isNumericDecimal stod (front ++ 0x2e :: back) = true ↔
      front ≠ [] ∧ integerPartOk front = true ∧ Digits back ∧
        (stod (front ++ 0x2e :: back)).isSome = true := by
  have htake : (front ++ 0x2e :: back).take front.length = front := List.take_left
  have hdrop : (front ++ 0x2e :: back).drop (front.length + 1) = back := by
    rw [List.drop_length_add_append, List.drop_one, List.tail_cons]
  have hlength : (front ++ 0x2e :: back).length = front.length + back.length + 1 := by
    rw [List.length_append, List.length_cons, Nat.add_assoc]
  have hnotEmpty : ¬ (front ++ 0x2e :: back).isEmpty = true := by simp
  have hend : (front.length = front.length + back.length + 1 ∨ front.length = 0 ∨
      front.length = front.length + back.length + 1 - 1) ↔ front = [] ∨ back = [] := by
    rw [← List.length_eq_zero_iff, ← List.length_eq_zero_iff]
    omega
  simp only [isNumericDecimal, if_neg hnotEmpty, idxOf_point h, htake, hdrop, hlength, hend, Digits]
  by_cases hfront : front = []
  · simp [hfront]
  · by_cases hback : back = []
    · simp [hback]
    · cases hinteger : integerPartOk front <;> cases hall : back.all isdigit <;>
        simp [hfront, hback]

theorem point_not_mem {sign whole : Bytes} {negative : Bool} (hsign : MinusText sign negative)
    (hwhole : WholeText whole) : 0x2e ∉ sign ++ whole := by
  rw [List.mem_append, not_or]
  refine ⟨by cases hsign <;> simp, fun hmem => ?_⟩
  have hdigit := List.all_eq_true.1 hwhole.isDigits.2 _ hmem
  exact absurd hdigit (by decide)

/-- A number with a fraction is a decimal numeral. -/
theorem FractionNumeral.decimalNumeral {s : Bytes} {negative : Bool} {value : ℚ}
    (h : FractionNumeral s negative value) : DecimalNumeral s negative value := by
  obtain ⟨sign, whole, fraction, rfl, hsign, hwhole, hfraction, rfl⟩ := h
  exact ⟨sign, whole, 0x2e :: fraction, [], fraction, 0, by rw [List.append_nil],
    hsign.signText, hwhole.isDigits, FractionText.present hfraction, ExponentText.absent,
    by rw [Int.zero_sub]⟩

/-- `is_numeric_decimal` accepts the numbers with a fraction that `std::stod` converts. -/
theorem isNumericDecimal_iff (dbl : Doubles D) (s : Bytes) :
    isNumericDecimal (stod dbl) s = true ↔
      ∃ negative value, FractionNumeral s negative value ∧ dbl.round negative value ≠ none := by
  have hcut : ∀ sign whole fraction : Bytes, ∀ negative : Bool, MinusText sign negative →
      WholeText whole → Digits fraction →
        (isNumericDecimal (stod dbl) (sign ++ whole ++ 0x2e :: fraction) = true ↔
          dbl.round negative (decimal (whole ++ fraction) * 10 ^ (-(fraction.length : ℤ))) ≠
            none) := by
    intro sign whole fraction negative hsign hwhole hfraction
    have hnumeral : FractionNumeral (sign ++ whole ++ 0x2e :: fraction) negative
        (decimal (whole ++ fraction) * 10 ^ (-(fraction.length : ℤ))) :=
      ⟨sign, whole, fraction, List.append_assoc .., hsign, hwhole, hfraction, rfl⟩
    have hne : sign ++ whole ≠ [] :=
      List.append_ne_nil_of_right_ne_nil _ hwhole.isDigits.1
    rw [isNumericDecimal_cut _ (point_not_mem hsign hwhole), integerPartOk_iff hne,
      hnumeral.decimalNumeral.stod_eq dbl, Option.isSome_iff_ne_none]
    exact ⟨fun h => h.2.2.2, fun h => ⟨hne, ⟨sign, whole, negative, rfl, hsign, hwhole⟩,
      hfraction, h⟩⟩
  constructor
  · intro h
    have hmem : 0x2e ∈ s := by
      by_contra hmem
      have hpos : s.idxOf 0x2e = s.length := List.idxOf_eq_length hmem
      simp [isNumericDecimal, hpos] at h
    obtain ⟨front, back, rfl, hfront⟩ := List.eq_append_cons_of_mem hmem
    obtain ⟨hne, hinteger, hback, -⟩ := (isNumericDecimal_cut _ hfront back).1 h
    obtain ⟨sign, whole, negative, rfl, hsign, hwhole⟩ := (integerPartOk_iff hne).1 hinteger
    exact ⟨negative, _, ⟨sign, whole, back, List.append_assoc .., hsign, hwhole, hback, rfl⟩,
      (hcut _ _ _ _ hsign hwhole hback).1 h⟩
  · rintro ⟨negative, _, ⟨sign, whole, fraction, rfl, hsign, hwhole, hfraction, rfl⟩, hround⟩
    rw [← List.append_assoc]
    exact (hcut _ _ _ _ hsign hwhole hfraction).2 hround

/-- **The validators accept exactly their grammars**: signed whole numbers of 64 bits, whole
numbers below `2 ^ 64`, and numbers with a fraction that are in the range of a double. -/
theorem numeralValidators_iff (dbl : Doubles D) (s : Bytes) :
    (isNumeric s = true ↔ ∃ value, IntegerNumeral s value ∧ -2 ^ 63 ≤ value ∧ value < 2 ^ 63) ∧
      (isNumericUnsigned s = true ↔ WholeText s ∧ decimal s < 2 ^ 64) ∧
      (isNumericDecimal (stod dbl) s = true ↔
        ∃ negative value, FractionNumeral s negative value ∧ dbl.round negative value ≠ none) :=
  ⟨isNumeric_iff s, isNumericUnsigned_iff s, isNumericDecimal_iff dbl s⟩

example : isNumeric (str "-0") = true ∧ isNumeric (str "-9223372036854775808") = true ∧
    isNumeric (str "9223372036854775808") = false := by decide

end Behh
