import Behh.Std.HexText
import Behh.Std.Text
import Mathlib.Algebra.Field.Rat

/-!
# Floating-point numerals

`std::stod`. It skips blanks and reads the longest number at the beginning of a text: an optional
sign and then the words `inf` or `nan`, a hexadecimal number behind `0x`, or a decimal number. It
throws when there is none, and when the number is out of the range of a double.

The doubles are a parameter: an exact number is read, and what it is rounded to, or whether it is
out of range, is up to them.

## Main definitions

* `Doubles`: a type of doubles.
* `FloatText`, `floatAhead`: the number at the beginning of a text.
* `stod`: `std::stod`.
* `SignText`, `Digits`, `FractionText`, `ExponentText`, `DecimalNumeral`: the decimal numerals.

## Main results

* `DecimalNumeral.floatAhead_eq`: a decimal numeral is read to its end.
-/

namespace Behh

/-- A type of doubles. -/
structure Doubles (D : Type) where
  /-- The double that stands for a number, given the sign of the text and the absolute value;
  `none` when the number is out of range. -/
  round : Bool → ℚ → Option D
  /-- An infinity. -/
  infinity : Bool → D
  /-- Not a number. -/
  nan : Bool → D

/-! ### Reading -/

/-- What stands at the beginning of a text, behind its sign. -/
inductive FloatText where
  | infinity (negative : Bool)
  | nan (negative : Bool)
  /-- A number, by its sign and its absolute value. -/
  | number (negative : Bool) (value : ℚ)

/-- The sign at the beginning of a text, and the text behind it. -/
def takeSign (s : Bytes) : Bool × Bytes :=
  if s.head? = some 0x2d then (true, s.tail)
  else if s.head? = some 0x2b then (false, s.tail)
  else (false, s)

/-- The digits at the beginning of a text, those behind a point that follows them, and the text
behind all of them. -/
def takeMantissa (digit : UInt8 → Bool) (s : Bytes) : Bytes × Bytes × Bytes :=
  let whole := s.takeWhile digit
  let rest := s.dropWhile digit
  if rest.head? = some 0x2e then
    (whole, rest.tail.takeWhile digit, rest.tail.dropWhile digit)
  else (whole, [], rest)

/-- The exponent at the beginning of a text, behind a letter of either case; 0 when there is
none. -/
def takeExponent (letter : UInt8) (s : Bytes) : ℤ :=
  if s.head?.map toupper = some letter then
    let signed := takeSign s.tail
    let digits := signed.2.takeWhile isdigit
    if signed.1 then -(decimal digits : ℤ) else decimal digits
  else 0

/-- The number that a text of hexadecimal digits denotes. -/
def hexadecimal (digits : Bytes) : ℕ := digits.foldl (fun n c => 16 * n + (hexVal c).getD 0) 0

/-- The number at the beginning of a text. -/
def floatAhead (s : Bytes) : Option FloatText :=
  let signed := takeSign (s.dropWhile isspace)
  let t := signed.2
  if (t.take 3).map toupper = str "INF" then some (.infinity signed.1)
  else if (t.take 3).map toupper = str "NAN" then some (.nan signed.1)
  else
    let hex := takeMantissa (fun c => (hexVal c).isSome) (t.drop 2)
    let dec := takeMantissa isdigit t
    if (t.take 2).map toupper = str "0X" ∧ hex.1 ++ hex.2.1 ≠ [] then
      some (.number signed.1 (hexadecimal (hex.1 ++ hex.2.1) *
        2 ^ (takeExponent 0x50 hex.2.2 - 4 * hex.2.1.length)))
    else if dec.1 ++ dec.2.1 ≠ [] then
      some (.number signed.1 (decimal (dec.1 ++ dec.2.1) *
        10 ^ (takeExponent 0x45 dec.2.2 - dec.2.1.length)))
    else none

variable {D : Type}

/-- The double for what has been read. -/
def Doubles.ofFloatText (dbl : Doubles D) : FloatText → Option D
  | .infinity negative => some (dbl.infinity negative)
  | .nan negative => some (dbl.nan negative)
  | .number negative value => dbl.round negative value

/-- `std::stod`; `none` when it throws. -/
def stod (dbl : Doubles D) (s : Bytes) : Option D := (floatAhead s).bind dbl.ofFloatText

/-- Doubles that hold every number. -/
def Doubles.unbounded : Doubles FloatText where
  round negative value := some (.number negative value)
  infinity := .infinity
  nan := .nan

/-! ### Decimal numerals -/

/-- An optional sign, and whether it is a minus. -/
inductive SignText : Bytes → Bool → Prop
  | absent : SignText [] false
  | plus : SignText [0x2b] false
  | minus : SignText [0x2d] true

/-- A text of digits that is not empty. -/
def Digits (s : Bytes) : Prop := s ≠ [] ∧ s.all isdigit = true

/-- An optional fraction, and its digits. -/
inductive FractionText : Bytes → Bytes → Prop
  | absent : FractionText [] []
  | present {digits : Bytes} (h : Digits digits) : FractionText (0x2e :: digits) digits

/-- An optional exponent, and its value. -/
inductive ExponentText : Bytes → ℤ → Prop
  | absent : ExponentText [] 0
  | present {letter : UInt8} (hletter : letter = 0x65 ∨ letter = 0x45) {sign digits : Bytes}
      {negative : Bool} (hsign : SignText sign negative) (h : Digits digits) :
      ExponentText (letter :: (sign ++ digits))
        (if negative then -(decimal digits : ℤ) else decimal digits)

/-- The text is an optional sign, digits, an optional fraction and an optional exponent; with its
sign and its absolute value. -/
def DecimalNumeral (s : Bytes) (negative : Bool) (value : ℚ) : Prop :=
  ∃ sign whole fraction exponent digits : Bytes, ∃ e : ℤ,
    s = sign ++ (whole ++ (fraction ++ exponent)) ∧ SignText sign negative ∧ Digits whole ∧
      FractionText fraction digits ∧ ExponentText exponent e ∧
      value = decimal (whole ++ digits) * 10 ^ (e - digits.length)

/-! ### A decimal numeral is read to its end -/

theorem Digits.head {s : Bytes} (h : Digits s) : ∃ c cs, s = c :: cs ∧ isdigit c = true := by
  obtain ⟨c, cs, rfl⟩ := List.exists_cons_of_ne_nil h.1
  exact ⟨c, cs, rfl, List.all_eq_true.1 h.2 c List.mem_cons_self⟩

theorem SignText.takeSign_eq {sign : Bytes} {negative : Bool} (h : SignText sign negative)
    {digits : Bytes} (hdigits : Digits digits) (rest : Bytes) :
    takeSign (sign ++ (digits ++ rest)) = (negative, digits ++ rest) := by
  cases h with
  | absent =>
    obtain ⟨c, cs, rfl, hc⟩ := hdigits.head
    obtain ⟨-, hminus, hplus⟩ := ne_sign_of_isdigit hc
    simp [takeSign, hminus, hplus]
  | plus => simp [takeSign]
  | minus => simp [takeSign]

/-- What `strtol` reads of an optional sign and digits. -/
theorem SignText.strtol_eq {sign : Bytes} {negative : Bool} (h : SignText sign negative)
    {digits : Bytes} (hdigits : Digits digits) :
    strtol (sign ++ digits) = some (if negative then -(decimal digits : ℤ) else decimal digits,
      (sign ++ digits).length) := by
  cases h with
  | absent => exact strtol_digits hdigits.1 hdigits.2
  | plus =>
    have htake := List.takeWhile_eq_self_iff.2 (List.all_eq_true.1 hdigits.2)
    have hspace : isspace 0x2b = false := by decide
    simp [strtol, hspace, htake, hdigits.1, Nat.add_comm]
  | minus => exact strtol_minus_digits hdigits.1 hdigits.2

theorem ExponentText.takeExponent_eq {exponent : Bytes} {e : ℤ} (h : ExponentText exponent e) :
    takeExponent 0x45 exponent = e := by
  cases h with
  | absent => rfl
  | @present letter hletter sign digits negative hsign hdigits =>
    have hupper : toupper letter = 0x45 := by
      rcases hletter with rfl | rfl <;> decide
    have hsigned := hsign.takeSign_eq hdigits []
    have htake : digits.takeWhile isdigit = digits :=
      List.takeWhile_eq_self_iff.2 (List.all_eq_true.1 hdigits.2)
    rw [List.append_nil] at hsigned
    simp [takeExponent, hupper, hsigned, htake]

theorem ExponentText.head {exponent : Bytes} {e : ℤ} (h : ExponentText exponent e) :
    (∀ c, exponent.head? = some c → isdigit c = false) ∧ exponent.head? ≠ some 0x2e := by
  cases h with
  | absent => simp
  | present hletter hsign hdigits => rcases hletter with rfl | rfl <;> simp [isdigit]

theorem FractionText.takeMantissa_eq {fraction digits : Bytes} (h : FractionText fraction digits)
    {whole exponent : Bytes} {e : ℤ} (hwhole : Digits whole) (hexponent : ExponentText exponent e) :
    takeMantissa isdigit (whole ++ (fraction ++ exponent)) = (whole, digits, exponent) := by
  obtain ⟨hhead, hpoint⟩ := hexponent.head
  cases h with
  | absent =>
    obtain ⟨htake, hdrop⟩ := takeWhile_append_of_all hwhole.2 hhead
    simp only [takeMantissa, List.nil_append, htake, hdrop]
    rw [if_neg hpoint]
  | present hdigits =>
    have hdot : ∀ c, (0x2e :: (digits ++ exponent)).head? = some c → isdigit c = false := by
      simp [isdigit]
    obtain ⟨htake, hdrop⟩ := takeWhile_append_of_all hwhole.2 hdot
    obtain ⟨htake', hdrop'⟩ := takeWhile_append_of_all hdigits.2 hhead
    simp only [takeMantissa, List.cons_append, htake, hdrop, List.head?_cons, if_true,
      List.tail_cons, htake', hdrop']

theorem ne_letter_of_isdigit {c : UInt8} (h : isdigit c = true) :
    toupper c ≠ 0x49 ∧ toupper c ≠ 0x4e ∧ toupper c = c := by
  have hall : ∀ c : UInt8, isdigit c = true →
      toupper c ≠ 0x49 ∧ toupper c ≠ 0x4e ∧ toupper c = c := forall_byte (by decide +kernel)
  exact hall c h

/-- What stands behind the first digit of a number is no `x`. -/
theorem DecimalNumeral.second_ne {whole fraction exponent digits : Bytes} {e : ℤ}
    (hwhole : Digits whole) (hfraction : FractionText fraction digits)
    (hexponent : ExponentText exponent e) :
    ((whole ++ (fraction ++ exponent)).take 2).map toupper ≠ str "0X" := by
  obtain ⟨c, cs, rfl, hc⟩ := hwhole.head
  intro h
  cases cs with
  | cons c' cs =>
    have hc' : isdigit c' = true :=
      List.all_eq_true.1 hwhole.2 c' (List.mem_cons_of_mem _ List.mem_cons_self)
    have hx : toupper c' = 0x58 := (List.cons.inj (List.cons.inj h).2).1
    rw [(ne_letter_of_isdigit hc').2.2] at hx
    rw [hx] at hc'
    exact absurd hc' (by decide)
  | nil =>
    cases hfraction with
    | present hdigits => simp [str, toupper] at h
    | absent =>
      cases hexponent with
      | absent => simp [str] at h
      | present hletter hsign hdigits =>
        rcases hletter with rfl | rfl <;> simp [str, toupper] at h

/-- **A decimal numeral is read to its end.** -/
theorem DecimalNumeral.floatAhead_eq {s : Bytes} {negative : Bool} {value : ℚ}
    (h : DecimalNumeral s negative value) : floatAhead s = some (.number negative value) := by
  obtain ⟨sign, whole, fraction, exponent, digits, e, rfl, hsign, hwhole, hfraction, hexponent,
    rfl⟩ := h
  have hspace : (sign ++ (whole ++ (fraction ++ exponent))).dropWhile isspace =
      sign ++ (whole ++ (fraction ++ exponent)) := by
    cases hsign with
    | absent =>
      obtain ⟨c, cs, rfl, hc⟩ := hwhole.head
      simp [(ne_sign_of_isdigit hc).1]
    | plus => exact List.dropWhile_cons_of_neg (by decide)
    | minus => exact List.dropWhile_cons_of_neg (by decide)
  have hsigned := hsign.takeSign_eq hwhole (fraction ++ exponent)
  have hmantissa := hfraction.takeMantissa_eq hwhole hexponent
  have hhex := DecimalNumeral.second_ne hwhole hfraction hexponent
  obtain ⟨c, cs, hc, hdigit⟩ := hwhole.head
  obtain ⟨hi, hn, -⟩ := ne_letter_of_isdigit hdigit
  have hinf : ((whole ++ (fraction ++ exponent)).take 3).map toupper ≠ str "INF" := by
    intro h
    rw [hc] at h
    exact hi (List.cons.inj h).1
  have hnan : ((whole ++ (fraction ++ exponent)).take 3).map toupper ≠ str "NAN" := by
    intro h
    rw [hc] at h
    exact hn (List.cons.inj h).1
  have hne : whole ++ digits ≠ [] := List.append_ne_nil_of_left_ne_nil hwhole.1 _
  simp only [floatAhead, hspace, hsigned, hmantissa, hinf, hnan, hhex, false_and, if_false,
    if_pos hne, hexponent.takeExponent_eq]

theorem DecimalNumeral.stod_eq {s : Bytes} {negative : Bool} {value : ℚ}
    (h : DecimalNumeral s negative value) (dbl : Doubles D) :
    stod dbl s = dbl.round negative value := by
  rw [stod, h.floatAhead_eq, Option.bind_some, Doubles.ofFloatText]

end Behh
