import Behh.Std.Text
import Mathlib.Tactic.Ring

/-!
# Decimal numerals

The texts in which numbers are written: plain, with a sign, and filled up with zeros to a given
width. `decimal` reads them back.

## Main definitions

* `numeral`, `intNumeral`: the decimal text of a number and of an integer.
* `padded`: the decimal text of a number, with zeros in front up to a given width.
* `OStream.putText`, `OStream.putInt64`: formatted output of a text, and of a signed number in
  decimal.

## Main results

* `decimal_numeral`, `decimal_padded`: reading inverts writing.
* `decimal_append`: what a text of digits denotes when it is written in front of another.
* `intNumeral_injective`: different integers have different texts.
-/

namespace Behh

/-- The decimal text of a number. -/
def numeral (n : ℕ) : Bytes := (Nat.toDigits 10 n).map fun c => UInt8.ofNat c.toNat

/-- The decimal text of an integer. -/
def intNumeral (n : ℤ) : Bytes := if n < 0 then 0x2d :: numeral n.natAbs else numeral n.natAbs

/-- The decimal text of a number, with zeros in front up to `width` characters. -/
def padded (width n : ℕ) : Bytes :=
  List.replicate (width - (numeral n).length) 0x30 ++ numeral n

/-! ### Texts of digits -/

theorem decimal_append (digits digits' : Bytes) :
    decimal (digits ++ digits') = 10 ^ digits'.length * decimal digits + decimal digits' := by
  induction digits' using List.reverseRecOn with
  | nil => simp [decimal]
  | append_singleton digits' c ih =>
    have hsplit : ∀ (ds : Bytes) (d : UInt8),
        decimal (ds ++ [d]) = 10 * decimal ds + (d.toNat - 0x30) := by
      intro ds d
      simp [decimal]
    rw [← List.append_assoc, hsplit, hsplit, ih, List.length_append, List.length_singleton,
      Nat.pow_succ]
    ring

theorem decimal_replicate_zero (n : ℕ) : decimal (List.replicate n 0x30) = 0 := by
  induction n with
  | zero => rfl
  | succ n ih => rw [List.replicate_succ', decimal_append, ih]; rfl

theorem decimal_cons_zero (digits : Bytes) : decimal (0x30 :: digits) = decimal digits := by
  have h := decimal_append [0x30] digits
  rwa [show decimal [0x30] = 0 from rfl, Nat.mul_zero, Nat.zero_add] at h

theorem decimal_lt {digits : Bytes} (h : digits.all isdigit = true) :
    decimal digits < 10 ^ digits.length := by
  induction digits using List.reverseRecOn with
  | nil => decide
  | append_singleton digits c ih =>
    rw [List.all_append, Bool.and_eq_true] at h
    have hlt := ih h.1
    have hc : decimal [c] < 10 := by
      have hdigit : 0x30 ≤ c.toNat ∧ c.toNat ≤ 0x39 := by
        simpa [isdigit, UInt8.le_iff_toNat_le] using h.2
      simp only [decimal, List.foldl_cons, List.foldl_nil]
      omega
    rw [decimal_append, List.length_append, List.length_singleton, Nat.pow_succ]
    omega

/-- A text of digits is read to its end by `std::stoi` when the number is an `int`. -/
theorem stoi_digits {digits : Bytes} (hne : digits ≠ []) (h : digits.all isdigit = true)
    (hlt : decimal digits < 2 ^ 31) :
    stoi digits = some ((decimal digits : ℤ), digits.length) := by
  rw [stoi, strtol_digits hne h, Option.filter_some, if_pos]
  simp only [Bool.and_eq_true, decide_eq_true_eq]
  omega

theorem stoll_digits {digits : Bytes} (hne : digits ≠ []) (h : digits.all isdigit = true)
    (hlt : decimal digits < 2 ^ 63) :
    stoll digits = some ((decimal digits : ℤ), digits.length) := by
  rw [stoll, strtol_digits hne h, Option.filter_some, if_pos]
  simp only [Bool.and_eq_true, decide_eq_true_eq]
  omega

/-! ### Numerals -/

@[simp] theorem numeral_ne_nil (n : ℕ) : numeral n ≠ [] := by simp [numeral]

theorem isdigit_of_isDigit {c : Char} (h : c.isDigit = true) :
    isdigit (UInt8.ofNat c.toNat) = true ∧ (UInt8.ofNat c.toNat).toNat = c.toNat := by
  have hc : 48 ≤ c.toNat ∧ c.toNat ≤ 57 := by
    rw [Char.isDigit, Bool.and_eq_true, decide_eq_true_eq, decide_eq_true_eq] at h
    exact h
  have hval : (UInt8.ofNat c.toNat).toNat = c.toNat := by
    rw [UInt8.toNat_ofNat']
    omega
  refine ⟨?_, hval⟩
  simp only [isdigit, Bool.and_eq_true, decide_eq_true_eq, UInt8.le_iff_toNat_le, hval]
  exact hc

theorem all_isdigit_numeral (n : ℕ) : (numeral n).all isdigit = true := by
  rw [numeral, List.all_map, List.all_eq_true]
  intro c hc
  have hdigit := Nat.isDigit_of_mem_toDigits (by decide) (by decide) hc
  exact (isdigit_of_isDigit hdigit).1

/-- Writing a number and reading it. -/
@[simp] theorem decimal_numeral (n : ℕ) : decimal (numeral n) = n := by
  have hfold : ∀ (cs : List Char) (init : ℕ), (∀ c ∈ cs, c.isDigit = true) →
      (cs.map fun c => UInt8.ofNat c.toNat).foldl (fun n c => 10 * n + (c.toNat - 0x30)) init =
        Nat.ofDigitChars 10 cs init := by
    intro cs
    induction cs with
    | nil => simp
    | cons c cs ih =>
      intro init hcs
      obtain ⟨hc, hcs⟩ := List.forall_mem_cons.1 hcs
      rw [List.map_cons, List.foldl_cons, ih _ hcs, Nat.ofDigitChars_cons,
        (isdigit_of_isDigit hc).2]
      rfl
  have hdigits : ∀ c ∈ Nat.toDigits 10 n, c.isDigit = true := fun c hc =>
    Nat.isDigit_of_mem_toDigits (by decide) (by decide) hc
  rw [decimal, numeral, hfold _ _ hdigits, Nat.ofDigitChars_toDigits (by decide) (by decide)]

theorem numeral_injective : Function.Injective numeral := by
  intro m n h
  rw [← decimal_numeral m, h, decimal_numeral]

theorem length_numeral_le_iff {n width : ℕ} (h : 0 < width) :
    (numeral n).length ≤ width ↔ n < 10 ^ width := by
  rw [numeral, List.length_map, Nat.length_toDigits_le_iff (by decide) h]

/-- The sign tells a negative integer, and the digits behind it tell which. -/
theorem intNumeral_injective : Function.Injective intNumeral := by
  have hsign : ∀ m n : ℕ, numeral m ≠ 0x2d :: numeral n := by
    intro m n h
    have hall := all_isdigit_numeral m
    rw [h] at hall
    simp [isdigit] at hall
  intro m n h
  rw [intNumeral, intNumeral] at h
  split at h <;> split at h
  · have habs := numeral_injective (List.cons_injective h)
    omega
  · exact absurd h.symm (hsign _ _)
  · exact absurd h (hsign _ _)
  · have habs := numeral_injective h
    omega

/-! ### Numerals of a fixed width -/

theorem all_isdigit_padded (width n : ℕ) : (padded width n).all isdigit = true := by
  rw [padded, List.all_append, all_isdigit_numeral, Bool.and_true, List.all_eq_true]
  intro c hc
  rw [List.eq_of_mem_replicate hc]
  decide

@[simp] theorem decimal_padded (width n : ℕ) : decimal (padded width n) = n := by
  rw [padded, decimal_append, decimal_replicate_zero, decimal_numeral, Nat.mul_zero, Nat.zero_add]

theorem length_padded {width n : ℕ} (hwidth : 0 < width) (h : n < 10 ^ width) :
    (padded width n).length = width := by
  have hle := (length_numeral_le_iff hwidth).2 h
  rw [padded, List.length_append, List.length_replicate]
  omega

theorem padded_eq_numeral {width n : ℕ} (h : 10 ^ width ≤ n) :
    padded (width + 1) n = numeral n := by
  have hlt : width < (numeral n).length := by
    rcases Nat.eq_zero_or_pos width with rfl | hpos
    · exact List.length_pos_iff.2 (numeral_ne_nil n)
    · exact Nat.lt_of_not_le fun hle => absurd ((length_numeral_le_iff hpos).1 hle) (by omega)
  rw [padded, Nat.sub_eq_zero_of_le (by omega), List.replicate_zero, List.nil_append]

theorem padded_injective {width m n : ℕ} (h : padded width m = padded width n) : m = n := by
  rw [← decimal_padded width m, h, decimal_padded]

/-! ### Formatted output -/

namespace OStream

/-- `<< s` for a character or a text. -/
def putText (s : Bytes) (o : OStream) : OStream :=
  { o with text := o.text ++ List.replicate (o.width - s.length) o.fill ++ s, width := 0 }

/-- `<< n` for a signed number, on a stream that writes in decimal: the sign counts for the
width, and the fill characters stand in front of it. -/
def putInt64 (n : ℤ) (o : OStream) : OStream :=
  let digits := if n < 0 then 0x2d :: o.digits n.natAbs else o.digits n.natAbs
  { o with
    text := o.text ++ List.replicate (o.width - digits.length) o.fill ++ digits
    width := 0 }

theorem putText_text {o : OStream} (h : o.width = 0) (s : Bytes) :
    (o.putText s).text = o.text ++ s := by
  simp [putText, h]

theorem exists_putInt64_text (o : OStream) (n : ℤ) :
    ∃ rest, (o.putInt64 n).text = o.text ++ rest := ⟨_, List.append_assoc ..⟩

/-- With a zero as fill character, a number that is not negative is filled up to the width. -/
theorem putInt64_natCast (o : OStream) (n : ℕ) (hhex : o.hex = false)
    (hupper : o.uppercase = false) (hfill : o.fill = 0x30) :
    (o.putInt64 n).text = o.text ++ padded o.width n := by
  have hdigits : o.digits n = numeral n := by simp [digits, numeral, hhex, hupper]
  have hsign : ¬(n : ℤ) < 0 := by omega
  simp [putInt64, padded, hdigits, hfill, hsign]

end OStream

end Behh
