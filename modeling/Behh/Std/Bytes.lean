import Behh.Library.Program
import Mathlib.Data.Int.Notation
import Mathlib.Tactic.IntervalCases

/-!
# Strings, vectors and formatted output

The parts of the C++ language and its library that the modelled functions compute with. A
`std::string` and a `std::vector<unsigned char>` are both lists of bytes; text constants are
written as `str "..."`. A pointer passed to other code is the list of the bytes of the object it
points into, from the pointer on: `cStr` for `c_str()`, with its terminating NUL, and the vector
itself for `data()`.

Two operations can go wrong in ways the language leaves undefined, and are programs without
outcome there: writing through a pointer past the end of a vector (`writeOut`) and adding two
`int` lengths whose sum is not an `int` (`addInt`). A vector that would be longer than a vector can
be is an exception (`newBuffer`).

`OStream` is a `std::ostream` with the flags the repository sets: `std::hex`, `std::uppercase`
and the fill character persist, the width applies to the next insertion only.

## Main definitions

* `Bytes`, `str`, `cStr`, `cString`: byte strings, text constants, `c_str()` and what is read
  through it.
* `toInt`: the conversion of a size to `int`.
* `newBuffer`: a vector of zero bytes.
* `writeOut`, `addInt`: checked writes and additions.
* `OStream`: formatted output of numbers.

## Main results

* `toInt_of_lt`, `toInt_nonneg_iff`: when the conversion keeps the value, and its sign.
* `OStream.putInt_byte`: a byte inserted with width 2 appends two hexadecimal digits.
-/

namespace Behh

/-- The contents of a `std::string` or of a `buffer_t`. -/
abbrev Bytes : Type := List UInt8

/-- The bytes of an ASCII text constant. -/
def str (s : String) : Bytes := s.toList.map fun c => UInt8.ofNat c.toNat

/-- A statement about every byte can be checked for each of them. -/
theorem forall_byte {p : UInt8 → Prop} (h : ∀ n : Fin 256, p (UInt8.ofNat n)) (b : UInt8) :
    p b := by
  have hb := h ⟨b.toNat, b.toNat_lt⟩
  rwa [UInt8.ofNat_toNat] at hb

/-- What `s.c_str()` points to: the bytes of `s` and a NUL. -/
def cStr (s : Bytes) : Bytes := s ++ [0]

/-- What a function that takes a `const char*` reads: the text in front of the first NUL. -/
def cString (s : Bytes) : Bytes := s.takeWhile fun c => c ≠ 0

@[simp] theorem length_cStr (s : Bytes) : (cStr s).length = s.length + 1 := by simp [cStr]

theorem take_cStr {s : Bytes} {k : ℕ} (h : k ≤ s.length) : (cStr s).take k = s.take k :=
  List.take_append_of_le_length h

/-! ### Conversions and additions of lengths -/

/-- `(int)size`: the low 32 bits, read as a two's complement number. -/
def toInt (n : ℕ) : ℤ :=
  if n % 2 ^ 32 < 2 ^ 31 then (n % 2 ^ 32 : ℕ) else (n % 2 ^ 32 : ℕ) - 2 ^ 32

theorem toInt_of_lt {n : ℕ} (h : n < 2 ^ 31) : toInt n = n := by
  rw [toInt]
  omega

/-- The converted size is non-negative when the low 32 bits are a non-negative `int`, and it is
then these bits. -/
theorem toInt_nonneg_iff {n : ℕ} : 0 ≤ toInt n ↔ n % 2 ^ 32 < 2 ^ 31 := by
  rw [toInt]
  omega

theorem toNat_toInt {n : ℕ} (h : 0 ≤ toInt n) : (toInt n).toNat = n % 2 ^ 32 := by
  have h' := toInt_nonneg_iff.1 h
  rw [toInt]
  omega

theorem toInt_toNat_le (n : ℕ) : (toInt n).toNat ≤ n := by
  rw [toInt]
  omega

/-- A whole string is handed over when its length is an `int`. -/
theorem take_cStr_toInt {s : Bytes} (h : s.length < 2 ^ 31) :
    (cStr s).take (toInt s.length).toNat = s := by
  rw [toInt_of_lt h, Int.toNat_natCast, take_cStr (le_refl _), List.take_length]

theorem take_toInt {s : Bytes} (h : s.length < 2 ^ 31) : s.take (toInt s.length).toNat = s := by
  rw [toInt_of_lt h, Int.toNat_natCast, List.take_length]

theorem toInt_lt (n : ℕ) : toInt n < 2 ^ 31 := by
  rw [toInt]
  omega

/-- `v.resize(n)`, with zero bytes behind the old ones where `v` gets longer. -/
def resize (v : Bytes) (n : ℕ) : Bytes := v.take n ++ List.replicate (n - v.length) 0

theorem resize_of_le {v : Bytes} {n : ℕ} (h : n ≤ v.length) : resize v n = v.take n := by
  rw [resize, Nat.sub_eq_zero_of_le h, List.replicate_zero, List.append_nil]

@[simp] theorem length_resize (v : Bytes) (n : ℕ) : (resize v n).length = n := by
  rw [resize, List.length_append, List.length_take, List.length_replicate]
  omega

/-- `buffer_t v(n)`, a vector of `n` zero bytes. The constructor throws `std::length_error` when no
vector has that many. -/
def newBuffer (n : ℕ) : Except Unit Bytes :=
  if n < 2 ^ 63 then .ok (List.replicate n 0) else .error ()

theorem newBuffer_of_lt {n : ℕ} (h : n < 2 ^ 63) : newBuffer n = .ok (List.replicate n 0) :=
  if_pos h

theorem newBuffer_of_le {n : ℕ} (h : 2 ^ 63 ≤ n) : newBuffer n = .error () := if_neg h.not_gt

variable {W : Type}

/-- The sum of two non-negative `int` values; a sum that is not an `int` has no outcome. -/
def addInt (a b : ℕ) : Prog W ℕ := if a + b < 2 ^ 31 then pure (a + b) else failure

/-- Writing `data` through `v.data() + off`; a write past the end of `v` has no outcome. -/
def writeOut (v : Bytes) (off : ℕ) (data : Bytes) : Prog W Bytes :=
  if off + data.length ≤ v.length then
    pure (v.take off ++ data ++ v.drop (off + data.length))
  else failure

theorem addInt_of_lt {a b : ℕ} (h : a + b < 2 ^ 31) : (addInt a b : Prog W ℕ) = pure (a + b) := by
  rw [addInt, if_pos h]

theorem writeOut_of_le {v : Bytes} {off : ℕ} {data : Bytes} (h : off + data.length ≤ v.length) :
    (writeOut v off data : Prog W Bytes) =
      pure (v.take off ++ data ++ v.drop (off + data.length)) := by
  rw [writeOut, if_pos h]

theorem addInt_eq_some {a b n : ℕ} {w w' : W} (h : addInt a b w = some (n, w')) :
    n = a + b ∧ n < 2 ^ 31 ∧ w' = w := by
  rw [addInt] at h
  split at h
  · obtain ⟨rfl, rfl⟩ : a + b = n ∧ w = w' := by simpa using h
    exact ⟨rfl, ‹_›, rfl⟩
  · simp at h

theorem writeOut_eq_some {v data v' : Bytes} {off : ℕ} {w w' : W}
    (h : writeOut v off data w = some (v', w')) :
    off + data.length ≤ v.length ∧ v' = v.take off ++ data ++ v.drop (off + data.length) ∧
      w' = w := by
  rw [writeOut] at h
  split at h
  · obtain ⟨rfl, rfl⟩ : v.take off ++ data ++ v.drop (off + data.length) = v' ∧ w = w' := by
      simpa using h
    exact ⟨‹_›, rfl, rfl⟩
  · simp at h

/-- A vector of `size` zero bytes with `data` written at its beginning. -/
def written (size : ℕ) (data : Bytes) : Bytes := data ++ List.replicate (size - data.length) 0

theorem replicate_eq_written (size : ℕ) : List.replicate size 0 = written size [] := rfl

@[simp] theorem take_written (size : ℕ) (data : Bytes) :
    (written size data).take data.length = data := List.take_left

@[simp] theorem resize_written (size : ℕ) (data : Bytes) :
    resize (written size data) data.length = data := by
  rw [resize_of_le (by rw [written, List.length_append]; omega), take_written]

theorem writeOut_written {size : ℕ} {first data : Bytes} (h : (first ++ data).length ≤ size) :
    (writeOut (written size first) first.length data : Prog W Bytes) =
      pure (written size (first ++ data)) := by
  rw [List.length_append] at h
  rw [writeOut_of_le (by rw [written, List.length_append, List.length_replicate]; omega),
    take_written, written, written, List.drop_length_add_append, List.drop_replicate,
    List.length_append, Nat.sub_add_eq]

/-- Writing behind `first`, over the beginning of what stands there. -/
theorem writeOut_append {first rest data : Bytes} (h : data.length ≤ rest.length) :
    (writeOut (first ++ rest) first.length data : Prog W Bytes) =
      pure ((first ++ data) ++ rest.drop data.length) := by
  rw [writeOut_of_le (by rw [List.length_append]; omega), List.take_left,
    List.drop_length_add_append]

theorem writeOut_written_eq_some {size : ℕ} {first data v : Bytes} {w w' : W}
    (h : writeOut (written size first) first.length data w = some (v, w')) :
    v = written size (first ++ data) ∧ w' = w := by
  obtain ⟨-, hv, hw⟩ := writeOut_eq_some h
  rw [take_written, written, List.drop_length_add_append, List.drop_replicate] at hv
  exact ⟨by rw [hv, written, List.length_append, Nat.sub_add_eq], hw⟩

theorem keeps_addInt {I : W → Prop} (a b : ℕ) : Prog.Keeps I (addInt a b : Prog W ℕ) :=
  Prog.keeps_ite (Prog.keeps_pure _) Prog.keeps_failure

theorem keeps_writeOut {I : W → Prop} (v : Bytes) (off : ℕ) (data : Bytes) :
    Prog.Keeps I (writeOut v off data : Prog W Bytes) :=
  Prog.keeps_ite (Prog.keeps_pure _) Prog.keeps_failure

/-! ### Formatted output -/

/-- A `std::ostream` and the formatting state it carries from one insertion to the next. -/
structure OStream where
  /-- What has been written. -/
  text : Bytes := []
  /-- `std::hex` was set. -/
  hex : Bool := false
  /-- `std::uppercase` was set. -/
  uppercase : Bool := false
  /-- The fill character. -/
  fill : UInt8 := 0x20
  /-- The width of the next insertion. -/
  width : ℕ := 0
  deriving DecidableEq

namespace OStream

/-- `<< std::hex`. -/
def setHex (o : OStream) : OStream := { o with hex := true }

/-- `<< std::uppercase`. -/
def setUppercase (o : OStream) : OStream := { o with uppercase := true }

/-- `<< std::setw(n)`. -/
def setw (n : ℕ) (o : OStream) : OStream := { o with width := n }

/-- `<< std::setfill(c)`. -/
def setfill (c : UInt8) (o : OStream) : OStream := { o with fill := c }

/-- The digits of `n` under the flags of the stream. -/
def digits (o : OStream) (n : ℕ) : Bytes :=
  (Nat.toDigits (if o.hex then 16 else 10) n).map fun c =>
    UInt8.ofNat (if o.uppercase then c.toUpper else c).toNat

/-- `<< n` for a non-negative `int`: the digits, filled up on the left to the width, which is
then reset. -/
def putInt (n : ℕ) (o : OStream) : OStream :=
  { o with
    text := o.text ++ List.replicate (o.width - (o.digits n).length) o.fill ++ o.digits n
    width := 0 }

/-- The digit of a value below 16, with letters in the case given by `uppercase`. -/
def hexDigit (uppercase : Bool) (n : ℕ) : UInt8 :=
  UInt8.ofNat (if n < 10 then 0x30 + n else (if uppercase then 0x37 else 0x57) + n)

/-- The two digits of a byte. -/
def hexDigits (uppercase : Bool) (b : UInt8) : Bytes :=
  [hexDigit uppercase (b.toNat / 16), hexDigit uppercase (b.toNat % 16)]

theorem hexDigit_inj {uppercase : Bool} {i j : ℕ} (hi : i < 16) (hj : j < 16)
    (h : hexDigit uppercase i = hexDigit uppercase j) : i = j := by
  have hall : ∀ u : Bool, ∀ i j : Fin 16, hexDigit u i.1 = hexDigit u j.1 → i = j := by
    decide +kernel
  exact congrArg Fin.val (hall uppercase ⟨i, hi⟩ ⟨j, hj⟩ h)

theorem hexDigits_injective (uppercase : Bool) : Function.Injective (hexDigits uppercase) := by
  intro b b' h
  obtain ⟨hhigh, hlow⟩ : hexDigit uppercase (b.toNat / 16) = hexDigit uppercase (b'.toNat / 16) ∧
      hexDigit uppercase (b.toNat % 16) = hexDigit uppercase (b'.toNat % 16) := by
    simpa [hexDigits] using h
  have hb := b.toNat_lt
  have hb' := b'.toNat_lt
  have h₁ := hexDigit_inj (by omega) (by omega) hhigh
  have h₂ := hexDigit_inj (by omega) (by omega) hlow
  exact UInt8.toNat_inj.1 (by omega)

/-- The digits of a value below 256, with a zero in front of a single digit, are the two digits
of the byte. The statement is checked for every byte. -/
theorem replicate_append_digits (uppercase : Bool) (b : UInt8) :
    List.replicate (2 - (digits ⟨[], true, uppercase, 0x30, 2⟩ b.toNat).length) 0x30 ++
      digits ⟨[], true, uppercase, 0x30, 2⟩ b.toNat = hexDigits uppercase b := by
  have hall : ∀ b : UInt8, ∀ u : Bool,
      List.replicate (2 - (digits ⟨[], true, u, 0x30, 2⟩ b.toNat).length) 0x30 ++
        digits ⟨[], true, u, 0x30, 2⟩ b.toNat = hexDigits u b := forall_byte (by decide +kernel)
  exact hall b uppercase

/-- **A byte in hexadecimal.** With `std::hex`, fill `'0'` and width 2, inserting a byte appends
its two digits; the flags stay and the width is reset. -/
theorem putInt_byte (o : OStream) (b : UInt8) (hhex : o.hex = true) (hfill : o.fill = 0x30)
    (hwidth : o.width = 2) :
    o.putInt b.toNat = { o with text := o.text ++ hexDigits o.uppercase b, width := 0 } := by
  have hd := replicate_append_digits o.uppercase b
  simp only [digits, ite_true] at hd
  simp only [putInt, digits, hhex, hfill, hwidth, ite_true, List.append_assoc, hd]

end OStream

end Behh
