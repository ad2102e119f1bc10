import Behh.Std.Bytes

/-!
# Hexadecimal texts

The text of a byte string, two digits for each byte, and ordinary hexadecimal decoding, which
takes letters of either case.

## Main definitions

* `hexText`: the text of a byte string, with letters of one case.
* `hexDecode`: decoding.

## Main results

* `hexDecode_hexText`: decoding inverts encoding.
-/

namespace Behh

/-- The text of a byte string, two digits for each byte. -/
def hexText (uppercase : Bool) (s : Bytes) : Bytes := s.flatMap (OStream.hexDigits uppercase)

/-- The value of a hexadecimal digit. -/
def hexVal (c : UInt8) : Option ℕ :=
  if 0x30 ≤ c ∧ c ≤ 0x39 then some (c.toNat - 0x30)
  else if 0x41 ≤ c ∧ c ≤ 0x46 then some (c.toNat - 0x37)
  else if 0x61 ≤ c ∧ c ≤ 0x66 then some (c.toNat - 0x57)
  else none

/-- Ordinary hexadecimal decoding: two digits make a byte. -/
def hexDecode : Bytes → Option Bytes
  | [] => some []
  | [_] => none
  | a :: b :: t =>
    (hexVal a).bind fun x => (hexVal b).bind fun y =>
      (hexDecode t).map fun s => UInt8.ofNat (16 * x + y) :: s

variable {uppercase : Bool}

@[simp] theorem hexText_nil : hexText uppercase [] = [] := rfl

theorem hexText_cons (b : UInt8) (s : Bytes) :
    hexText uppercase (b :: s) = OStream.hexDigits uppercase b ++ hexText uppercase s := rfl

theorem hexText_append (s s' : Bytes) :
    hexText uppercase (s ++ s') = hexText uppercase s ++ hexText uppercase s' :=
  List.flatMap_append ..

theorem length_hexText (s : Bytes) : (hexText uppercase s).length = 2 * s.length := by
  induction s with
  | nil => rfl
  | cons b s ih =>
    rw [hexText_cons, List.length_append, ih, OStream.hexDigits, List.length_cons,
      List.length_singleton, List.length_cons]
    omega

theorem hexVal_hexDigit {n : ℕ} (hn : n < 16) : hexVal (OStream.hexDigit uppercase n) = some n := by
  have hall : ∀ u : Bool, ∀ n : Fin 16, hexVal (OStream.hexDigit u n.1) = some n.1 := by
    decide +kernel
  exact hall uppercase ⟨n, hn⟩

/-- **Decoding inverts encoding.** -/
@[simp] theorem hexDecode_hexText (s : Bytes) : hexDecode (hexText uppercase s) = some s := by
  induction s with
  | nil => rfl
  | cons b s ih =>
    have hb := b.toNat_lt
    have hhalves : 16 * (b.toNat / 16) + b.toNat % 16 = b.toNat := by omega
    rw [hexText_cons, OStream.hexDigits, List.cons_append, List.singleton_append, hexDecode,
      hexVal_hexDigit (by omega), hexVal_hexDigit (by omega), ih, Option.bind_some,
      Option.bind_some, Option.map_some, hhalves, UInt8.ofNat_toNat]

end Behh
