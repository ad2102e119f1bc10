import Behh.Constants
import Behh.Cryptography.Hash
import Behh.Std.HexText

/-!
# The two hexadecimal encoders

`string_to_hex_string_openssl` of `src/cryptography.cc`, lines 23–34, and how it compares to
`bytes_to_hex_openssl`.

Its table begins with the letters, so that no value below 16 is given its digit, and the mask for
the low half of a byte lets a fifth bit through.

## Main definitions

* `stringToHexStringOpenssl`: the function.
* `HexEncodersAgree`: both encoders give the same text, which can be decoded.

## Main results

* `hexEncodersAgree_iff`: they agree on the empty string only.
* `bytesToHexOpenssl_invertible`: the text of `bytes_to_hex_openssl` is ordinary hexadecimal.
-/

namespace Behh

/-- `string_to_hex_string_openssl`. -/
def stringToHexStringOpenssl (input : Bytes) : Bytes :=
  input.foldl (fun (result : Bytes) (byte : UInt8) =>
    result ++ [hexDigitsTable.getD (byte >>> 4).toNat 0] ++
      [hexDigitsTable.getD (byte &&& 0x1F).toNat 0]) []

/-- The two characters that are pushed for a byte. -/
def tablePair (byte : UInt8) : Bytes :=
  [hexDigitsTable.getD (byte >>> 4).toNat 0, hexDigitsTable.getD (byte &&& 0x1F).toNat 0]

theorem stringToHexStringOpenssl_eq (input : Bytes) :
    stringToHexStringOpenssl input = input.flatMap tablePair := by
  have hloop : ∀ (s result : Bytes), s.foldl (fun (result : Bytes) (byte : UInt8) =>
      result ++ [hexDigitsTable.getD (byte >>> 4).toNat 0] ++
        [hexDigitsTable.getD (byte &&& 0x1F).toNat 0]) result = result ++ s.flatMap tablePair := by
    intro s
    induction s with
    | nil => simp
    | cons b s ih =>
      intro result
      rw [List.foldl_cons, ih, List.flatMap_cons, List.append_assoc, List.append_assoc]
      rfl
  exact hloop input []

theorem hexDecode_bytesToHexOpenssl (s : Bytes) :
    hexDecode (bytesToHexOpenssl s s.length) = some s := by
  rw [bytesToHexOpenssl_eq, List.take_length]
  exact hexDecode_hexText s

theorem mem_upperHex {s : Bytes} {c : UInt8} (hc : c ∈ upperHex s) :
    c ∈ str "0123456789ABCDEF" := by
  have hall : ∀ n : Fin 16, OStream.hexDigit true n.1 ∈ str "0123456789ABCDEF" := by decide
  obtain ⟨b, -, hdigit⟩ := List.mem_flatMap.1 hc
  have hb := b.toNat_lt
  rcases List.mem_cons.1 hdigit with rfl | hlow
  · exact hall ⟨b.toNat / 16, by omega⟩
  · obtain rfl := List.mem_singleton.1 hlow
    exact hall ⟨b.toNat % 16, by omega⟩

/-- **The text of `bytes_to_hex_openssl`.** For every byte array: two characters for each byte,
upper-case hexadecimal digits all of them, and ordinary decoding gives the array back. -/
theorem bytesToHexOpenssl_invertible (s : Bytes) :
    (bytesToHexOpenssl s s.length).length = 2 * s.length ∧
      (∀ c ∈ bytesToHexOpenssl s s.length, c ∈ str "0123456789ABCDEF") ∧
      hexDecode (bytesToHexOpenssl s s.length) = some s := by
  refine ⟨?_, fun c hc => ?_, hexDecode_bytesToHexOpenssl s⟩
  · rw [bytesToHexOpenssl_eq, List.take_length, length_upperHex]
  · rw [bytesToHexOpenssl_eq] at hc
    exact mem_upperHex hc

/-- Both encoders give the same text, and the bytes can be recovered from it. -/
def HexEncodersAgree (s : Bytes) : Prop :=
  stringToHexStringOpenssl s = bytesToHexOpenssl s s.length ∧
    hexDecode (stringToHexStringOpenssl s) = some s

/-- The first character for a byte is never the digit of its high half. -/
theorem tablePair_ne (b : UInt8) (t t' : Bytes) :
    tablePair b ++ t ≠ OStream.hexDigits true b ++ t' := by
  have hall : ∀ b : UInt8, hexDigitsTable.getD (b >>> 4).toNat 0 ≠
      OStream.hexDigit true (b.toNat / 16) := forall_byte (by decide +kernel)
  exact fun h => hall b (List.cons.inj h).1

/-- **Where the encoders agree.** On the empty string, and nowhere else. -/
theorem hexEncodersAgree_iff (s : Bytes) : HexEncodersAgree s ↔ s = [] := by
  constructor
  · rintro ⟨h, -⟩
    cases s with
    | nil => rfl
    | cons b s =>
      rw [stringToHexStringOpenssl_eq, bytesToHexOpenssl_eq, List.take_length, upperHex,
        List.flatMap_cons, List.flatMap_cons] at h
      exact absurd h (tablePair_ne b _ _)
  · rintro rfl
    exact ⟨rfl, rfl⟩

/-- The letter `a`, which is `61`, becomes `GB`. -/
theorem not_hexEncodersAgree_a : ¬ HexEncodersAgree (str "a") := by
  intro h
  exact absurd h.1 (by decide +kernel)

end Behh
