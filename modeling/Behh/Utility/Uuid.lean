import Behh.Std.HexText
import Behh.Std.Numerals
import Behh.Utility.Generate
import Mathlib.Data.Fintype.Basic
import Mathlib.Data.List.OfFn
import Mathlib.Tactic.FinCases

/-!
# UUID texts

The namespace `generate::uuid` of `src/utility.cc`, lines 374–441: the two functions that make a
UUID out of 16 random bytes, and the two that take its dashes out and put them in again.

What a UUID text says is stated bit by bit: a bit of the bytes that the text is decoded to is a bit
of the version, of the variant or of the timestamp, or a bit of the random bytes (`Stamp`,
`Stamped`).

## Main definitions

* `v1`, `v4`, `formatUuidToRef`, `formatRefToUuid`: the four functions.
* `Stamp`: the bits that do not come from the random bytes.
* `Describes`: what a UUID text says.

## Main results

* `text_eq_join`: the loop that writes the text.
* `uuid_texts`: the texts of both versions, and the way back.
-/

namespace Behh.Uuid

/-! ### The functions -/

/-- The common loop over the bytes. -/
def text (bytes : Array16) : Bytes :=
  ((List.finRange 16).foldl (fun oss i =>
    let oss := if i = 4 ∨ i = 6 ∨ i = 8 ∨ i = 10 then oss.putText [0x2d] else oss
    (oss.setw 2).putInt (bytes i).toNat)
    (({} : OStream).setHex.setfill 0x30)).text

/-- `(timestamp >> k) & 0xFF`, as a byte. -/
def octet (timestamp : ℤ) (k : ℕ) : UInt8 := UInt8.ofInt ((timestamp >>> k) % 256)

/-- The bytes of `v1`, with the timestamp, the version and the variant. -/
def v1Bytes (timestamp : ℤ) (bytes : Array16) : Array16 :=
  let bytes := Function.update bytes 0 (octet timestamp 40)
  let bytes := Function.update bytes 1 (octet timestamp 32)
  let bytes := Function.update bytes 2 (octet timestamp 24)
  let bytes := Function.update bytes 3 (octet timestamp 16)
  let bytes := Function.update bytes 4 (octet timestamp 8)
  let bytes := Function.update bytes 5 (octet timestamp 0)
  let bytes := Function.update bytes 6 ((bytes 6 &&& 0x0F) ||| 0x10)
  Function.update bytes 8 ((bytes 8 &&& 0x3F) ||| 0x80)

/-- `v1`, for a count of microseconds and random bytes. -/
def v1 (timestamp : ℤ) (bytes : Array16) : Bytes := text (v1Bytes timestamp bytes)

/-- The bytes of `v4`, with the version and the variant. -/
def v4Bytes (bytes : Array16) : Array16 :=
  let bytes := Function.update bytes 6 ((bytes 6 &&& 0x0F) ||| 0x40)
  Function.update bytes 8 ((bytes 8 &&& 0x3F) ||| 0x80)

/-- `v4`, for random bytes. -/
def v4 (bytes : Array16) : Bytes := text (v4Bytes bytes)

/-- `format_uuid_to_ref`. -/
def formatUuidToRef (uuidString : Bytes) : Bytes := uuidString.filter fun c => c ≠ 0x2d

/-- `s.substr(pos, n)`; `none` is an exception. -/
def substr (s : Bytes) (pos n : ℕ) : Option Bytes :=
  if pos ≤ s.length then some ((s.drop pos).take n) else none

/-- `format_ref_to_uuid`. -/
def formatRefToUuid (uuidString : Bytes) : Option Bytes :=
  (substr uuidString 0 8).bind fun a => (substr uuidString 8 4).bind fun b =>
    (substr uuidString 12 4).bind fun c => (substr uuidString 16 4).bind fun d =>
      (substr uuidString 20 12).map fun e =>
        a ++ [0x2d] ++ b ++ [0x2d] ++ c ++ [0x2d] ++ d ++ [0x2d] ++ e

/-! ### What a text says -/

/-- Five parts with dashes between them. -/
def join (a b c d e : Bytes) : Bytes :=
  a ++ 0x2d :: (b ++ 0x2d :: (c ++ 0x2d :: (d ++ 0x2d :: e)))

/-- The digits of a UUID. -/
def lowerHexDigits : Bytes := str "0123456789abcdef"

/-- For a byte and the number of a bit in it: the value of a bit that does not come from the random
bytes. -/
abbrev Stamp : Type := Fin 16 → ℕ → Option Bool

/-- The version in the high half of byte 6, and the bits 10 at the top of byte 8. -/
def versionStamp (version : ℕ) : Stamp := fun i j =>
  if i = 6 ∧ 4 ≤ j then some (version.testBit (j - 4))
  else if i = 8 ∧ 6 ≤ j then some (decide (j = 7))
  else none

/-- The bits of `v4`. -/
def v4Stamp : Stamp := versionStamp 4

/-- The bits of `v1`: the timestamp modulo `2 ^ 48` in the first six bytes, the highest first. -/
def v1Stamp (timestamp : ℤ) : Stamp := fun i j =>
  if i.1 < 6 then some ((timestamp % 2 ^ 48).toNat.testBit (8 * (5 - i.1) + j))
  else versionStamp 1 i j

/-- The bits of `bytes'` are those of the stamp, and those of `bytes` elsewhere. -/
def Stamped (stamp : Stamp) (bytes bytes' : Array16) : Prop :=
  ∀ i, ∀ j < 8, (bytes' i).toNat.testBit j = (stamp i j).getD ((bytes i).toNat.testBit j)

/-- Two arrays agree in all bits that are not overwritten. -/
def AgreeOutside (stamp : Stamp) (bytes bytes' : Array16) : Prop :=
  ∀ i, ∀ j < 8, stamp i j = none → (bytes i).toNat.testBit j = (bytes' i).toNat.testBit j

/-- The form of a UUID text: five parts of lower-case digits, of 8, 4, 4, 4 and 12 characters, the
third with the version in front and the fourth with the variant. Without its dashes, and with
nothing else taken out, the text is `ref`. -/
def HasForm (version : UInt8) (u ref : Bytes) : Prop :=
  ∃ a b c d e, u = join a b c d e ∧ ref = a ++ b ++ c ++ d ++ e ∧
    (a.length = 8 ∧ b.length = 4 ∧ c.length = 4 ∧ d.length = 4 ∧ e.length = 12) ∧
    (∀ x ∈ ref, x ∈ lowerHexDigits) ∧ c.head? = some version ∧ ∃ x ∈ str "89ab", d.head? = some x

/-- What a UUID text says of random bytes. -/
structure Describes (version : UInt8) (stamp : Stamp) (bytes : Array16) (u : Bytes) : Prop where
  /-- It has 36 characters. -/
  length : u.length = 36
  /-- It has the form of a UUID, and `format_uuid_to_ref` takes its dashes out. -/
  form : HasForm version u (formatUuidToRef u)
  /-- It is decoded to the bytes, with the stamp on them. -/
  decode : ∃ bytes', hexDecode (formatUuidToRef u) = some (List.ofFn bytes') ∧
    Stamped stamp bytes bytes'
  /-- `format_ref_to_uuid` puts the dashes in again. -/
  back : formatRefToUuid (formatUuidToRef u) = some u

/-! ### The loop -/

/-- The dash in front of a byte, if there is one. -/
def dash (i : Fin 16) : Bytes := if i = 4 ∨ i = 6 ∨ i = 8 ∨ i = 10 then [0x2d] else []

/-- One byte: the flags stay as they are, and no width is left. -/
theorem putByte_eq (oss : OStream) (i : Fin 16) (b : UInt8) (hhex : oss.hex = true)
    (hfill : oss.fill = 0x30) (hupper : oss.uppercase = false) (hwidth : oss.width = 0) :
    ((if i = 4 ∨ i = 6 ∨ i = 8 ∨ i = 10 then oss.putText [0x2d] else oss).setw 2).putInt b.toNat =
      { oss with text := oss.text ++ (dash i ++ OStream.hexDigits false b) } := by
  obtain ⟨t, hex, uppercase, fill, width⟩ := oss
  obtain ⟨rfl, rfl, rfl, rfl⟩ : hex = true ∧ fill = 0x30 ∧ uppercase = false ∧ width = 0 :=
    ⟨hhex, hfill, hupper, hwidth⟩
  by_cases hdash : i = 4 ∨ i = 6 ∨ i = 8 ∨ i = 10
  · rw [if_pos hdash, dash, if_pos hdash, OStream.putInt_byte _ _ rfl rfl rfl]
    simp [OStream.setw, OStream.putText]
  · rw [if_neg hdash, dash, if_neg hdash, OStream.putInt_byte _ _ rfl rfl rfl]
    simp [OStream.setw]

theorem text_eq_flatMap (bytes : Array16) :
    text bytes = (List.finRange 16).flatMap fun i =>
      dash i ++ OStream.hexDigits false (bytes i) := by
  have hloop : ∀ (l : List (Fin 16)) (t : Bytes),
      (l.foldl (fun oss i =>
        let oss := if i = 4 ∨ i = 6 ∨ i = 8 ∨ i = 10 then oss.putText [0x2d] else oss
        (oss.setw 2).putInt (bytes i).toNat) (⟨t, true, false, 0x30, 0⟩ : OStream)).text =
        t ++ l.flatMap fun i => dash i ++ OStream.hexDigits false (bytes i) := by
    intro l
    induction l with
    | nil => exact fun t => (List.append_nil t).symm
    | cons i l ih =>
      intro t
      rw [List.foldl_cons, List.flatMap_cons, ← List.append_assoc, ← ih]
      exact congrArg OStream.text (congrArg (List.foldl _ · l) (putByte_eq _ i _ rfl rfl rfl rfl))
  exact hloop (List.finRange 16) []

/-- The bytes of an array from one position up to another. -/
def slice (bytes : Array16) (l : List (Fin 16)) : Bytes := hexText false (l.map bytes)

/-- **The text** of 16 bytes: five parts with dashes between them. -/
theorem text_eq_join (bytes : Array16) :
    text bytes = join (slice bytes [0, 1, 2, 3]) (slice bytes [4, 5]) (slice bytes [6, 7])
      (slice bytes [8, 9]) (slice bytes [10, 11, 12, 13, 14, 15]) := by
  have hrange : List.finRange 16 = [0, 1, 2, 3, 4, 5, 6, 7, 8, 9, 10, 11, 12, 13, 14, 15] := by
    decide
  rw [text_eq_flatMap, hrange]
  rfl

/-! ### Taking dashes out and putting them in -/

theorem formatUuidToRef_eq_self {p : Bytes} (h : 0x2d ∉ p) : formatUuidToRef p = p := by
  refine List.filter_eq_self.2 fun c hc => ?_
  rw [decide_eq_true_eq]
  rintro rfl
  exact h hc

theorem formatUuidToRef_append_cons {p : Bytes} (h : 0x2d ∉ p) (u : Bytes) :
    formatUuidToRef (p ++ 0x2d :: u) = p ++ formatUuidToRef u := by
  have hp := formatUuidToRef_eq_self h
  rw [formatUuidToRef] at hp ⊢
  rw [List.filter_append, hp, List.filter_cons_of_neg (by decide), formatUuidToRef]

variable {a b c d e : Bytes}

theorem formatUuidToRef_join (h : 0x2d ∉ a ++ b ++ c ++ d ++ e) :
    formatUuidToRef (join a b c d e) = a ++ b ++ c ++ d ++ e := by
  simp only [List.mem_append, not_or] at h
  obtain ⟨⟨⟨⟨ha, hb⟩, hc⟩, hd⟩, he⟩ := h
  rw [join, formatUuidToRef_append_cons ha, formatUuidToRef_append_cons hb,
    formatUuidToRef_append_cons hc, formatUuidToRef_append_cons hd, formatUuidToRef_eq_self he]
  simp only [List.append_assoc]

theorem formatRefToUuid_append (ha : a.length = 8) (hb : b.length = 4) (hc : c.length = 4)
    (hd : d.length = 4) (he : e.length = 12) :
    formatRefToUuid (a ++ b ++ c ++ d ++ e) = some (join a b c d e) := by
  have hpart : ∀ front part back : Bytes, substr (front ++ part ++ back) front.length part.length =
      some part := by
    intro front part back
    rw [substr, if_pos (by simp), List.append_assoc, List.drop_left, List.take_left]
  have h₁ := hpart [] a (b ++ c ++ d ++ e)
  have h₂ := hpart a b (c ++ d ++ e)
  have h₃ := hpart (a ++ b) c (d ++ e)
  have h₄ := hpart (a ++ b ++ c) d e
  have h₅ := hpart (a ++ b ++ c ++ d) e []
  simp only [List.length_append, List.length_nil, ha, hb, hc, hd, he, List.nil_append,
    List.append_nil, ← List.append_assoc, Nat.reduceAdd] at h₁ h₂ h₃ h₄ h₅
  rw [formatRefToUuid, h₁, h₂, h₃, h₄, h₅]
  simp only [Option.bind_some, Option.map_some, join, List.append_assoc, List.cons_append,
    List.nil_append]

theorem exists_part {n : ℕ} {r : Bytes} (h : n ≤ r.length) :
    ∃ p r', p.length = n ∧ r'.length = r.length - n ∧ r = p ++ r' :=
  ⟨r.take n, r.drop n, List.length_take_of_le h, List.length_drop,
    (List.take_append_drop n r).symm⟩

/-- A text of 32 characters without dashes gets them and loses them again. -/
theorem exists_formatRefToUuid {r : Bytes} (hlen : r.length = 32) (hdash : 0x2d ∉ r) :
    ∃ u, formatRefToUuid r = some u ∧ formatUuidToRef u = r := by
  obtain ⟨a, r₁, ha, h₁, rfl⟩ := exists_part (n := 8) (r := r) (by omega)
  obtain ⟨b, r₂, hb, h₂, rfl⟩ := exists_part (n := 4) (r := r₁) (by omega)
  obtain ⟨c, r₃, hc, h₃, rfl⟩ := exists_part (n := 4) (r := r₂) (by omega)
  obtain ⟨d, e, hd, he, rfl⟩ := exists_part (n := 4) (r := r₃) (by omega)
  rw [← List.append_assoc, ← List.append_assoc, ← List.append_assoc] at hdash ⊢
  exact ⟨join a b c d e, formatRefToUuid_append ha hb hc hd (by omega), formatUuidToRef_join hdash⟩

/-! ### The bits -/

variable {bytes bytes' : Array16}

theorem testBit_octet (timestamp : ℤ) {k j : ℕ} (hk : k + 8 ≤ 48) (hj : j < 8) :
    (octet timestamp k).toNat.testBit j = (timestamp % 2 ^ 48).toNat.testBit (k + j) := by
  obtain ⟨i, hi⟩ := Nat.exists_eq_add_of_le hk
  obtain ⟨n, hn⟩ := Int.eq_ofNat_of_zero_le (Int.emod_nonneg timestamp (b := 2 ^ 48) (by decide))
  have hpow : (2 : ℤ) ^ 48 = 2 ^ k * (256 * 2 ^ i) := by
    rw [hi, Int.pow_add, Int.pow_add, Int.mul_assoc]
    rfl
  have hdiv : timestamp / 2 ^ k = n / 2 ^ k + 256 * (2 ^ i * (timestamp / 2 ^ 48)) := by
    conv_lhs => rw [← Int.emod_add_mul_ediv timestamp (2 ^ 48), hn, hpow, Int.mul_assoc]
    rw [Int.add_mul_ediv_left _ _ (Int.ne_of_gt (Int.pow_pos (by decide))), Int.mul_assoc, ← hpow]
  have hoctet : (octet timestamp k).toNat = n / 2 ^ k % 2 ^ 8 := by
    rw [octet, Int.shiftRight_eq_div_pow, UInt8.ofInt, UInt8.toNat_ofNat']
    push_cast
    rw [hdiv, Int.add_mul_emod_self_left]
    norm_cast
    omega
  rw [hn, Int.toNat_natCast]
  rw [hoctet, Nat.testBit_mod_two_pow, Nat.testBit_div_two_pow, decide_eq_true hj, Bool.true_and,
    Nat.add_comm]

/-- A byte with the version. -/
def HasVersion (c : UInt8) (version : ℕ) : Prop :=
  ∀ x : UInt8, ∀ j < 8, ((x &&& 0x0F) ||| c).toNat.testBit j =
    if 4 ≤ j then version.testBit (j - 4) else x.toNat.testBit j

theorem hasVersion_v1 : HasVersion 0x10 1 := by
  rw [HasVersion]
  exact forall_byte (by decide +kernel)

theorem hasVersion_v4 : HasVersion 0x40 4 := by
  rw [HasVersion]
  exact forall_byte (by decide +kernel)

theorem testBit_variant (x : UInt8) {j : ℕ} (hj : j < 8) :
    ((x &&& 0x3F) ||| 0x80).toNat.testBit j =
      if 6 ≤ j then decide (j = 7) else x.toNat.testBit j := by
  have hall : ∀ x : UInt8, ∀ j < 8, ((x &&& 0x3F) ||| 0x80).toNat.testBit j =
      if 6 ≤ j then decide (j = 7) else x.toNat.testBit j := forall_byte (by decide +kernel)
  exact hall x j hj

/-- The bytes with the version and the variant. -/
def withVersion (c : UInt8) (bytes : Array16) : Array16 :=
  let bytes := Function.update bytes 6 ((bytes 6 &&& 0x0F) ||| c)
  Function.update bytes 8 ((bytes 8 &&& 0x3F) ||| 0x80)

theorem stamped_withVersion {c : UInt8} {version : ℕ} (hc : HasVersion c version)
    (bytes : Array16) : Stamped (versionStamp version) bytes (withVersion c bytes) := by
  intro i j hj
  by_cases h6 : i = 6
  · subst h6
    have hbyte : withVersion c bytes 6 = (bytes 6 &&& 0x0F) ||| c := rfl
    rw [hbyte, hc _ j hj, versionStamp]
    by_cases h4 : 4 ≤ j
    · simp [h4]
    · simp [h4]
  by_cases h8 : i = 8
  · subst h8
    have hbyte : withVersion c bytes 8 = (bytes 8 &&& 0x3F) ||| 0x80 := rfl
    rw [hbyte, testBit_variant _ hj, versionStamp]
    by_cases h7 : 6 ≤ j
    · simp [h7]
    · simp [h7]
  · have hbyte : withVersion c bytes i = bytes i := by
      rw [withVersion, Function.update_of_ne h8, Function.update_of_ne h6]
    simp [hbyte, versionStamp, h6, h8]

theorem stamped_v4 (bytes : Array16) : Stamped v4Stamp bytes (v4Bytes bytes) :=
  stamped_withVersion hasVersion_v4 bytes

/-- The bytes with the timestamp. -/
def withTimestamp (timestamp : ℤ) (bytes : Array16) : Array16 := fun i =>
  if i.1 < 6 then octet timestamp (8 * (5 - i.1)) else bytes i

theorem v1Bytes_eq (timestamp : ℤ) (bytes : Array16) :
    v1Bytes timestamp bytes = withVersion 0x10 (withTimestamp timestamp bytes) := by
  funext i
  fin_cases i <;> rfl

theorem stamped_v1 (timestamp : ℤ) (bytes : Array16) :
    Stamped (v1Stamp timestamp) bytes (v1Bytes timestamp bytes) := by
  intro i j hj
  rw [v1Bytes_eq, stamped_withVersion hasVersion_v1 _ i j hj, v1Stamp, withTimestamp]
  split_ifs with hi
  · have hnone : versionStamp 1 i j = none := by
      have h6 : i ≠ 6 := by rintro rfl; exact absurd hi (by decide)
      have h8 : i ≠ 8 := by rintro rfl; exact absurd hi (by decide)
      simp [versionStamp, h6, h8]
    rw [hnone, Option.getD_none, Option.getD_some, testBit_octet timestamp (by omega) hj]
  · rfl

/-! ### The parts -/

theorem mem_lowerHexDigits {s : Bytes} {x : UInt8} (hx : x ∈ hexText false s) :
    x ∈ lowerHexDigits := by
  have hdigit : ∀ n : Fin 16, OStream.hexDigit false n.1 ∈ lowerHexDigits := by decide
  obtain ⟨b, -, hb⟩ := List.mem_flatMap.1 hx
  have hlt := b.toNat_lt
  rw [OStream.hexDigits, List.mem_cons, List.mem_singleton] at hb
  rcases hb with rfl | rfl
  · exact hdigit ⟨b.toNat / 16, by omega⟩
  · exact hdigit ⟨b.toNat % 16, by omega⟩

theorem append_slices (bytes : Array16) :
    slice bytes [0, 1, 2, 3] ++ slice bytes [4, 5] ++ slice bytes [6, 7] ++ slice bytes [8, 9] ++
      slice bytes [10, 11, 12, 13, 14, 15] = hexText false (List.ofFn bytes) := by
  simp only [slice, ← hexText_append]
  rfl

theorem dash_notMem_hexText (s : Bytes) : 0x2d ∉ hexText false s := fun h =>
  absurd (mem_lowerHexDigits h) (by decide)

/-- Without its dashes, the text is the text of all bytes. -/
theorem formatUuidToRef_text (bytes : Array16) :
    formatUuidToRef (text bytes) = hexText false (List.ofFn bytes) := by
  rw [text_eq_join, formatUuidToRef_join, append_slices]
  rw [append_slices]
  exact dash_notMem_hexText _

theorem text_injective : Function.Injective text := by
  intro bytes bytes' h
  have hhex : hexText false (List.ofFn bytes) = hexText false (List.ofFn bytes') := by
    rw [← formatUuidToRef_text, h, formatUuidToRef_text]
  have hdecode := congrArg hexDecode hhex
  rw [hexDecode_hexText, hexDecode_hexText] at hdecode
  exact List.ofFn_injective (Option.some_inj.1 hdecode)

theorem HasVersion.div_eq {c : UInt8} {version : ℕ} (hc : HasVersion c version)
    (hversion : version < 16) (x : UInt8) : ((x &&& 0x0F) ||| c).toNat / 16 = version := by
  refine Nat.eq_of_testBit_eq fun j => ?_
  rw [show 16 = 2 ^ 4 from rfl, Nat.testBit_div_two_pow]
  by_cases hj : j + 4 < 8
  · rw [hc x _ hj, if_pos (Nat.le_add_left 4 j), Nat.add_sub_cancel]
  · have hbyte := Nat.testBit_lt_two_pow (i := j + 4)
      (Nat.lt_of_lt_of_le (UInt8.toNat_lt ((x &&& 0x0F) ||| c))
        (Nat.pow_le_pow_right (by decide) (by omega)))
    have hhalf := Nat.testBit_lt_two_pow (i := j)
      (Nat.lt_of_lt_of_le hversion (Nat.pow_le_pow_right (n := 2) (i := 4) (by decide) (by omega)))
    rw [hbyte, hhalf]

theorem hexDigit_variant (x : UInt8) :
    OStream.hexDigit false (((x &&& 0x3F) ||| 0x80).toNat / 16) ∈ str "89ab" := by
  revert x
  exact forall_byte (by decide +kernel)

/-- The text of bytes with a version says what it should. -/
theorem describes_text {c : UInt8} {version : ℕ} (hc : HasVersion c version)
    (hversion : version < 16) {stamp : Stamp}
    (hstamp : Stamped stamp bytes (withVersion c bytes')) :
    Describes (OStream.hexDigit false version) stamp bytes (text (withVersion c bytes')) := by
  have hlen : ∀ l, (slice (withVersion c bytes') l).length = 2 * l.length := fun l => by
    rw [slice, length_hexText, List.length_map]
  have h6 : (withVersion c bytes' 6).toNat / 16 = version := hc.div_eq hversion (bytes' 6)
  refine ⟨?_, ⟨_, _, _, _, _, text_eq_join _, ?_, ⟨hlen _, hlen _, hlen _, hlen _, hlen _⟩, ?_, ?_,
    ?_⟩, ⟨withVersion c bytes', ?_, hstamp⟩, ?_⟩
  · rw [text_eq_join, join]
    simp only [List.length_append, List.length_cons, hlen, List.length_nil]
  · rw [formatUuidToRef_text, append_slices]
  · intro x hx
    rw [formatUuidToRef_text] at hx
    exact mem_lowerHexDigits hx
  · exact congrArg (fun n => some (OStream.hexDigit false n)) h6
  · exact ⟨_, hexDigit_variant (bytes' 8), rfl⟩
  · rw [formatUuidToRef_text, hexDecode_hexText]
  · rw [formatUuidToRef_text, ← append_slices, text_eq_join,
      formatRefToUuid_append (hlen _) (hlen _) (hlen _) (hlen _) (hlen _)]

/-! ### Equal texts -/

/-- Bytes with one stamp that came out equal agree outside of it. -/
theorem agreeOutside_of_stamped {stamp : Stamp} {stamped : Array16}
    (h : Stamped stamp bytes stamped) (h' : Stamped stamp bytes' stamped) :
    AgreeOutside stamp bytes bytes' := by
  intro i j hj hnone
  have hbit := h i j hj
  have hbit' := h' i j hj
  rw [hnone, Option.getD_none] at hbit hbit'
  rw [← hbit, hbit']

/-- The timestamp is read back from the first six bytes. -/
theorem timestamp_eq_of_stamped {timestamp timestamp' : ℤ} {stamped : Array16}
    (h : Stamped (v1Stamp timestamp) bytes stamped)
    (h' : Stamped (v1Stamp timestamp') bytes' stamped) :
    timestamp % 2 ^ 48 = timestamp' % 2 ^ 48 := by
  obtain ⟨n, hn⟩ := Int.eq_ofNat_of_zero_le (Int.emod_nonneg timestamp (b := 2 ^ 48) (by decide))
  obtain ⟨n', hn'⟩ := Int.eq_ofNat_of_zero_le (Int.emod_nonneg timestamp' (b := 2 ^ 48) (by decide))
  rw [hn, hn']
  congr 1
  refine Nat.eq_of_testBit_eq fun j => ?_
  by_cases hj : j < 48
  · have hbit := h ⟨5 - j / 8, by omega⟩ (j % 8) (by omega)
    have hbit' := h' ⟨5 - j / 8, by omega⟩ (j % 8) (by omega)
    have hpos : 8 * (5 - (5 - j / 8)) + j % 8 = j := by omega
    simp only [v1Stamp, if_pos (show 5 - j / 8 < 6 by omega), Option.getD_some, hn, hn', hpos,
      Int.toNat_natCast] at hbit hbit'
    rw [← hbit, hbit']
  · have hfalse : ∀ m : ℕ, m < 2 ^ 48 → m.testBit j = false := fun m hm =>
      Nat.testBit_lt_two_pow (Nat.lt_of_lt_of_le hm (Nat.pow_le_pow_right (by decide) (by omega)))
    have hlt := Int.emod_lt_of_pos timestamp (b := 2 ^ 48) (by decide)
    have hlt' := Int.emod_lt_of_pos timestamp' (b := 2 ^ 48) (by decide)
    rw [hfalse n (by omega), hfalse n' (by omega)]

/-- **UUID texts.** The texts of both versions say what they should, two of them are equal only if
the random bytes agree outside of the stamp (and the timestamps modulo `2 ^ 48`), and dashes that
are put into 32 other characters are taken out again. -/
theorem uuid_texts :
    (∀ bytes, Describes 0x34 v4Stamp bytes (v4 bytes)) ∧
      (∀ timestamp bytes, Describes 0x31 (v1Stamp timestamp) bytes (v1 timestamp bytes)) ∧
      (∀ bytes bytes', v4 bytes = v4 bytes' → AgreeOutside v4Stamp bytes bytes') ∧
      (∀ timestamp timestamp' bytes bytes', v1 timestamp bytes = v1 timestamp' bytes' →
        timestamp % 2 ^ 48 = timestamp' % 2 ^ 48 ∧
          AgreeOutside (v1Stamp timestamp) bytes bytes') ∧
      ∀ r : Bytes, r.length = 32 → 0x2d ∉ r →
        ∃ u, formatRefToUuid r = some u ∧ formatUuidToRef u = r := by
  refine ⟨?_, ?_, ?_, ?_, fun r => exists_formatRefToUuid⟩
  · exact fun bytes => describes_text hasVersion_v4 (by decide) (stamped_v4 bytes)
  · intro timestamp bytes
    have hstamp := stamped_v1 timestamp bytes
    rw [v1Bytes_eq] at hstamp
    rw [v1, v1Bytes_eq]
    exact describes_text hasVersion_v1 (by decide) hstamp
  · intro bytes bytes' h
    have hstamp := stamped_v4 bytes
    rw [text_injective h] at hstamp
    exact agreeOutside_of_stamped hstamp (stamped_v4 bytes')
  · intro timestamp timestamp' bytes bytes' h
    have hstamp := stamped_v1 timestamp bytes
    rw [text_injective h] at hstamp
    have htime := timestamp_eq_of_stamped hstamp (stamped_v1 timestamp' bytes')
    have hsame : v1Stamp timestamp = v1Stamp timestamp' := by
      funext i j
      rw [v1Stamp, v1Stamp, htime]
    refine ⟨htime, ?_⟩
    rw [hsame] at hstamp ⊢
    exact agreeOutside_of_stamped hstamp (stamped_v1 timestamp' bytes')

end Behh.Uuid
