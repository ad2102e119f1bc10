import Behh.Library.BitStream
import Behh.Utility.Base64

/-!
# Base64 texts of RFC 4648

The padded encoding over `BASE64_CHARS`, stated on bit streams and independently of both encoders
of the repository, and what `base64decode` of `src/utility.cc`, lines 149–180, makes of it.

The bits of the octets, with zero bits behind them up to a multiple of six, are read six at a
time; every octet that the last group of three lacks is a `=`. On three octets and more this is
the group `quadChars` of the hand-written encoder (`rfcEncode_cons_cons_cons`), so the decoder's
lemmas about groups apply and it gives back every byte string (`base64decode_rfcEncode`).

The decoder makes no check of its input except that of the length. A text of the right length is
decoded whatever its characters are, an unknown one as if it were the first character of the
alphabet (`base64decode_map_knownChar`), and every group contributes an octet, so that a nonempty
text of the right length never decodes to the empty string (`base64decode_eq_nil_iff`).

## Main definitions

* `rfcEncode`: the padded encoding.
* `IsBase64`: the grammar of padded texts.

## Main results

* `base64decode_rfcEncode`: the decoder reads the padded encoding.
* `base64decode_malformed`: the decoder on texts outside the grammar.
-/

namespace Behh

open BitStream

/-! ### The padded encoding -/

/-- The bits of a byte string, the most significant bit of every octet first. -/
def octetBits (s : Bytes) : List Bool := s.flatMap fun b => toBits 8 b.toNat

/-- The values of six bits each that stand for a byte string: its bits are completed with zeros
to a multiple of six. -/
def sextets (s : Bytes) : List ℕ :=
  groups 6 (octetBits s ++ List.replicate (2 * ((3 - s.length % 3) % 3)) false)

/-- The padded encoding of a byte string: a `=` for every octet that its last group of three
lacks. -/
def rfcEncode (s : Bytes) : Bytes :=
  (sextets s).map base64Char ++ List.replicate ((3 - s.length % 3) % 3) base64Pad

theorem octetBits_cons (b : UInt8) (s : Bytes) :
    octetBits (b :: s) = toBits 8 b.toNat ++ octetBits s := rfl

/-- The 24 bits of three octets are four groups of six bits of their number. -/
theorem octetBits_triple (a b c : UInt8) :
    toBits 8 a.toNat ++ toBits 8 b.toNat ++ toBits 8 c.toNat =
      toBits 6 (triple a b c / 2 ^ 18) ++ toBits 6 (triple a b c / 2 ^ 12) ++
        toBits 6 (triple a b c / 2 ^ 6) ++ toBits 6 (triple a b c) := by
  have hb := b.toNat_lt
  have hc := c.toNat_lt
  have htriple : triple a b c = (a.toNat * 2 ^ 8 + b.toNat) * 2 ^ 8 + c.toNat := by
    rw [triple_eq]
    omega
  calc toBits 8 a.toNat ++ toBits 8 b.toNat ++ toBits 8 c.toNat
      = toBits (8 + 8) (a.toNat * 2 ^ 8 + b.toNat) ++ toBits 8 c.toNat := by
        rw [toBits_push 8 8 _ hb]
    _ = toBits (8 + 8 + 8) (triple a b c) := by rw [htriple, toBits_push _ 8 _ hc]
    _ = toBits (6 + 6 + 6 + 6) (triple a b c) := rfl
    _ = toBits 6 (triple a b c / 2 ^ 18) ++ toBits 6 (triple a b c / 2 ^ 12) ++
        toBits 6 (triple a b c / 2 ^ 6) ++ toBits 6 (triple a b c) := by
        rw [toBits_add, toBits_add, toBits_add]
        simp only [Nat.div_div_eq_div_mul, ← pow_add, Nat.reduceAdd]

/-- The first four groups of a stream that starts with three octets. -/
theorem groups_triple (a b c : UInt8) (l : List Bool) :
    groups 6 (toBits 8 a.toNat ++ toBits 8 b.toNat ++ toBits 8 c.toNat ++ l) =
      [triple a b c / 2 ^ 18 % 64, triple a b c / 2 ^ 12 % 64, triple a b c / 2 ^ 6 % 64,
        triple a b c % 64] ++ groups 6 l := by
  have hlen (x : ℕ) : (toBits 6 x).length = 6 := length_toBits 6 x
  have h6 : (0 : ℕ) < 6 := by decide
  rw [octetBits_triple]
  simp only [List.append_assoc, groups_cons h6 (hlen _), ofBits_toBits, Nat.reducePow]
  rfl

theorem rfcEncode_nil : rfcEncode [] = [] := by
  simp [rfcEncode, sextets, octetBits]

/-- A full group of three octets. -/
theorem rfcEncode_cons_cons_cons (a b c : UInt8) (s : Bytes) :
    rfcEncode (a :: b :: c :: s) = quadChars a b c ++ rfcEncode s := by
  have hmod : (a :: b :: c :: s).length % 3 = s.length % 3 := by
    simp only [List.length_cons]
    omega
  have hbits : octetBits (a :: b :: c :: s) =
      toBits 8 a.toNat ++ toBits 8 b.toNat ++ toBits 8 c.toNat ++ octetBits s := by
    simp only [octetBits_cons, List.append_assoc]
  rw [rfcEncode, rfcEncode, sextets, sextets, hmod, hbits, List.append_assoc, groups_triple]
  simp only [quadChars, and_mask_six, Nat.shiftRight_eq_div_pow, List.map_append, List.map_cons,
    List.map_nil, List.append_assoc]

theorem rfcEncode_singleton (a : UInt8) :
    rfcEncode [a] = (quadChars a 0 0).take 2 ++ [base64Pad, base64Pad] := by
  have htriple : triple a 0 0 = a.toNat * 2 ^ 4 * 2 ^ 12 := by
    rw [triple_eq]
    simp only [UInt8.toNat_zero]
    omega
  have hbits : octetBits [a] ++ List.replicate 4 false =
      toBits 6 (triple a 0 0 / 2 ^ 18) ++ toBits 6 (triple a 0 0 / 2 ^ 12) := by
    calc octetBits [a] ++ List.replicate 4 false
        = toBits 8 a.toNat ++ toBits 4 0 := by
          rw [toBits_zero_right, octetBits_cons, octetBits, List.flatMap_nil, List.append_nil]
      _ = toBits (6 + 6) (a.toNat * 2 ^ 4 + 0) := (toBits_push 8 4 _ (by decide)).symm
      _ = toBits 6 (triple a 0 0 / 2 ^ 18) ++ toBits 6 (triple a 0 0 / 2 ^ 12) := by
          rw [toBits_add, htriple, show a.toNat * 2 ^ 4 * 2 ^ 12 / 2 ^ 18 =
            (a.toNat * 2 ^ 4 + 0) / 2 ^ 6 by omega, Nat.mul_div_cancel _ (by decide),
            Nat.add_zero]
  have hgroups : sextets [a] = [triple a 0 0 / 2 ^ 18 % 64, triple a 0 0 / 2 ^ 12 % 64] := by
    have h6 : (0 : ℕ) < 6 := by decide
    change groups 6 (octetBits [a] ++ List.replicate 4 false) = _
    rw [hbits, groups_cons h6 (length_toBits 6 _), groups_of_length_eq h6 (length_toBits 6 _)]
    simp only [ofBits_toBits, Nat.reducePow]
  rw [rfcEncode, hgroups]
  simp only [quadChars, and_mask_six, Nat.shiftRight_eq_div_pow]
  rfl

theorem rfcEncode_pair (a b : UInt8) :
    rfcEncode [a, b] = (quadChars a b 0).take 3 ++ [base64Pad] := by
  have hb := b.toNat_lt
  have htriple : triple a b 0 = (a.toNat * 2 ^ 8 + b.toNat) * 2 ^ 2 * 2 ^ 6 := by
    rw [triple_eq]
    simp only [UInt8.toNat_zero]
    omega
  have hbits : octetBits [a, b] ++ List.replicate 2 false =
      toBits 6 (triple a b 0 / 2 ^ 18) ++ toBits 6 (triple a b 0 / 2 ^ 12) ++
        toBits 6 (triple a b 0 / 2 ^ 6) := by
    calc octetBits [a, b] ++ List.replicate 2 false
        = toBits 8 a.toNat ++ toBits 8 b.toNat ++ toBits 2 0 := by
          rw [toBits_zero_right, octetBits_cons, octetBits_cons, octetBits, List.flatMap_nil,
            List.append_nil]
      _ = toBits (6 + 6 + 6) ((a.toNat * 2 ^ 8 + b.toNat) * 2 ^ 2 + 0) := by
          rw [← toBits_push 8 8 _ hb, ← toBits_push (8 + 8) 2 _ (by decide)]
      _ = toBits 6 (triple a b 0 / 2 ^ 18) ++ toBits 6 (triple a b 0 / 2 ^ 12) ++
          toBits 6 (triple a b 0 / 2 ^ 6) := by
          rw [toBits_add, toBits_add, htriple, Nat.mul_div_cancel _ (by decide), Nat.add_zero,
            show ∀ x : ℕ, x * 2 ^ 6 / 2 ^ 18 = x / 2 ^ 6 / 2 ^ 6 by omega,
            show ∀ x : ℕ, x * 2 ^ 6 / 2 ^ 12 = x / 2 ^ 6 by omega]
  have hgroups : sextets [a, b] = [triple a b 0 / 2 ^ 18 % 64, triple a b 0 / 2 ^ 12 % 64,
      triple a b 0 / 2 ^ 6 % 64] := by
    have h6 : (0 : ℕ) < 6 := by decide
    change groups 6 (octetBits [a, b] ++ List.replicate 2 false) = _
    rw [hbits, List.append_assoc, groups_cons h6 (length_toBits 6 _),
      groups_cons h6 (length_toBits 6 _), groups_of_length_eq h6 (length_toBits 6 _)]
    simp only [ofBits_toBits, Nat.reducePow]
  rw [rfcEncode, hgroups]
  simp only [quadChars, and_mask_six, Nat.shiftRight_eq_div_pow]
  rfl

/-! ### Decoding the padded encoding -/

/-- A last group with two characters decodes to its first octet. -/
theorem decodeLoop_take_two (a b c : UInt8) :
    decodeLoop ((quadChars a b c).take 2 ++ [base64Pad, base64Pad]) = [a] := by
  have ha := a.toNat_lt
  have hb := b.toNat_lt
  have hc := c.toNat_lt
  have ht : triple a b c / 4096 * 4096 < 2 ^ 24 := by rw [triple_eq]; omega
  have hlt (k : ℕ) : k % 64 < 64 := Nat.mod_lt k (by decide)
  have hsextets := or_sextets _ ht
  rw [show triple a b c / 4096 * 4096 / 2 ^ 18 = triple a b c / 2 ^ 18 by omega,
    show triple a b c / 4096 * 4096 / 2 ^ 12 = triple a b c / 2 ^ 12 by omega,
    show triple a b c / 4096 * 4096 / 2 ^ 6 % 64 = 0 by omega,
    show triple a b c / 4096 * 4096 % 64 = 0 by omega] at hsextets
  simp only [quadChars, List.take_succ_cons, List.take_zero, List.cons_append, List.nil_append,
    decodeLoop, decodeGroup, and_mask_six, Nat.shiftRight_eq_div_pow,
    charToValue_base64Char (hlt _), ne_eq, not_true_eq_false, ite_false, hsextets, and_mask_eight,
    List.append_nil]
  rw [triple_eq, show (a.toNat * 65536 + b.toNat * 256 + c.toNat) / 4096 * 4096 / 2 ^ 16 =
      0 * 256 + a.toNat by omega, ofNat_toNat_add_mul]

theorem decodeLoop_rfcEncode : (s : Bytes) → decodeLoop (rfcEncode s) = s
  | [] => by rw [rfcEncode_nil, decodeLoop]; simp
  | [a] => by rw [rfcEncode_singleton, decodeLoop_take_two]
  | [a, b] => by rw [rfcEncode_pair, ← lastChars, decodeLoop_lastChars]
  | a :: b :: c :: s => by
    rw [rfcEncode_cons_cons_cons, decodeLoop_quadChars, decodeLoop_rfcEncode s]
    rfl

theorem length_quadChars (a b c : UInt8) : (quadChars a b c).length = 4 := rfl

theorem length_rfcEncode_mod : (s : Bytes) → (rfcEncode s).length % 4 = 0
  | [] => by rw [rfcEncode_nil]; rfl
  | [a] => by simp [rfcEncode_singleton, quadChars]
  | [a, b] => by simp [rfcEncode_pair, quadChars]
  | a :: b :: c :: s => by
    have ih := length_rfcEncode_mod s
    rw [rfcEncode_cons_cons_cons, List.length_append, length_quadChars]
    omega

/-- **The decoder reads standard base64.** -/
theorem base64decode_rfcEncode (s : Bytes) : base64decode (rfcEncode s) = s := by
  rw [base64decode, if_neg (by simp [length_rfcEncode_mod]), decodeLoop_rfcEncode]

/-! ### Texts outside the grammar -/

/-- The padded grammar: characters of the alphabet, then at most two `=`, in groups of four. -/
def IsBase64 (t : Bytes) : Prop :=
  t.length % 4 = 0 ∧ ∃ chars : Bytes, ∃ k ≤ 2,
    (∀ c ∈ chars, c ∈ base64Chars) ∧ t = chars ++ List.replicate k base64Pad

theorem IsBase64.mem {t : Bytes} (h : IsBase64 t) {c : UInt8} (hc : c ∈ t) :
    c ∈ base64Chars ∨ c = base64Pad := by
  obtain ⟨-, chars, k, -, hchars, rfl⟩ := h
  rcases List.mem_append.1 hc with hc | hc
  · exact Or.inl (hchars c hc)
  · exact Or.inr (List.eq_of_mem_replicate hc)

theorem decodeLoop_eq_nil_iff : (t : Bytes) → decodeLoop t = [] ↔ t.length < 4
  | [] => by simp [decodeLoop]
  | [c₁] => by simp [decodeLoop]
  | [c₁, c₂] => by simp [decodeLoop]
  | [c₁, c₂, c₃] => by simp [decodeLoop]
  | c₁ :: c₂ :: c₃ :: c₄ :: rest => by simp [decodeLoop, decodeGroup]

/-- **What the decoder rejects.** The result is empty on the empty text and on a text of the
wrong length, and on no other. -/
theorem base64decode_eq_nil_iff (t : Bytes) :
    base64decode t = [] ↔ t = [] ∨ t.length % 4 ≠ 0 := by
  rw [base64decode]
  by_cases hlen : t.length % 4 = 0
  · rw [if_neg (by simp [hlen]), decodeLoop_eq_nil_iff, ← List.length_eq_zero_iff]
    omega
  · rw [if_pos hlen]
    simp [hlen]

/-- What the decoder takes a character for: one outside the table has the value of the first
character of the alphabet. -/
def knownChar (c : UInt8) : UInt8 := if c ∈ base64Chars ∨ c = base64Pad then c else base64Char 0

theorem charToValue_of_not_mem {c : UInt8} (h : c ∉ base64Chars) : charToValue c = 0 := by
  rw [charToValue, List.idxOf?_eq_none_iff.2 h, Option.getD_none]

theorem charToValue_knownChar (c : UInt8) : charToValue (knownChar c) = charToValue c := by
  unfold knownChar
  split_ifs with h
  · rfl
  · rw [not_or] at h
    rw [charToValue_of_not_mem h.1, charToValue_base64Char (by decide)]

theorem knownChar_eq_pad_iff (c : UInt8) : knownChar c = base64Pad ↔ c = base64Pad := by
  unfold knownChar
  split_ifs with h
  · rfl
  · rw [not_or] at h
    simp [h.2, base64Char_ne_pad]

theorem decodeLoop_map_knownChar : (t : Bytes) → decodeLoop (t.map knownChar) = decodeLoop t
  | [] => rfl
  | [c₁] => rfl
  | [c₁, c₂] => rfl
  | [c₁, c₂, c₃] => rfl
  | c₁ :: c₂ :: c₃ :: c₄ :: rest => by
    have ih := decodeLoop_map_knownChar rest
    simp only [List.map_cons, decodeLoop, decodeGroup, charToValue_knownChar, ne_eq,
      knownChar_eq_pad_iff, ih]

/-- The decoder reads an unknown character as the first one of the alphabet. -/
theorem base64decode_map_knownChar (t : Bytes) :
    base64decode (t.map knownChar) = base64decode t := by
  rw [base64decode, base64decode, List.length_map, decodeLoop_map_knownChar]

/-- **The decoder on texts outside the grammar.** It rejects exactly those of the wrong length;
the others it decodes, with unknown characters read as the first one of the alphabet. -/
theorem base64decode_malformed (t : Bytes) (h : ¬ IsBase64 t) :
    (base64decode t = [] ↔ t.length % 4 ≠ 0) ∧
      base64decode t = base64decode (t.map knownChar) := by
  have hne : t ≠ [] := by
    rintro rfl
    exact h ⟨rfl, [], 0, by simp⟩
  refine ⟨?_, (base64decode_map_knownChar t).symm⟩
  rw [base64decode_eq_nil_iff, or_iff_right hne]

theorem not_isBase64_exclamation : ¬ IsBase64 (str "!!!!") := by
  intro h
  have hmem := h.mem (c := 0x21) (by decide)
  revert hmem
  decide +kernel

theorem base64decode_malformed_exclamation :
    (base64decode (str "!!!!") = [] ↔ (str "!!!!").length % 4 ≠ 0) ∧
      base64decode (str "!!!!") = base64decode ((str "!!!!").map knownChar) :=
  base64decode_malformed (str "!!!!") not_isBase64_exclamation

/-- Four exclamation marks decode to three octets, not to the empty string. -/
theorem base64decode_exclamation :
    ¬ IsBase64 (str "!!!!") ∧ base64decode (str "!!!!") ≠ [] :=
  ⟨not_isBase64_exclamation, by decide +kernel⟩

end Behh
