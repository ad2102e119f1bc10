import Behh.Constants

/-!
# Base64

`base64encode` and `base64decode` of `src/utility.cc`, lines 116–180.

The encoder walks the input with a cursor `i` that every octet read advances, and decides the
padding of a group from the cursor afterwards. The cursor never exceeds the length, so its first
test (`i > len`) never succeeds, and its second test (`i > len - 1`) succeeds for the last group
whatever its size: the last group always gets three characters and one `=`
(`base64encode_eq_encodeGroups`). Decoding therefore gives back two octets for the last group,
so that the round trip drops the last octet of a full group and appends a NUL to a group of one
octet (`base64decode_base64encode`).

## Main definitions

* `base64encode`, `base64decode`: the two functions.
* `encodeGroups`: the text of the encoder, group by group.

## Main results

* `base64decode_base64encode`: what decoding makes of the encoder's text.
* `base64decode_base64encode_iff`: the inputs on which the round trip is the identity.
-/

namespace Behh

/-- The padding character `=`. -/
def base64Pad : UInt8 := 0x3D

/-- `BASE64_CHARS[k]`. -/
def base64Char (k : ℕ) : UInt8 := base64Chars.getD k 0

/-! ### The encoder -/

/-- The cursor and the text written so far. -/
structure EncodeState where
  /-- The cursor into the input. -/
  i : ℕ
  /-- The characters pushed to `result`. -/
  result : Bytes

/-- `i < len ? input[i++] : 0`. -/
def nextOctet (input : Bytes) (i : ℕ) : UInt8 × ℕ :=
  if i < input.length then (input.getD i 0, i + 1) else (0, i)

/-- `(octet_a << 16) | (octet_b << 8) | octet_c`. -/
def triple (octetA octetB octetC : UInt8) : ℕ :=
  octetA.toNat <<< 16 ||| octetB.toNat <<< 8 ||| octetC.toNat

/-- One iteration of the encoder's loop. -/
def encodeGroup (input : Bytes) (st : EncodeState) : EncodeState :=
  let len := input.length
  let (octetA, i) := nextOctet input st.i
  let (octetB, i) := nextOctet input i
  let (octetC, i) := nextOctet input i
  let t := triple octetA octetB octetC
  let result := st.result ++ [base64Char (t >>> 18 &&& 0x3F), base64Char (t >>> 12 &&& 0x3F)]
  if i > len then ⟨i, result ++ [base64Pad, base64Pad]⟩
  else if i > len - 1 then ⟨i, result ++ [base64Char (t >>> 6 &&& 0x3F), base64Pad]⟩
  else ⟨i, result ++ [base64Char (t >>> 6 &&& 0x3F), base64Char (t &&& 0x3F)]⟩

/-- `base64encode`. Every iteration advances the cursor, so the loop has at most as many
iterations as the input has bytes. -/
def base64encode (input : Bytes) : Bytes :=
  (iterWhile (fun st => st.i < input.length) (encodeGroup input) input.length ⟨0, []⟩).result

/-! ### The decoder -/

/-- `char_to_value[c]`; a character outside the table gets the default value 0. -/
def charToValue (c : UInt8) : ℕ := (base64Chars.idxOf? c).getD 0

/-- One iteration of the decoder's loop, on the characters `input[i]`, …, `input[i + 3]`. -/
def decodeGroup (c₁ c₂ c₃ c₄ : UInt8) : Bytes :=
  let v₁ := charToValue c₁
  let v₂ := charToValue c₂
  let v₃ := if c₃ ≠ base64Pad then charToValue c₃ else 0
  let v₄ := if c₄ ≠ base64Pad then charToValue c₄ else 0
  let quad := v₁ <<< 18 ||| v₂ <<< 12 ||| v₃ <<< 6 ||| v₄
  [UInt8.ofNat (quad >>> 16 &&& 0xFF)] ++
    (if c₃ ≠ base64Pad then [UInt8.ofNat (quad >>> 8 &&& 0xFF)] else []) ++
    (if c₄ ≠ base64Pad then [UInt8.ofNat (quad &&& 0xFF)] else [])

/-- The decoder's loop, `i` advancing by 4. -/
def decodeLoop : Bytes → Bytes
  | c₁ :: c₂ :: c₃ :: c₄ :: rest => decodeGroup c₁ c₂ c₃ c₄ ++ decodeLoop rest
  | _ => []

/-- `base64decode`. -/
def base64decode (input : Bytes) : Bytes :=
  if input.length % 4 ≠ 0 then [] else decodeLoop input

/-! ### Groups of octets and groups of characters -/

theorem triple_eq (a b c : UInt8) :
    triple a b c = a.toNat * 65536 + b.toNat * 256 + c.toNat := by
  have hb := b.toNat_lt
  have hc : c.toNat < 2 ^ 8 := c.toNat_lt
  have hbc : b.toNat <<< 8 + c.toNat < 2 ^ 16 := by
    simp only [Nat.shiftLeft_eq]
    omega
  calc triple a b c = a.toNat <<< 16 ||| (b.toNat <<< 8 ||| c.toNat) := Nat.or_assoc ..
    _ = a.toNat <<< 16 ||| (b.toNat <<< 8 + c.toNat) := by
        rw [Nat.shiftLeft_add_eq_or_of_lt hc]
    _ = a.toNat <<< 16 + (b.toNat <<< 8 + c.toNat) := (Nat.shiftLeft_add_eq_or_of_lt hbc _).symm
    _ = a.toNat * 65536 + b.toNat * 256 + c.toNat := by
        simp only [Nat.shiftLeft_eq]
        omega

/-- The four characters of a group of three octets. -/
def quadChars (a b c : UInt8) : Bytes :=
  let t := triple a b c
  [base64Char (t >>> 18 &&& 0x3F), base64Char (t >>> 12 &&& 0x3F),
    base64Char (t >>> 6 &&& 0x3F), base64Char (t &&& 0x3F)]

/-- The three characters and the padding that the encoder writes for its last group. -/
def lastChars (a b c : UInt8) : Bytes := (quadChars a b c).take 3 ++ [base64Pad]

/-- The text of the encoder, group by group: the last group, full or not, is padded. -/
def encodeGroups : Bytes → Bytes
  | [] => []
  | [a] => lastChars a 0 0
  | [a, b] => lastChars a b 0
  | [a, b, c] => lastChars a b c
  | a :: b :: c :: d :: rest => quadChars a b c ++ encodeGroups (d :: rest)

theorem nextOctet_of_drop_cons {input : Bytes} {i : ℕ} {a : UInt8} {rest : Bytes}
    (h : input.drop i = a :: rest) : nextOctet input i = (a, i + 1) := by
  have hi : i < input.length := by
    by_contra hle
    rw [List.drop_eq_nil_of_le (by omega)] at h
    cases h
  have ha : input[i] = a := by
    rw [List.drop_eq_getElem_cons hi] at h
    exact (List.cons.inj h).1
  simp [nextOctet, hi, ha]

theorem nextOctet_of_drop_nil {input : Bytes} {i : ℕ} (h : input.drop i = []) :
    nextOctet input i = (0, i) := by
  have hi : ¬ i < input.length := by
    have := List.drop_eq_nil_iff.1 h
    omega
  simp [nextOctet, hi]

theorem drop_succ_of_drop_cons {input : Bytes} {i : ℕ} {a : UInt8} {rest : Bytes}
    (h : input.drop i = a :: rest) : input.drop (i + 1) = rest := by
  rw [← List.drop_drop, h, List.drop_one, List.tail_cons]

theorem length_of_drop {input : Bytes} {i : ℕ} {l : Bytes} (h : input.drop i = l)
    (hl : l ≠ []) : input.length = i + l.length := by
  have hlen := congrArg List.length h
  have hpos := List.length_pos_iff.2 hl
  rw [List.length_drop] at hlen
  omega

/-- One iteration on a cursor with octets left: the text grows by the first group of
`encodeGroups` on the octets left. -/
theorem encodeGroup_spec {input : Bytes} {st : EncodeState} (hi : st.i < input.length) :
    (encodeGroup input st).result ++ encodeGroups (input.drop (encodeGroup input st).i) =
        st.result ++ encodeGroups (input.drop st.i) ∧
      st.i < (encodeGroup input st).i ∧ (encodeGroup input st).i ≤ input.length := by
  have hne : input.drop st.i ≠ [] := by
    intro h
    have := List.drop_eq_nil_iff.1 h
    omega
  -- The cases are those of `encodeGroups`: how many octets the cursor has left.
  rcases hdrop : input.drop st.i with _ | ⟨a, _ | ⟨b, _ | ⟨c, rest⟩⟩⟩
  · exact absurd hdrop hne
  · have hlen := length_of_drop hdrop (by simp)
    have h₁ := drop_succ_of_drop_cons hdrop
    simp only [List.length_cons, List.length_nil] at hlen
    simp only [encodeGroup, nextOctet_of_drop_cons hdrop, nextOctet_of_drop_nil h₁]
    rw [if_neg (by omega), if_pos (by omega)]
    refine ⟨?_, ?_, ?_⟩
    · simp [h₁, encodeGroups, lastChars, quadChars]
    · simp only; omega
    · simp only; omega
  · have hlen := length_of_drop hdrop (by simp)
    have h₁ := drop_succ_of_drop_cons hdrop
    have h₂ := drop_succ_of_drop_cons h₁
    simp only [List.length_cons, List.length_nil] at hlen
    simp only [encodeGroup, nextOctet_of_drop_cons hdrop, nextOctet_of_drop_cons h₁,
      nextOctet_of_drop_nil h₂]
    rw [if_neg (by omega), if_pos (by omega)]
    refine ⟨?_, ?_, ?_⟩
    · simp [h₂, encodeGroups, lastChars, quadChars]
    · simp only; omega
    · simp only; omega
  · have hlen := length_of_drop hdrop (by simp)
    have h₁ := drop_succ_of_drop_cons hdrop
    have h₂ := drop_succ_of_drop_cons h₁
    have h₃ := drop_succ_of_drop_cons h₂
    simp only [List.length_cons] at hlen
    simp only [encodeGroup, nextOctet_of_drop_cons hdrop, nextOctet_of_drop_cons h₁,
      nextOctet_of_drop_cons h₂]
    rw [if_neg (by omega)]
    rcases rest with _ | ⟨d, rest⟩
    · simp only [List.length_nil] at hlen
      rw [if_pos (by omega)]
      refine ⟨?_, ?_, ?_⟩
      · simp [h₃, encodeGroups, lastChars, quadChars]
      · simp only; omega
      · simp only; omega
    · simp only [List.length_cons] at hlen
      rw [if_neg (by omega)]
      refine ⟨?_, ?_, ?_⟩
      · simp [h₃, encodeGroups, quadChars]
      · simp only; omega
      · simp only; omega

/-- **The text of the encoder.** -/
theorem base64encode_eq_encodeGroups (input : Bytes) :
    base64encode input = encodeGroups input := by
  let I (st : EncodeState) : Prop := st.i ≤ input.length ∧
    st.result ++ encodeGroups (input.drop st.i) = encodeGroups input
  have hstep (st : EncodeState) (hst : I st) (hcond : decide (st.i < input.length) = true) :
      I (encodeGroup input st) ∧
        input.length - (encodeGroup input st).i < input.length - st.i := by
    obtain ⟨htext, hlt, hle⟩ := encodeGroup_spec (of_decide_eq_true hcond)
    exact ⟨⟨hle, htext.trans hst.2⟩, by omega⟩
  obtain ⟨⟨hle, htext⟩, hend⟩ := iterWhile_spec I (fun st => input.length - st.i) hstep
    (Nat.sub_le ..) (show I ⟨0, []⟩ from ⟨Nat.zero_le _, by simp⟩)
  have hdone := of_decide_eq_false hend
  rw [List.drop_eq_nil_of_le (by omega), encodeGroups, List.append_nil] at htext
  exact htext

/-! ### Decoding the encoder's groups -/

theorem charToValue_base64Char {k : ℕ} (h : k < 64) : charToValue (base64Char k) = k := by
  have hall : ∀ k : Fin 64, charToValue (base64Char k) = k := by decide +kernel
  exact hall ⟨k, h⟩

theorem base64Char_ne_pad {k : ℕ} (h : k < 64) : base64Char k ≠ base64Pad := by
  have hall : ∀ k : Fin 64, base64Char k ≠ base64Pad := by decide +kernel
  exact hall ⟨k, h⟩

/-- The four 6-bit values of a 24-bit number, put together again. -/
theorem or_sextets (t : ℕ) (ht : t < 2 ^ 24) :
    (t / 2 ^ 18 % 64) <<< 18 ||| (t / 2 ^ 12 % 64) <<< 12 ||| (t / 2 ^ 6 % 64) <<< 6 |||
      t % 64 = t := by
  have h₀ : t % 64 < 2 ^ 6 := Nat.mod_lt t (by decide)
  have h₁ : (t / 2 ^ 6 % 64) <<< 6 + t % 64 < 2 ^ 12 := by
    simp only [Nat.shiftLeft_eq]
    omega
  have h₂ : (t / 2 ^ 12 % 64) <<< 12 + ((t / 2 ^ 6 % 64) <<< 6 + t % 64) < 2 ^ 18 := by
    simp only [Nat.shiftLeft_eq]
    omega
  simp only [Nat.or_assoc]
  rw [← Nat.shiftLeft_add_eq_or_of_lt h₀, ← Nat.shiftLeft_add_eq_or_of_lt h₁,
    ← Nat.shiftLeft_add_eq_or_of_lt h₂]
  simp only [Nat.shiftLeft_eq]
  omega

theorem and_mask_six (t : ℕ) : t &&& 0x3F = t % 64 := Nat.and_two_pow_sub_one_eq_mod t 6

theorem and_mask_eight (t : ℕ) : t &&& 0xFF = t % 256 := Nat.and_two_pow_sub_one_eq_mod t 8

theorem ofNat_toNat_add_mul (c : UInt8) (x : ℕ) : UInt8.ofNat ((x * 256 + c.toNat) % 256) = c := by
  have := c.toNat_lt
  rw [show (x * 256 + c.toNat) % 256 = c.toNat by omega, UInt8.ofNat_toNat]

theorem decodeLoop_quadChars (a b c : UInt8) (rest : Bytes) :
    decodeLoop (quadChars a b c ++ rest) = [a, b, c] ++ decodeLoop rest := by
  have ha := a.toNat_lt
  have hb := b.toNat_lt
  have hc := c.toNat_lt
  have ht : triple a b c < 2 ^ 24 := by rw [triple_eq]; omega
  have hlt (k : ℕ) : k % 64 < 64 := Nat.mod_lt k (by decide)
  simp only [quadChars, List.cons_append, List.nil_append, decodeLoop, decodeGroup, and_mask_six,
    Nat.shiftRight_eq_div_pow, charToValue_base64Char (hlt _), ne_eq, base64Char_ne_pad (hlt _),
    not_false_eq_true, ite_true, or_sextets _ ht, and_mask_eight]
  rw [triple_eq, show (a.toNat * 65536 + b.toNat * 256 + c.toNat) / 2 ^ 16 = 0 * 256 + a.toNat by
      omega, show (a.toNat * 65536 + b.toNat * 256 + c.toNat) / 2 ^ 8 = a.toNat * 256 + b.toNat by
      omega, show a.toNat * 65536 + b.toNat * 256 + c.toNat = (a.toNat * 256 + b.toNat) * 256 +
      c.toNat by omega, ofNat_toNat_add_mul, ofNat_toNat_add_mul, ofNat_toNat_add_mul]

/-- The encoder's last group decodes to its first two octets. -/
theorem decodeLoop_lastChars (a b c : UInt8) : decodeLoop (lastChars a b c) = [a, b] := by
  have ha := a.toNat_lt
  have hb := b.toNat_lt
  have hc := c.toNat_lt
  have ht : triple a b c / 64 * 64 < 2 ^ 24 := by rw [triple_eq]; omega
  have hlt (k : ℕ) : k % 64 < 64 := Nat.mod_lt k (by decide)
  have hsextets := or_sextets _ ht
  rw [show triple a b c / 64 * 64 / 2 ^ 18 = triple a b c / 2 ^ 18 by omega,
    show triple a b c / 64 * 64 / 2 ^ 12 = triple a b c / 2 ^ 12 by omega,
    show triple a b c / 64 * 64 / 2 ^ 6 = triple a b c / 2 ^ 6 by omega,
    show triple a b c / 64 * 64 % 64 = 0 by omega] at hsextets
  simp only [lastChars, quadChars, List.take_succ_cons, List.take_zero, List.cons_append,
    List.nil_append, decodeLoop, decodeGroup, and_mask_six, Nat.shiftRight_eq_div_pow,
    charToValue_base64Char (hlt _), ne_eq, base64Char_ne_pad (hlt _), not_false_eq_true, ite_true,
    not_true_eq_false, ite_false, hsextets, and_mask_eight, List.append_nil]
  rw [triple_eq, show (a.toNat * 65536 + b.toNat * 256 + c.toNat) / 64 * 64 / 2 ^ 16 =
      0 * 256 + a.toNat by omega, show (a.toNat * 65536 + b.toNat * 256 + c.toNat) / 64 * 64 /
      2 ^ 8 = a.toNat * 256 + b.toNat by omega, ofNat_toNat_add_mul, ofNat_toNat_add_mul]

theorem length_encodeGroups_mod : (s : Bytes) → (encodeGroups s).length % 4 = 0
  | [] => rfl
  | [a] => by simp [encodeGroups, lastChars, quadChars]
  | [a, b] => by simp [encodeGroups, lastChars, quadChars]
  | [a, b, c] => by simp [encodeGroups, lastChars, quadChars]
  | a :: b :: c :: d :: rest => by
    have ih := length_encodeGroups_mod (d :: rest)
    have hquad : (quadChars a b c).length = 4 := rfl
    rw [encodeGroups, List.length_append, hquad]
    omega

/-- What the round trip makes of a byte string: a full last group loses its last octet, a last
group of one octet gains a NUL. -/
def roundTrip : Bytes → Bytes
  | [] => []
  | [a] => [a, 0]
  | [a, b] => [a, b]
  | [a, b, _] => [a, b]
  | a :: b :: c :: d :: rest => a :: b :: c :: roundTrip (d :: rest)

theorem decodeLoop_encodeGroups : (s : Bytes) → decodeLoop (encodeGroups s) = roundTrip s
  | [] => rfl
  | [a] => decodeLoop_lastChars a 0 0
  | [a, b] => decodeLoop_lastChars a b 0
  | [a, b, c] => decodeLoop_lastChars a b c
  | a :: b :: c :: d :: rest => by
    rw [encodeGroups, decodeLoop_quadChars, decodeLoop_encodeGroups (d :: rest), roundTrip]
    rfl

/-- **Decoding the encoder's text.** -/
theorem base64decode_base64encode (s : Bytes) : base64decode (base64encode s) = roundTrip s := by
  rw [base64decode, base64encode_eq_encodeGroups, if_neg (by simp [length_encodeGroups_mod]),
    decodeLoop_encodeGroups]

theorem length_roundTrip : (s : Bytes) → s ≠ [] →
    (roundTrip s).length + 1 = s.length + s.length % 3 * 2 % 3
  | [a], _ => by simp [roundTrip]
  | [a, b], _ => by simp [roundTrip]
  | [a, b, c], _ => by simp [roundTrip]
  | a :: b :: c :: d :: rest, _ => by
    have ih := length_roundTrip (d :: rest) (by simp)
    simp only [roundTrip, List.length_cons] at ih ⊢
    omega

theorem roundTrip_eq_self : (s : Bytes) → s.length % 3 = 2 → roundTrip s = s
  | [a, b], _ => by rw [roundTrip]
  | [a, b, c], h => by simp at h
  | a :: b :: c :: d :: rest, h => by
    rw [roundTrip, roundTrip_eq_self (d :: rest) (by simp only [List.length_cons] at h ⊢; omega)]

/-- **The base64 round trip.** Decoding gives back the input exactly when the input is empty or
its length is 2 modulo 3: the encoder's padding decision is right for a last group of two octets
only. -/
theorem base64decode_base64encode_iff (s : Bytes) :
    base64decode (base64encode s) = s ↔ s = [] ∨ s.length % 3 = 2 := by
  rw [base64decode_base64encode]
  constructor
  · intro h
    rcases eq_or_ne s [] with rfl | hs
    · exact Or.inl rfl
    · right
      have hlen := length_roundTrip s hs
      rw [h] at hlen
      omega
  · rintro (rfl | h)
    · rfl
    · exact roundTrip_eq_self s h

/-- A single octet comes back with a NUL behind it. -/
theorem base64decode_base64encode_ne : base64decode (base64encode (str "a")) ≠ str "a" := by
  decide

end Behh
