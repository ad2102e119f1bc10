import Behh.Constants
import Behh.Library.BitStream

/-!
# The base-36 text of a byte string

`string_to_custom_base36_openssl` and `string_from_custom_base36_openssl` of
`src/cryptography.cc`, lines 36–88.

Both functions regroup a bit stream through a 32-bit accumulator: the encoder takes 8 bits in and
gives 5 out, the decoder takes 5 in and gives 8 out. The accumulator is never masked, so that
bits used long ago stay in it until they are shifted out of its top. The bits that matter are the
low `bits` bits, and they are the bits of the stream not yet used (`PackState.Holds`,
`UnpackState.Holds`). The encoder's text is the stream of the input, filled up with zeros to a
multiple of five bits and cut into groups (`stringToCustomBase36Openssl_eq`); the decoder cuts
the stream of the digits into bytes (`decodeLoop_digits`) and drops the fill, which is shorter
than a byte.

## Main definitions

* `stringToCustomBase36Openssl`, `stringFromCustomBase36Openssl`: the two functions.
* `fromBase36Run`: the decoder's final state, with the flag of its "not found" branch.

## Main results

* `stringToCustomBase36Openssl_eq`: the text as groups of the bit stream.
* `base36_roundTrip`: decoding the encoder's text.
-/

namespace Behh

/-- `BASE36_DIGITS[k]`. -/
def base36Char (k : ℕ) : UInt8 := base36Digits.getD k 0

/-! ### The encoder -/

/-- The locals of the encoder. -/
structure PackState where
  /-- The digits pushed so far. -/
  result : Bytes
  /-- The accumulator. -/
  value : UInt32
  /-- The number of low bits of the accumulator that are still to be used. -/
  bits : ℕ

/-- `while (bits >= 5) { bits -= 5; result.push_back(...); }`. -/
def drainDigits (value : UInt32) : ℕ → Bytes → PackState
  | bits + 5, result =>
    drainDigits value bits
      (result ++ [base36Char ((value >>> UInt32.ofNat bits) &&& 0x1F).toNat])
  | bits, result => ⟨result, value, bits⟩

/-- One iteration of the encoder's loop over the bytes. -/
def packByte (st : PackState) (byte : UInt8) : PackState :=
  drainDigits ((st.value <<< 8) ||| byte.toUInt32) (st.bits + 8) st.result

/-- `string_to_custom_base36_openssl`. -/
def stringToCustomBase36Openssl (input : Bytes) : Bytes :=
  let st := input.foldl packByte ⟨[], 0, 0⟩
  if st.bits > 0 then
    st.result ++ [base36Char ((st.value <<< UInt32.ofNat (5 - st.bits)) &&& 0x1F).toNat]
  else st.result

/-! ### The decoder -/

/-- The locals of the decoder. -/
structure UnpackState where
  /-- The bytes pushed so far. -/
  result : Bytes
  /-- The number of low bits of the accumulator that are still to be used. -/
  bits : ℕ
  /-- The accumulator. -/
  value : UInt32
  /-- Set in the "not found" branch. -/
  loopBreak : Bool

/-- The accumulator takes the five bits of a digit, and a byte leaves it when there is one. -/
def unpackDigit (st : UnpackState) (index : ℕ) : UnpackState :=
  let value := (st.value <<< 5) ||| UInt32.ofNat index
  let bits := st.bits + 5
  if bits ≥ 8 then
    { st with
      value := value
      bits := bits - 8
      result := st.result ++ [((value >>> UInt32.ofNat (bits - 8)) &&& 0xFF).toUInt8] }
  else { st with value := value, bits := bits }

/-- The decoder's loop: a character outside the alphabet ends it. -/
def unpackLoop : Bytes → UnpackState → UnpackState
  | [], st => st
  | c :: cs, st =>
    match base36Digits.idxOf? c with
    | none => { st with loopBreak := true }
    | some index => unpackLoop cs (unpackDigit st index)

/-- The state in which the decoder's loop ends. -/
def fromBase36Run (input : Bytes) : UnpackState := unpackLoop input ⟨[], 0, 0, false⟩

/-- `string_from_custom_base36_openssl`. -/
def stringFromCustomBase36Openssl (input : Bytes) : Bytes := (fromBase36Run input).result

/-! ### The bits of a byte string -/

open BitStream

/-- The bits of a byte string, eight for each byte. -/
def byteBits (s : Bytes) : List Bool := s.flatMap fun b => toBits 8 b.toNat

theorem byteBits_eq_flatMap (s : Bytes) :
    byteBits s = (s.map UInt8.toNat).flatMap (toBits 8) := by
  rw [byteBits, List.flatMap_map]

@[simp] theorem length_byteBits (s : Bytes) : (byteBits s).length = 8 * s.length := by
  induction s with
  | nil => rfl
  | cons b s ih =>
    rw [byteBits, List.flatMap_cons, List.length_append, length_toBits, List.length_cons]
    rw [byteBits] at ih
    omega

/-! ### The accumulator -/

theorem toNat_ofNat_mod {k : ℕ} (hk : k < 32) : (UInt32.ofNat k).toNat % 32 = k := by
  rw [UInt32.toNat_ofNat', Nat.mod_mod_of_dvd _ (by decide), Nat.mod_eq_of_lt hk]

/-- Taking `b` bits in: as long as they fit in the word, the low bits are the `a` bits held
before and the bits of `x`. The bits shifted out of the top are not among them. -/
theorem toBits_shiftLeft_or (value x : UInt32) {a b : ℕ} (hb : b < 32) (hab : a + b ≤ 32)
    (hx : x.toNat < 2 ^ b) :
    toBits (a + b) ((value <<< UInt32.ofNat b) ||| x).toNat =
      toBits a value.toNat ++ toBits b x.toNat := by
  have hx' : x.toNat = x.toNat % 2 ^ 32 := (Nat.mod_eq_of_lt x.toNat_lt).symm
  rw [UInt32.toNat_or, UInt32.toNat_shiftLeft, toNat_ofNat_mod hb, hx', ← Nat.or_mod_two_pow,
    toBits_mod hab, ← hx', ← Nat.shiftLeft_add_eq_or_of_lt hx, Nat.shiftLeft_eq,
    toBits_push _ _ _ hx]

/-- Giving bits out: the bits above position `k`, cut to `w` of them by a mask. -/
theorem toNat_shiftRight_and (value mask : UInt32) {k w : ℕ} (hk : k < 32)
    (hmask : mask.toNat = 2 ^ w - 1) :
    ((value >>> UInt32.ofNat k) &&& mask).toNat = ofBits (toBits w (value.toNat / 2 ^ k)) := by
  rw [UInt32.toNat_and, UInt32.toNat_shiftRight, toNat_ofNat_mod hk, hmask,
    Nat.and_two_pow_sub_one_eq_mod, Nat.shiftRight_eq_div_pow, ofBits_toBits]

/-! ### The encoder regroups the stream -/

/-- The encoder has used the stream `l` up to fewer than five bits: the digits of its groups are
pushed and the remainder stands in the low bits of the accumulator. -/
structure PackState.Holds (st : PackState) (l : List Bool) : Prop where
  result : st.result = (groups 5 l).map base36Char
  bits : st.bits = (rest 5 l).length
  value : toBits st.bits st.value.toNat = rest 5 l

/-- The inner loop pushes the digits of the groups of the bits in the accumulator and leaves
their remainder. -/
theorem drainDigits_spec (value : UInt32) : (bits : ℕ) → (result : Bytes) → bits < 32 →
    (drainDigits value bits result).result =
        result ++ (groups 5 (toBits bits value.toNat)).map base36Char ∧
      (drainDigits value bits result).value = value ∧
      (drainDigits value bits result).bits = (rest 5 (toBits bits value.toNat)).length ∧
      toBits (drainDigits value bits result).bits value.toNat =
        rest 5 (toBits bits value.toNat)
  | bits + 5, result, h => by
    obtain ⟨ihres, ihval, ihbits, ihrest⟩ := drainDigits_spec value bits
      (result ++ [base36Char ((value >>> UInt32.ofNat bits) &&& 0x1F).toNat]) (by omega)
    have hdigit : ((value >>> UInt32.ofNat bits) &&& 0x1F).toNat =
        ofBits (toBits 5 (value.toNat / 2 ^ bits)) :=
      toNat_shiftRight_and _ _ (by omega) rfl
    rw [Nat.add_comm bits 5, toBits_add, groups_cons (by decide) (length_toBits ..),
      rest_cons (by decide) (length_toBits ..), Nat.add_comm 5 bits, drainDigits]
    refine ⟨?_, ihval, ihbits, ihrest⟩
    rw [ihres, hdigit, List.append_assoc, List.map_cons, List.singleton_append]
  | 0, result, _ | 1, result, _ | 2, result, _ | 3, result, _ | 4, result, _ => by
    simp [drainDigits, groups_of_lt, rest_of_lt]

/-- One byte: the encoder has then used the stream with the bits of the byte behind it. -/
theorem packByte_holds {st : PackState} {l : List Bool} (h : st.Holds l) (byte : UInt8) :
    (packByte st byte).Holds (l ++ toBits 8 byte.toNat) := by
  have hbits : st.bits < 5 := by
    rw [h.bits]
    exact length_rest_lt (by decide) l
  have hacc : toBits (st.bits + 8) ((st.value <<< 8) ||| byte.toUInt32).toNat =
      rest 5 l ++ toBits 8 byte.toNat := by
    rw [← h.value]
    exact toBits_shiftLeft_or _ _ (b := 8) (by decide) (by omega)
      (by simpa using byte.toNat_lt)
  obtain ⟨hres, hval, hlen, hrest⟩ := drainDigits_spec ((st.value <<< 8) ||| byte.toUInt32)
    (st.bits + 8) st.result (by omega)
  rw [hacc] at hres hlen hrest
  refine ⟨?_, ?_, ?_⟩
  · rw [packByte, hres, h.result, ← List.map_append, ← groups_append (by decide)]
  · rw [packByte, hlen, ← rest_append (by decide)]
  · rw [packByte, hval, hrest, ← rest_append (by decide)]

theorem foldl_packByte_holds {st : PackState} {l : List Bool} (h : st.Holds l) (s : Bytes) :
    (s.foldl packByte st).Holds (l ++ byteBits s) := by
  induction s generalizing st l with
  | nil => simpa [byteBits] using h
  | cons b s ih =>
    have hstep := ih (packByte_holds h b)
    rwa [List.append_assoc] at hstep

/-- The number of zeros behind the bits of `s` that make up a multiple of five. -/
def fill (s : Bytes) : ℕ := (5 - 8 * s.length % 5) % 5

/-- The bits of `s`, filled up with zeros to a multiple of five. -/
def filledBits (s : Bytes) : List Bool := byteBits s ++ List.replicate (fill s) false

theorem fill_lt (s : Bytes) : fill s < 5 := Nat.mod_lt _ (by decide)

theorem length_rest_byteBits (s : Bytes) :
    (rest 5 (byteBits s)).length = 8 * s.length % 5 := by
  have hlen := length_groups (w := 5) (by decide) (byteBits s)
  have hlt := length_rest_lt (w := 5) (by decide) (byteBits s)
  rw [length_byteBits] at hlen
  omega

theorem rest_filledBits (s : Bytes) : rest 5 (filledBits s) = [] := by
  have hlen := length_groups (w := 5) (by decide) (filledBits s)
  have hlt := length_rest_lt (w := 5) (by decide) (filledBits s)
  have hfill : fill s = (5 - 8 * s.length % 5) % 5 := rfl
  rw [filledBits, List.length_append, length_byteBits, List.length_replicate] at hlen
  refine List.length_eq_zero_iff.1 ?_
  rw [filledBits] at hlt ⊢
  omega

/-- **The text of the encoder**: the groups of five of the filled up bits, as digits. -/
theorem stringToCustomBase36Openssl_eq (s : Bytes) :
    stringToCustomBase36Openssl s = (groups 5 (filledBits s)).map base36Char := by
  have hst : (s.foldl packByte ⟨[], 0, 0⟩).Holds (byteBits s) :=
    foldl_packByte_holds (l := []) ⟨by simp, by simp, by simp⟩ s
  obtain ⟨hres, hbits, hval⟩ := hst
  rw [length_rest_byteBits] at hbits
  rw [stringToCustomBase36Openssl, filledBits, groups_append (by decide), List.map_append]
  simp only [hres]
  rcases Nat.eq_zero_or_pos (8 * s.length % 5) with h | h
  · have hfill : fill s = 0 := by rw [fill, h]
    rw [if_neg (by omega), hfill, List.replicate_zero, List.append_nil,
      groups_of_lt (length_rest_lt (by decide) _), List.map_nil, List.append_nil]
  · have hfill : fill s = 5 - (s.foldl packByte ⟨[], 0, 0⟩).bits := by
      rw [hbits, fill, Nat.mod_eq_of_lt (by omega)]
    set st := s.foldl packByte ⟨[], 0, 0⟩
    have hlt : st.bits < 5 := by omega
    -- The last digit holds the remainder and, below it, the zeros shifted in.
    rw [hfill]
    have hstream : toBits 5 (st.value <<< UInt32.ofNat (5 - st.bits)).toNat =
        rest 5 (byteBits s) ++ List.replicate (5 - st.bits) false := by
      have hpush := toBits_shiftLeft_or st.value 0 (a := st.bits)
        (b := 5 - st.bits) (by omega) (by omega) (Nat.two_pow_pos _)
      rwa [Nat.add_sub_cancel' hlt.le, UInt32.or_zero, hval, UInt32.toNat_zero,
        toBits_zero_right] at hpush
    have hdigit : ((st.value <<< UInt32.ofNat (5 - st.bits)) &&& 0x1F).toNat =
        ofBits (rest 5 (byteBits s) ++ List.replicate (5 - st.bits) false) := by
      rw [← hstream, ofBits_toBits, UInt32.toNat_and]
      exact Nat.and_two_pow_sub_one_eq_mod _ 5
    have hlast : (rest 5 (byteBits s) ++ List.replicate (5 - st.bits) false).length = 5 := by
      rw [← hstream, length_toBits]
    rw [if_pos (by omega), hdigit, groups_of_length_eq (by decide) hlast, List.map_singleton]

/-! ### The decoder regroups the digits -/

/-- The decoder has used the stream `l` up to fewer than eight bits. -/
structure UnpackState.Holds (st : UnpackState) (l : List Bool) : Prop where
  result : st.result = (groups 8 l).map UInt8.ofNat
  bits : st.bits = (rest 8 l).length
  value : toBits st.bits st.value.toNat = rest 8 l

/-- One digit of five bits. There is at most one byte to push, because fewer than eight bits
were held before. -/
theorem unpackDigit_holds {st : UnpackState} {l : List Bool} (h : st.Holds l) {index : ℕ}
    (hindex : index < 32) : (unpackDigit st index).Holds (l ++ toBits 5 index) := by
  have hbits : st.bits < 8 := by
    rw [h.bits]
    exact length_rest_lt (by decide) l
  set value := (st.value <<< 5) ||| UInt32.ofNat index with hvalue
  have hacc : toBits (st.bits + 5) value.toNat = rest 8 l ++ toBits 5 index := by
    have hi : (UInt32.ofNat index).toNat = index := by
      rw [UInt32.toNat_ofNat', Nat.mod_eq_of_lt (by omega)]
    have hpush := toBits_shiftLeft_or st.value (UInt32.ofNat index)
      (a := st.bits) (b := 5) (by decide) (by omega) (by rwa [hi])
    rwa [hi, h.value] at hpush
  have hgroups := groups_append (w := 8) (by decide) l (toBits 5 index)
  have hrest := rest_append (w := 8) (by decide) l (toBits 5 index)
  rw [← hacc] at hgroups hrest
  rcases Nat.lt_or_ge (st.bits + 5) 8 with hlt | hge
  · have hlen : (toBits (st.bits + 5) value.toNat).length < 8 := by simpa using hlt
    rw [groups_of_lt hlen, List.append_nil] at hgroups
    rw [rest_of_lt hlen] at hrest
    rw [unpackDigit, if_neg (by omega)]
    exact ⟨by rw [hgroups]; exact h.result, by rw [hrest, length_toBits], hrest.symm⟩
  · obtain ⟨k, hk⟩ := Nat.exists_eq_add_of_le hge
    have hsub : st.bits + 5 - 8 = k := by omega
    have hlen : (toBits k value.toNat).length < 8 := by rw [length_toBits]; omega
    rw [hk, toBits_add, groups_cons (by decide) (length_toBits ..), groups_of_lt hlen] at hgroups
    rw [hk, toBits_add, rest_cons (by decide) (length_toBits ..), rest_of_lt hlen] at hrest
    have hbyte : ((value >>> UInt32.ofNat k) &&& 0xFF).toUInt8 =
        UInt8.ofNat (ofBits (toBits 8 (value.toNat / 2 ^ k))) := by
      rw [← toNat_shiftRight_and _ 0xFF (by omega) rfl]
      rfl
    rw [unpackDigit, if_pos hge, hsub]
    refine ⟨?_, ?_, hrest.symm⟩
    · rw [hgroups, List.map_append, ← h.result, List.map_singleton, ← hbyte]
    · rw [hrest, length_toBits]

theorem idxOf?_base36Char {k : ℕ} (hk : k < 36) :
    base36Digits.idxOf? (base36Char k) = some k := by
  have hall : ∀ k : Fin 36, base36Digits.idxOf? (base36Char k) = some k.1 := by decide +kernel
  exact hall ⟨k, hk⟩

/-- Digits of five bits are read to the end, without the "not found" branch. -/
theorem unpackLoop_digits {ks : List ℕ} (hks : ∀ k ∈ ks, k < 32) {st : UnpackState}
    {l : List Bool} (h : st.Holds l) :
    (unpackLoop (ks.map base36Char) st).Holds (l ++ ks.flatMap (toBits 5)) ∧
      (unpackLoop (ks.map base36Char) st).loopBreak = st.loopBreak := by
  induction ks generalizing st l with
  | nil => exact ⟨by simpa [unpackLoop] using h, rfl⟩
  | cons k ks ih =>
    obtain ⟨hk, hks⟩ := List.forall_mem_cons.1 hks
    obtain ⟨hholds, hbreak⟩ := ih hks (unpackDigit_holds h hk)
    have hflag : (unpackDigit st k).loopBreak = st.loopBreak := by
      rw [unpackDigit]
      split <;> rfl
    rw [List.map_cons, unpackLoop, idxOf?_base36Char (by omega)]
    rw [List.append_assoc] at hholds
    exact ⟨hholds, hbreak.trans hflag⟩

/-- On the encoder's text the decoder reads to the end, and has then used the filled up bits of
the byte string. -/
theorem fromBase36Run_stringTo_holds (s : Bytes) :
    (fromBase36Run (stringToCustomBase36Openssl s)).Holds (filledBits s) ∧
      (fromBase36Run (stringToCustomBase36Openssl s)).loopBreak = false := by
  obtain ⟨hholds, hbreak⟩ := unpackLoop_digits
    (groups_lt (w := 5) (by decide) (filledBits s))
    (show UnpackState.Holds ⟨[], 0, 0, false⟩ [] from ⟨by simp, by simp, by simp⟩)
  have hstream : (groups 5 (filledBits s)).flatMap (toBits 5) = filledBits s := by
    have hflat := flatMap_toBits_groups (w := 5) (by decide) (filledBits s)
    rwa [rest_filledBits, List.append_nil] at hflat
  rw [hstream, List.nil_append] at hholds
  rw [fromBase36Run, stringToCustomBase36Openssl_eq]
  exact ⟨hholds, hbreak⟩

/-- The bytes in the filled up bits are the bytes of the string: the fill is shorter than a
byte. -/
theorem groups_filledBits (s : Bytes) : groups 8 (filledBits s) = s.map UInt8.toNat := by
  rw [filledBits, byteBits_eq_flatMap]
  refine groups_flatMap_toBits (fun x hx => ?_) ?_
  · obtain ⟨b, -, rfl⟩ := List.mem_map.1 hx
    exact b.toNat_lt
  · rw [List.length_replicate]
    have := fill_lt s
    omega

@[simp] theorem stringFromCustomBase36Openssl_stringTo (s : Bytes) :
    stringFromCustomBase36Openssl (stringToCustomBase36Openssl s) = s := by
  rw [stringFromCustomBase36Openssl, (fromBase36Run_stringTo_holds s).1.result,
    groups_filledBits, List.map_map]
  simp [Function.comp_def]

/-- The bits of the last digit that the decoder does not use are the fill. -/
theorem rest_filledBits_eight (s : Bytes) :
    rest 8 (filledBits s) = List.replicate (fill s) false := by
  have hflat := flatMap_toBits_groups (w := 8) (by decide) (filledBits s)
  rw [groups_filledBits, ← byteBits_eq_flatMap] at hflat
  exact List.append_cancel_left hflat

/-- **The base-36 round trip.** The decoder gives back every byte string from its text. It does
not reach its "not found" branch, and what it leaves unused in the accumulator is the zero fill
of the last digit. -/
theorem base36_roundTrip (s : Bytes) :
    stringFromCustomBase36Openssl (stringToCustomBase36Openssl s) = s ∧
      (fromBase36Run (stringToCustomBase36Openssl s)).loopBreak = false ∧
      (fromBase36Run (stringToCustomBase36Openssl s)).bits = fill s ∧
      toBits (fill s) (fromBase36Run (stringToCustomBase36Openssl s)).value.toNat =
        List.replicate (fill s) false := by
  obtain ⟨hholds, hbreak⟩ := fromBase36Run_stringTo_holds s
  have hbits : (fromBase36Run (stringToCustomBase36Openssl s)).bits = fill s := by
    rw [hholds.bits, rest_filledBits_eight, List.length_replicate]
  refine ⟨stringFromCustomBase36Openssl_stringTo s, hbreak, hbits, ?_⟩
  rw [← hbits, hholds.value, rest_filledBits_eight, hbits]

end Behh
