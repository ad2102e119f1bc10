import Behh.Cryptography.Base36

/-!
# The base-36 encoder and its accumulator

`string_to_custom_base36_openssl` of `src/cryptography.cc`, lines 36–57, never masks its
accumulator. After four bytes it holds bits that have been used, and loses others from its top. What
it computes is defined on the stream of bits alone (`base36Reference`): the digits do not depend on
the bits that are no longer counted, so that an accumulator without a bound, with anything in it at
the start, gives the same text.

The values that the counter `bits` takes and the amounts of the shifts are recorded in the order of
the loop.

## Main definitions

* `base36Reference`: the text, from the bits of the input.
* `PackLog`, `base36Log`: the loop with a record of its counter and of its shifts.
* `WideState`, `wideBase36`: the loop with an unbounded accumulator.

## Main results

* `PackState.Agrees`: what the two accumulators have in common.
* `base36_stream`: the text, the range of the counter and the shifts, and the stale bits.
-/

namespace Behh

open BitStream

/-- The bits of the bytes, eight for each, the highest first; then zeros up to a multiple of five;
then a digit for each group of five. -/
def base36Reference (s : Bytes) : Bytes :=
  let bits := s.flatMap fun b => toBits 8 b.toNat
  (groups 5 (bits ++ List.replicate ((5 - bits.length % 5) % 5) false)).map base36Char

theorem base36Reference_eq (s : Bytes) :
    base36Reference s = (groups 5 (filledBits s)).map base36Char := by
  have hlen : (s.flatMap fun b => toBits 8 b.toNat).length = 8 * s.length := length_byteBits s
  rw [base36Reference, filledBits, fill, byteBits, hlen]

theorem length_base36Reference (s : Bytes) :
    (base36Reference s).length = (8 * s.length + 4) / 5 := by
  have hlen := length_groups (w := 5) (by decide) (filledBits s)
  have hfill : fill s = (5 - 8 * s.length % 5) % 5 := rfl
  rw [rest_filledBits, filledBits, List.length_append, length_byteBits, List.length_replicate,
    List.length_nil] at hlen
  rw [base36Reference_eq, List.length_map, filledBits]
  omega

theorem base36Char_mem {k : ℕ} (hk : k < 32) : base36Char k ∈ base36Digits.take 32 := by
  have hall : ∀ k : Fin 32, base36Char k ∈ base36Digits.take 32 := by decide
  exact hall ⟨k, hk⟩

theorem mem_base36Reference {s : Bytes} {c : UInt8} (hc : c ∈ base36Reference s) :
    c ∈ base36Digits.take 32 := by
  rw [base36Reference_eq] at hc
  obtain ⟨k, hk, rfl⟩ := List.mem_map.1 hc
  exact base36Char_mem (groups_lt (w := 5) (by decide) (filledBits s) k hk)

/-! ### The counter and the shifts -/

/-- The locals of the encoder, with a record. -/
structure PackLog where
  /-- The locals. -/
  state : PackState
  /-- The values that `bits` has had. -/
  counters : List ℕ
  /-- The amounts of the shifts. -/
  shifts : List ℕ

/-- The inner loop, with its record. -/
def drainLog (value : UInt32) : ℕ → Bytes → List ℕ → List ℕ → PackLog
  | bits + 5, result, counters, shifts =>
    drainLog value bits
      (result ++ [base36Char ((value >>> UInt32.ofNat bits) &&& 0x1F).toNat])
      (counters ++ [bits]) (shifts ++ [bits])
  | bits, result, counters, shifts => ⟨⟨result, value, bits⟩, counters, shifts⟩

/-- One iteration of the loop over the bytes, with its record. -/
def packLog (log : PackLog) (byte : UInt8) : PackLog :=
  drainLog ((log.state.value <<< 8) ||| byte.toUInt32) (log.state.bits + 8) log.state.result
    (log.counters ++ [log.state.bits + 8]) (log.shifts ++ [8])

/-- The loop over the bytes, and the record with the shift for the last digit. -/
def base36Log (input : Bytes) : PackLog :=
  let log := input.foldl packLog ⟨⟨[], 0, 0⟩, [0], []⟩
  if log.state.bits > 0 then { log with shifts := log.shifts ++ [5 - log.state.bits] } else log

/-- The counter is at most 12, and at most 4 between the bytes; no shift is by 32 or more. -/
structure PackLog.InRange (log : PackLog) : Prop where
  bits : log.state.bits ≤ 4
  counters : ∀ n ∈ log.counters, n ≤ 12
  shifts : ∀ k ∈ log.shifts, k < 32

theorem drainLog_state (value : UInt32) : (bits : ℕ) → (result : Bytes) →
    (counters shifts : List ℕ) →
    (drainLog value bits result counters shifts).state = drainDigits value bits result
  | bits + 5, result, counters, shifts => by
    rw [drainLog, drainDigits]
    exact drainLog_state value bits _ _ _
  | 0, _, _, _ | 1, _, _, _ | 2, _, _, _ | 3, _, _, _ | 4, _, _, _ => rfl

theorem forall_mem_append_singleton {p : ℕ → Prop} {l : List ℕ} {n : ℕ} (hl : ∀ x ∈ l, p x)
    (hn : p n) : ∀ x ∈ l ++ [n], p x := by
  intro x hx
  rcases List.mem_append.1 hx with hx | hx
  · exact hl x hx
  · rwa [List.mem_singleton.1 hx]

theorem drainLog_inRange (value : UInt32) : (bits : ℕ) → (result : Bytes) →
    (counters shifts : List ℕ) → bits ≤ 12 → (∀ n ∈ counters, n ≤ 12) → (∀ k ∈ shifts, k < 32) →
    (drainLog value bits result counters shifts).InRange
  | bits + 5, result, counters, shifts, hbits, hcounters, hshifts => by
    rw [drainLog]
    exact drainLog_inRange value bits _ _ _ (by omega)
      (forall_mem_append_singleton hcounters (by omega))
      (forall_mem_append_singleton hshifts (by omega))
  | 0, _, _, _, _, hc, hs | 1, _, _, _, _, hc, hs | 2, _, _, _, _, hc, hs | 3, _, _, _, _, hc, hs
  | 4, _, _, _, _, hc, hs => ⟨by simp [drainLog], hc, hs⟩

theorem packLog_state (log : PackLog) (byte : UInt8) :
    (packLog log byte).state = packByte log.state byte := drainLog_state _ _ _ _ _

theorem packLog_inRange {log : PackLog} (h : log.InRange) (byte : UInt8) :
    (packLog log byte).InRange := by
  have hbits := h.bits
  exact drainLog_inRange _ _ _ _ _ (by omega)
    (forall_mem_append_singleton h.counters (by omega))
    (forall_mem_append_singleton h.shifts (by decide))

theorem foldl_packLog {log : PackLog} (h : log.InRange) (s : Bytes) :
    (s.foldl packLog log).InRange ∧ (s.foldl packLog log).state = s.foldl packByte log.state := by
  induction s generalizing log with
  | nil => exact ⟨h, rfl⟩
  | cons b s ih =>
    obtain ⟨hrange, hstate⟩ := ih (packLog_inRange h b)
    rw [packLog_state] at hstate
    exact ⟨hrange, hstate⟩

/-- **The record of a run.** It is one of the encoder's loop, and in range. -/
theorem base36Log_inRange (s : Bytes) :
    (base36Log s).state = s.foldl packByte ⟨[], 0, 0⟩ ∧ (base36Log s).InRange := by
  have hstart : PackLog.InRange ⟨⟨[], 0, 0⟩, [0], []⟩ := ⟨by decide, by simp, by simp⟩
  obtain ⟨hrange, hstate⟩ := foldl_packLog hstart s
  rw [base36Log]
  split
  · exact ⟨hstate, hrange.bits, hrange.counters,
      forall_mem_append_singleton hrange.shifts (by omega)⟩
  · exact ⟨hstate, hrange⟩

/-! ### An accumulator without a bound -/

/-- The locals of the encoder, with an accumulator that does not wrap. -/
structure WideState where
  /-- The digits pushed so far. -/
  result : Bytes
  /-- The accumulator. -/
  value : ℕ
  /-- The number of low bits of the accumulator that are still to be used. -/
  bits : ℕ

/-- The inner loop. -/
def drainWide (value : ℕ) : ℕ → Bytes → WideState
  | bits + 5, result => drainWide value bits (result ++ [base36Char ((value >>> bits) &&& 0x1F)])
  | bits, result => ⟨result, value, bits⟩

/-- One iteration of the loop over the bytes. -/
def packWide (st : WideState) (byte : UInt8) : WideState :=
  drainWide ((st.value <<< 8) ||| byte.toNat) (st.bits + 8) st.result

/-- The encoder with an accumulator that does not wrap and begins with `stale`. -/
def wideBase36 (stale : ℕ) (input : Bytes) : Bytes :=
  let st := input.foldl packWide ⟨[], stale, 0⟩
  if st.bits > 0 then st.result ++ [base36Char ((st.value <<< (5 - st.bits)) &&& 0x1F)]
  else st.result

/-- Both have pushed the same digits, and agree in the bits that are still to be used. The other
bits of the accumulators have nothing to do with each other. -/
structure PackState.Agrees (st : PackState) (wide : WideState) : Prop where
  result : st.result = wide.result
  bits : st.bits = wide.bits
  value : toBits st.bits st.value.toNat = toBits wide.bits wide.value

theorem wide_digit (value k : ℕ) : (value >>> k) &&& 0x1F = ofBits (toBits 5 (value / 2 ^ k)) := by
  rw [ofBits_toBits, Nat.shiftRight_eq_div_pow]
  exact Nat.and_two_pow_sub_one_eq_mod _ 5

/-- The inner loops push the same digits, which are made of the bits that agree. -/
theorem drainDigits_agrees {value : UInt32} {wide : ℕ} : (bits : ℕ) → (result : Bytes) →
    bits < 32 → toBits bits value.toNat = toBits bits wide →
    (drainDigits value bits result).Agrees (drainWide wide bits result)
  | bits + 5, result, hbits, hvalue => by
    rw [Nat.add_comm bits 5, toBits_add, toBits_add] at hvalue
    obtain ⟨hdigit, hrest⟩ := List.append_inj hvalue (by simp)
    have hchar : ((value >>> UInt32.ofNat bits) &&& 0x1F).toNat = (wide >>> bits) &&& 0x1F := by
      rw [toNat_shiftRight_and value 0x1F (w := 5) (by omega) rfl, wide_digit, hdigit]
    rw [drainDigits, drainWide, hchar]
    exact drainDigits_agrees bits _ (by omega) hrest
  | 0, _, _, h | 1, _, _, h | 2, _, _, h | 3, _, _, h | 4, _, _, h => ⟨rfl, rfl, h⟩

theorem packByte_agrees {st : PackState} {wide : WideState} (h : st.Agrees wide)
    (hbits : st.bits ≤ 4) (byte : UInt8) : (packByte st byte).Agrees (packWide wide byte) := by
  have hbyte := byte.toNat_lt
  have hnarrow : toBits (st.bits + 8) ((st.value <<< 8) ||| byte.toUInt32).toNat =
      toBits st.bits st.value.toNat ++ toBits 8 byte.toNat :=
    toBits_shiftLeft_or st.value byte.toUInt32 (b := 8) (by decide) (by omega)
      (by simpa using hbyte)
  have hwide : toBits (wide.bits + 8) ((wide.value <<< 8) ||| byte.toNat) =
      toBits wide.bits wide.value ++ toBits 8 byte.toNat := by
    rw [← Nat.shiftLeft_add_eq_or_of_lt hbyte, Nat.shiftLeft_eq, toBits_push _ _ _ hbyte]
  rw [packByte, packWide, h.result, ← h.bits]
  refine drainDigits_agrees _ _ (by omega) ?_
  rw [hnarrow, h.bits, hwide, ← h.value, h.bits]

theorem packByte_bits_le {st : PackState} (hbits : st.bits ≤ 4) (byte : UInt8) :
    (packByte st byte).bits ≤ 4 := by
  have hstart : PackLog.InRange ⟨st, [], []⟩ := ⟨hbits, by simp, by simp⟩
  have hrange := packLog_inRange hstart byte
  rw [← packLog_state ⟨st, [], []⟩ byte]
  exact hrange.bits

theorem foldl_agrees {st : PackState} {wide : WideState} (h : st.Agrees wide)
    (hbits : st.bits ≤ 4) (s : Bytes) :
    (s.foldl packByte st).Agrees (s.foldl packWide wide) ∧ (s.foldl packByte st).bits ≤ 4 := by
  induction s generalizing st wide with
  | nil => exact ⟨h, hbits⟩
  | cons b s ih => exact ih (packByte_agrees h hbits b) (packByte_bits_le hbits b)

/-- **Stale bits.** The bits that are lost when the accumulator wraps, and whatever was in it at
the start, have no influence on a digit. -/
theorem wideBase36_eq (stale : ℕ) (s : Bytes) :
    wideBase36 stale s = stringToCustomBase36Openssl s := by
  have hstart : PackState.Agrees ⟨[], 0, 0⟩ ⟨[], stale, 0⟩ := ⟨rfl, rfl, rfl⟩
  obtain ⟨h, hbits⟩ := foldl_agrees hstart (by decide) s
  rw [wideBase36, stringToCustomBase36Openssl]
  rw [← h.bits, ← h.result]
  generalize s.foldl packByte ⟨[], 0, 0⟩ = st at h hbits
  generalize s.foldl packWide ⟨[], stale, 0⟩ = wide at h
  split_ifs with hpos
  · have hnarrow := toBits_shiftLeft_or st.value 0 (a := st.bits) (b := 5 - st.bits) (by omega)
      (by omega) (Nat.two_pow_pos _)
    have hwide := toBits_push st.bits (5 - st.bits) wide.value (Nat.two_pow_pos _)
    have hvalue := h.value
    rw [← h.bits] at hvalue
    rw [Nat.add_sub_cancel' (by omega), UInt32.or_zero, UInt32.toNat_zero] at hnarrow
    rw [Nat.add_sub_cancel' (by omega), Nat.add_zero, ← Nat.shiftLeft_eq] at hwide
    have hlast : ((st.value <<< UInt32.ofNat (5 - st.bits)) &&& 0x1F).toNat =
        (wide.value <<< (5 - st.bits)) &&& 0x1F := by
      have hnarrow' := toNat_shiftRight_and (st.value <<< UInt32.ofNat (5 - st.bits)) 0x1F
        (k := 0) (w := 5) (by decide) rfl
      have hwide' := wide_digit (wide.value <<< (5 - st.bits)) 0
      rw [Nat.pow_zero, Nat.div_one, hnarrow] at hnarrow'
      rw [Nat.pow_zero, Nat.div_one, hwide, ← hvalue] at hwide'
      simpa using hnarrow'.trans hwide'.symm
    rw [hlast]
  · rfl

/-- **The encoder on the stream of bits.** For every byte string: the text is the one that is
defined by the stream, it has a digit for every five bits or part of them, from the first 32 digits
of the table; the counter stays between 0 and 12, and no shift is by 32 or more; and neither the
bits lost from the accumulator nor what was in it at the start matter. -/
theorem base36_stream (s : Bytes) :
    stringToCustomBase36Openssl s = base36Reference s ∧
      (stringToCustomBase36Openssl s).length = (8 * s.length + 4) / 5 ∧
      (∀ c ∈ stringToCustomBase36Openssl s, c ∈ base36Digits.take 32) ∧
      ((base36Log s).state = s.foldl packByte ⟨[], 0, 0⟩ ∧
        (∀ n ∈ (base36Log s).counters, n ≤ 12) ∧ ∀ k ∈ (base36Log s).shifts, k < 32) ∧
      ∀ stale, wideBase36 stale s = stringToCustomBase36Openssl s := by
  have htext : stringToCustomBase36Openssl s = base36Reference s :=
    (stringToCustomBase36Openssl_eq s).trans (base36Reference_eq s).symm
  obtain ⟨hstate, hrange⟩ := base36Log_inRange s
  refine ⟨htext, ?_, fun c hc => ?_, ⟨hstate, hrange.counters, hrange.shifts⟩, fun stale =>
    wideBase36_eq stale s⟩
  · rw [htext, length_base36Reference]
  · exact mem_base36Reference (htext ▸ hc)

end Behh
