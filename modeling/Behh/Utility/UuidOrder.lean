import Behh.Std.TextOrder
import Behh.Utility.Uuid

/-!
# The order of the version 1 texts

`generate::uuid::v1` of `src/utility.cc`, lines 375–408, puts the low 48 bits of the microseconds
first, with the highest ones in front, and the random bytes behind them. The texts are therefore in
the order of the timestamps, modulo `2 ^ 48`, whatever the random bytes are.

## Main results

* `exists_first_octet_lt`: the first octet in which two timestamps differ.
* `v1_lt_iff`: the order of the texts.
-/

namespace Behh.Uuid

/-! ### The order of pieces -/

theorem flatMap_lt {ι : Type} {f g : ι → Bytes} {i : ι} {before after : List ι}
    (hbefore : ∀ j ∈ before, f j = g j) (hlength : (f i).length = (g i).length)
    (hlt : f i < g i) : (before ++ i :: after).flatMap f < (before ++ i :: after).flatMap g := by
  have hsame : before.flatMap f = before.flatMap g := List.flatMap_congr hbefore
  rw [List.flatMap_append, List.flatMap_append, hsame, List.flatMap_cons, List.flatMap_cons]
  exact List.append_left_lt (append_lt_append hlength hlt _ _)

theorem hexDigit_lt {a b : ℕ} (hb : b < 16) (h : a < b) :
    OStream.hexDigit false a < OStream.hexDigit false b := by
  have hall : ∀ a b : Fin 16, a < b → OStream.hexDigit false a.1 < OStream.hexDigit false b.1 := by
    decide +kernel
  exact hall ⟨a, by omega⟩ ⟨b, hb⟩ h

/-- The digits of a byte are in the order of the bytes. -/
theorem hexDigits_lt {x y : UInt8} (h : x < y) :
    OStream.hexDigits false x < OStream.hexDigits false y := by
  have hlt := UInt8.lt_iff_toNat_lt.1 h
  have hy := y.toNat_lt
  rw [OStream.hexDigits, OStream.hexDigits, List.cons_lt_cons_iff]
  rcases Nat.lt_or_ge (x.toNat / 16) (y.toNat / 16) with hhigh | hhigh
  · exact .inl (hexDigit_lt (by omega) hhigh)
  · have hsame : x.toNat / 16 = y.toNat / 16 := by omega
    exact .inr ⟨by rw [hsame], List.cons_lt_cons_iff.2 (.inl (hexDigit_lt (by omega) (by omega)))⟩

/-! ### The octets of a timestamp -/

theorem toNat_octet (timestamp : ℤ) {k : ℕ} (hk : k + 8 ≤ 48) :
    (octet timestamp k).toNat = (timestamp % 2 ^ 48).toNat / 2 ^ k % 256 := by
  refine Nat.eq_of_testBit_eq fun j => ?_
  have hpow : (256 : ℕ) = 2 ^ 8 := rfl
  rw [hpow, Nat.testBit_mod_two_pow, Nat.testBit_div_two_pow]
  by_cases hj : j < 8
  · rw [testBit_octet timestamp hk hj, decide_eq_true hj, Bool.true_and, Nat.add_comm]
  · rw [decide_eq_false hj, Bool.false_and]
    exact Nat.testBit_lt_two_pow (Nat.lt_of_lt_of_le (octet timestamp k).toNat_lt
      (Nat.pow_le_pow_right (by decide) (Nat.not_lt.1 hj)))

/-- **The first octet that differs** is smaller in the smaller number. -/
theorem exists_first_octet_lt {v v' : ℕ} (h : v < v') (hv' : v' < 2 ^ 48) :
    ∃ n < 6, (∀ j < n, v / 2 ^ (8 * (5 - j)) % 256 = v' / 2 ^ (8 * (5 - j)) % 256) ∧
      v / 2 ^ (8 * (5 - n)) % 256 < v' / 2 ^ (8 * (5 - n)) % 256 := by
  have hex : ∃ n, v / 2 ^ (8 * (5 - n)) ≠ v' / 2 ^ (8 * (5 - n)) := ⟨5, by simpa using h.ne⟩
  have hfirst : Nat.find hex ≤ 5 := Nat.find_min' hex (by simpa using h.ne)
  have hbefore : ∀ j < Nat.find hex, v / 2 ^ (8 * (5 - j)) = v' / 2 ^ (8 * (5 - j)) :=
    fun j hj => not_not.1 (Nat.find_min hex hj)
  refine ⟨Nat.find hex, by omega, fun j hj => by rw [hbefore j hj], ?_⟩
  have hle : v / 2 ^ (8 * (5 - Nat.find hex)) ≤ v' / 2 ^ (8 * (5 - Nat.find hex)) :=
    Nat.div_le_div_right h.le
  have hne := Nat.find_spec hex
  -- in front of the octet the two numbers are the same
  have hfront : v / 2 ^ (8 * (5 - Nat.find hex)) / 256 =
      v' / 2 ^ (8 * (5 - Nat.find hex)) / 256 := by
    have hpow : 2 ^ (8 * (5 - Nat.find hex)) * 256 = 2 ^ (8 * (5 - Nat.find hex) + 8) :=
      (Nat.pow_add 2 _ 8).symm
    rw [Nat.div_div_eq_div_mul, Nat.div_div_eq_div_mul, hpow]
    rcases Nat.eq_zero_or_pos (Nat.find hex) with hzero | hpos
    · rw [hzero, Nat.div_eq_of_lt (by omega), Nat.div_eq_of_lt (by omega)]
    · have hstep : 8 * (5 - Nat.find hex) + 8 = 8 * (5 - (Nat.find hex - 1)) := by omega
      rw [hstep]
      exact hbefore _ (by omega)
  omega

/-! ### The texts -/

variable {timestamp timestamp' : ℤ} {bytes bytes' : Array16}

/-- The first six bytes are the octets of the timestamp. -/
theorem v1Bytes_of_lt (timestamp : ℤ) (bytes : Array16) {i : Fin 16} (hi : i.1 < 6) :
    v1Bytes timestamp bytes i = octet timestamp (8 * (5 - i.1)) := by
  have h6 : i ≠ 6 := by rintro rfl; exact absurd hi (by decide)
  have h8 : i ≠ 8 := by rintro rfl; exact absurd hi (by decide)
  rw [v1Bytes_eq, withVersion, Function.update_of_ne h8, Function.update_of_ne h6, withTimestamp,
    if_pos hi]

theorem v1_lt (h : timestamp % 2 ^ 48 < timestamp' % 2 ^ 48) :
    v1 timestamp bytes < v1 timestamp' bytes' := by
  have hlow : 0 ≤ timestamp % 2 ^ 48 := Int.emod_nonneg _ (by decide)
  have hhigh : timestamp' % 2 ^ 48 < 2 ^ 48 := Int.emod_lt_of_pos _ (by decide)
  obtain ⟨n, hn, hsame, hlt⟩ := exists_first_octet_lt
    (show (timestamp % 2 ^ 48).toNat < (timestamp' % 2 ^ 48).toNat by omega) (by omega)
  obtain ⟨before, after, hsplit⟩ :=
    List.append_of_mem (List.mem_finRange (⟨n, by omega⟩ : Fin 16))
  have hsorted := List.pairwise_lt_finRange 16
  rw [hsplit, List.pairwise_append] at hsorted
  have hbefore : ∀ i ∈ before, i.1 < n := fun i hi => hsorted.2.2 i hi _ List.mem_cons_self
  rw [v1, v1, text_eq_flatMap, text_eq_flatMap, hsplit]
  have hdiffers : v1Bytes timestamp bytes ⟨n, by omega⟩ <
      v1Bytes timestamp' bytes' ⟨n, by omega⟩ := by
    rw [v1Bytes_of_lt _ _ hn, v1Bytes_of_lt _ _ hn, UInt8.lt_iff_toNat_lt,
      toNat_octet _ (by omega), toNat_octet _ (by omega)]
    exact hlt
  have hsameByte : ∀ i ∈ before, v1Bytes timestamp bytes i = v1Bytes timestamp' bytes' i := by
    intro i hi
    have hin := hbefore i hi
    rw [v1Bytes_of_lt _ _ (by omega), v1Bytes_of_lt _ _ (by omega), ← UInt8.toNat_inj,
      toNat_octet _ (by omega), toNat_octet _ (by omega), hsame _ hin]
  refine flatMap_lt (fun j hj => by rw [hsameByte j hj]) ?_ ?_
  · simp only [List.length_append, OStream.hexDigits, List.length_cons]
  · exact List.append_left_lt (hexDigits_lt hdiffers)

/-- **The order of the texts.** For every two timestamps: whatever random bytes are drawn for them,
the first text is smaller than the second one, exactly when the first timestamp is, modulo
`2 ^ 48`. -/
theorem v1_lt_iff (timestamp timestamp' : ℤ) :
    (∀ bytes bytes' : Array16, v1 timestamp bytes < v1 timestamp' bytes') ↔
      timestamp % 2 ^ 48 < timestamp' % 2 ^ 48 := by
  constructor
  · intro h
    rcases Int.lt_trichotomy (timestamp % 2 ^ 48) (timestamp' % 2 ^ 48) with hlt | heq | hgt
    · exact hlt
    · have hoctets : withTimestamp timestamp = withTimestamp timestamp' := by
        funext bytes i
        rw [withTimestamp, withTimestamp]
        split_ifs with hi
        · rw [← UInt8.toNat_inj, toNat_octet _ (by omega), toNat_octet _ (by omega), heq]
        · rfl
      have hsame : v1 timestamp (fun _ => 0) = v1 timestamp' fun _ => 0 := by
        rw [v1, v1, v1Bytes_eq, v1Bytes_eq, hoctets]
      have hlt := h (fun _ => 0) fun _ => 0
      rw [hsame] at hlt
      exact absurd hlt (List.lt_irrefl _)
    · exact absurd (h (fun _ => 0) fun _ => 0) (List.lt_asymm (v1_lt hgt))
  · exact fun h bytes bytes' => v1_lt h

end Behh.Uuid
