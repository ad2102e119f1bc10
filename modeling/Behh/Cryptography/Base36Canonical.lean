import Behh.Cryptography.Base36

/-!
# The base-36 texts of the encoder

`string_from_custom_base36_openssl` reads every text over `BASE36_DIGITS` to its end. The encoder
writes fewer texts: it uses the first 32 digits only, and what is behind the last byte of its text
is less than a digit and zero. A text with these two properties is the one text of its bytes, and
every other text is read as the bytes of another one.

## Main definitions

* `textBits`: the bits of a text, five for each digit.
* `Canonical`: the texts of the encoder, described by their digits and bits.

## Main results

* `canonical_iff_exists`: these are the texts of the encoder.
* `base36_canonical`: which texts are written again as they were read.
-/

namespace Behh

open BitStream

/-- The bits of a text of digits, five for each. -/
def textBits (t : Bytes) : List Bool := t.flatMap fun c => toBits 5 (base36Digits.idxOf c)

/-- All digits have five bits, and the bits behind the last byte are fewer than five, and zero. -/
structure Canonical (t : Bytes) : Prop where
  index_lt : ∀ c ∈ t, base36Digits.idxOf c < 32
  length_lt : 5 * t.length % 8 < 5
  rest_eq : rest 8 (textBits t) = List.replicate (5 * t.length % 8) false

/-! ### Digits and their indices -/

theorem idxOf_base36Char {k : ℕ} (hk : k < 36) : base36Digits.idxOf (base36Char k) = k := by
  have hall : ∀ k : Fin 36, base36Digits.idxOf (base36Char k) = k.1 := by decide +kernel
  exact hall ⟨k, hk⟩

theorem base36Char_idxOf {c : UInt8} (hc : c ∈ base36Digits) :
    base36Char (base36Digits.idxOf c) = c := by
  have hall : ∀ c ∈ base36Digits, base36Char (base36Digits.idxOf c) = c := by decide +kernel
  exact hall c hc

theorem map_base36Char_idxOf {t : Bytes} (ht : ∀ c ∈ t, c ∈ base36Digits) :
    (t.map fun c => base36Digits.idxOf c).map base36Char = t := by
  have hmap : t.map (base36Char ∘ fun c => base36Digits.idxOf c) = t.map id :=
    List.map_congr_left fun c hc => base36Char_idxOf (ht c hc)
  rw [List.map_map, hmap, List.map_id]

theorem textBits_map_base36Char {ks : List ℕ} (hks : ∀ k ∈ ks, k < 36) :
    textBits (ks.map base36Char) = ks.flatMap (toBits 5) := by
  rw [textBits, List.flatMap_map, List.flatMap_def, List.flatMap_def]
  congr 1
  exact List.map_congr_left fun k hk => by rw [idxOf_base36Char (hks k hk)]

@[simp] theorem length_textBits (t : Bytes) : (textBits t).length = 5 * t.length := by
  induction t with
  | nil => rfl
  | cons c t ih =>
    rw [textBits, List.flatMap_cons, List.length_append, length_toBits, List.length_cons]
    rw [textBits] at ih
    omega

theorem textBits_eq_flatMap (t : Bytes) :
    textBits t = (t.map fun c => base36Digits.idxOf c).flatMap (toBits 5) :=
  (List.flatMap_map ..).symm

theorem exists_idxOf? {c : UInt8} (hc : c ∈ base36Digits) :
    ∃ k, base36Digits.idxOf? c = some k := by
  have hall : ∀ c ∈ base36Digits, (base36Digits.idxOf? c).isSome := by decide +kernel
  exact Option.isSome_iff_exists.1 (hall c hc)

/-- A text over the alphabet is read to its end, without the "not found" branch. -/
theorem loopBreak_unpackLoop {t : Bytes} (ht : ∀ c ∈ t, c ∈ base36Digits) (st : UnpackState) :
    (unpackLoop t st).loopBreak = st.loopBreak := by
  induction t generalizing st with
  | nil => rfl
  | cons c t ih =>
    obtain ⟨hc, ht⟩ := List.forall_mem_cons.1 ht
    obtain ⟨k, hk⟩ := exists_idxOf? hc
    have hflag : (unpackDigit st k).loopBreak = st.loopBreak := by
      rw [unpackDigit]
      split <;> rfl
    rw [unpackLoop, hk]
    exact (ih ht _).trans hflag

/-! ### The texts of the encoder -/

/-- The digits of the encoder are among the first 32. -/
theorem stringToCustomBase36Openssl_canonical (s : Bytes) :
    Canonical (stringToCustomBase36Openssl s) := by
  have hlt : ∀ k ∈ groups 5 (filledBits s), k < 32 := groups_lt (w := 5) (by decide) (filledBits s)
  have hbits : textBits (stringToCustomBase36Openssl s) = filledBits s := by
    have hflat := flatMap_toBits_groups (w := 5) (by decide) (filledBits s)
    rw [rest_filledBits, List.append_nil] at hflat
    rw [stringToCustomBase36Openssl_eq,
      textBits_map_base36Char fun k hk => (hlt k hk).trans (by decide), hflat]
  have hlen : 5 * (stringToCustomBase36Openssl s).length = 8 * s.length + fill s := by
    have hgroups := length_groups (w := 5) (by decide) (filledBits s)
    rw [rest_filledBits, List.length_nil, Nat.add_zero] at hgroups
    rw [stringToCustomBase36Openssl_eq, List.length_map, hgroups, filledBits, List.length_append,
      length_byteBits, List.length_replicate]
  have hfill := fill_lt s
  have hmod : 5 * (stringToCustomBase36Openssl s).length % 8 = fill s := by omega
  refine ⟨?_, ?_, ?_⟩
  · rw [stringToCustomBase36Openssl_eq]
    intro c hc
    obtain ⟨k, hk, rfl⟩ := List.mem_map.1 hc
    rw [idxOf_base36Char ((hlt k hk).trans (by decide))]
    exact hlt k hk
  · rw [hmod]
    exact hfill
  · rw [hbits, hmod, rest_filledBits_eight]

/-- The numbers of eight bits in a stream are bytes. -/
theorem map_toNat_groups (l : List Bool) :
    ((groups 8 l).map UInt8.ofNat).map UInt8.toNat = groups 8 l := by
  have hmap : (groups 8 l).map (UInt8.toNat ∘ UInt8.ofNat) = (groups 8 l).map id :=
    List.map_congr_left fun x hx => by
      rw [Function.comp_apply, UInt8.toNat_ofNat', id]
      exact Nat.mod_eq_of_lt (groups_lt (by decide) l x hx)
  rw [List.map_map, hmap, List.map_id]

/-- The bits of a canonical text are the bits of its bytes, filled up. -/
theorem Canonical.textBits_eq {t : Bytes} (h : Canonical t) :
    textBits t = filledBits ((groups 8 (textBits t)).map UInt8.ofNat) := by
  have hflat := flatMap_toBits_groups (w := 8) (by decide) (textBits t)
  rw [h.rest_eq, ← map_toNat_groups, ← byteBits_eq_flatMap] at hflat
  set s := (groups 8 (textBits t)).map UInt8.ofNat
  have hfill : 5 * t.length % 8 = fill s := by
    have hlen := congrArg List.length hflat
    have hlt := h.length_lt
    rw [List.length_append, length_byteBits, List.length_replicate, length_textBits] at hlen
    rw [fill]
    omega
  rw [filledBits, ← hfill, hflat]

/-- **The texts of the encoder.** -/
theorem canonical_iff_exists {t : Bytes} :
    Canonical t ↔ ∃ s, stringToCustomBase36Openssl s = t := by
  constructor
  · intro h
    refine ⟨(groups 8 (textBits t)).map UInt8.ofNat, ?_⟩
    have hdigits : ∀ c ∈ t, c ∈ base36Digits := fun c hc =>
      List.idxOf_lt_length_iff.1 ((h.index_lt c hc).trans (by decide))
    have hlt : ∀ k ∈ t.map fun c => base36Digits.idxOf c, k < 2 ^ 5 :=
      List.forall_mem_map.2 h.index_lt
    have hgroups := groups_flatMap_toBits hlt (r := []) (by decide)
    rw [List.append_nil, ← textBits_eq_flatMap] at hgroups
    rw [stringToCustomBase36Openssl_eq, ← h.textBits_eq, hgroups, map_base36Char_idxOf hdigits]
  · rintro ⟨s, rfl⟩
    exact stringToCustomBase36Openssl_canonical s

/-- **Reading and writing.** A text over the alphabet is read to its end, and it is written again
as it was read exactly when it is canonical; these are the texts of the encoder. -/
theorem base36_canonical (t : Bytes) (ht : ∀ c ∈ t, c ∈ base36Digits) :
    (fromBase36Run t).loopBreak = false ∧
      (stringToCustomBase36Openssl (stringFromCustomBase36Openssl t) = t ↔ Canonical t) ∧
      (Canonical t ↔ ∃ s, stringToCustomBase36Openssl s = t) := by
  refine ⟨loopBreak_unpackLoop ht _, ⟨fun h => ?_, fun h => ?_⟩, canonical_iff_exists⟩
  · exact canonical_iff_exists.2 ⟨stringFromCustomBase36Openssl t, h⟩
  · obtain ⟨s, rfl⟩ := canonical_iff_exists.1 h
    rw [stringFromCustomBase36Openssl_stringTo]

theorem base36_canonical_me :
    (fromBase36Run (str "ME")).loopBreak = false ∧
      (stringToCustomBase36Openssl (stringFromCustomBase36Openssl (str "ME")) = str "ME" ↔
        Canonical (str "ME")) ∧
      (Canonical (str "ME") ↔ ∃ s, stringToCustomBase36Openssl s = str "ME") :=
  base36_canonical (str "ME") (by decide +kernel)

/-- A text of one digit is read to its end, as the empty string. -/
theorem base36_not_canonical :
    ¬ ∀ t : Bytes, (∀ c ∈ t, c ∈ base36Digits) →
      stringToCustomBase36Openssl (stringFromCustomBase36Openssl t) = t := by
  intro h
  exact absurd (h (str "A") (by decide +kernel)) (by decide +kernel)

end Behh
