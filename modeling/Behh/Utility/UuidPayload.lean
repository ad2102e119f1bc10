import Behh.Utility.Uuid
import Mathlib.Algebra.BigOperators.Fin
import Mathlib.Data.Set.Card
import Mathlib.SetTheory.Cardinal.Finite

/-!
# The payload of a random UUID

How many texts `generate::uuid::v4` can return. All 16 bytes are drawn from one engine, and the
engine is seeded with one value of 32 bits. A version 4 UUID leaves 122 bits to its payload.

## Main definitions

* `IsV4`: the arrays with the version and the variant.
* `v4Texts`, `returnedTexts`: their texts, and the texts that are returned.

## Main results

* `v4Texts_eq_range`: the stamp alone takes nothing away.
* `ncard_v4Texts`, `ncard_returnedTexts_le`: the two numbers.
* `v4_payload`: the texts that are returned are few.
-/

namespace Behh.Uuid

/-- An array with the version 4 and the variant of RFC 4122. -/
structure IsV4 (bytes : Array16) : Prop where
  /-- The high half of byte 6. -/
  version : (bytes 6).toNat / 16 = 4
  /-- The two top bits of byte 8. -/
  variant : (bytes 8).toNat / 64 = 2

/-- The texts of these arrays. -/
def v4Texts : Set Bytes := text '' {bytes | IsV4 bytes}

/-- The texts that `v4` returns, for the values of `std::random_device`. -/
def returnedTexts (engine : Engine) : Set Bytes :=
  Set.range fun rand => v4 (randomBytes engine rand)

/-! ### The stamp -/

theorem isV4_v4Bytes (bytes : Array16) : IsV4 (v4Bytes bytes) := by
  have hvariant : ∀ x : UInt8, ((x &&& 0x3F) ||| 0x80).toNat / 64 = 2 :=
    forall_byte (by decide +kernel)
  exact ⟨hasVersion_v4.div_eq (by decide) (bytes 6), hvariant (bytes 8)⟩

/-- An array with the version and the variant is left as it is. -/
theorem v4Bytes_eq_self {bytes : Array16} (h : IsV4 bytes) : v4Bytes bytes = bytes := by
  have hversion : ∀ x : UInt8, x.toNat / 16 = 4 → (x &&& 0x0F) ||| 0x40 = x :=
    forall_byte (by decide +kernel)
  have hvariant : ∀ x : UInt8, x.toNat / 64 = 2 → (x &&& 0x3F) ||| 0x80 = x :=
    forall_byte (by decide +kernel)
  rw [v4Bytes]
  simp only [hversion _ h.version, Function.update_eq_self, hvariant _ h.variant]

/-- **The stamp alone takes nothing away.** From all arrays of 16 bytes it makes all texts. -/
theorem v4Texts_eq_range : v4Texts = Set.range v4 := by
  ext u
  constructor
  · rintro ⟨bytes, hbytes, rfl⟩
    exact ⟨bytes, by rw [v4, v4Bytes_eq_self hbytes]⟩
  · rintro ⟨bytes, rfl⟩
    exact ⟨v4Bytes bytes, isV4_v4Bytes bytes, rfl⟩

theorem returnedTexts_subset (engine : Engine) : returnedTexts engine ⊆ v4Texts := by
  rw [v4Texts_eq_range]
  exact Set.range_comp_subset_range (randomBytes engine) v4

/-! ### Counting -/

/-- A byte by its number. -/
def byteEquiv : UInt8 ≃ Fin 256 where
  toFun := UInt8.toFin
  invFun := UInt8.ofFin
  left_inv _ := rfl
  right_inv _ := rfl

/-- A value of 32 bits by its number. -/
def wordEquiv : UInt32 ≃ Fin (2 ^ 32) where
  toFun := UInt32.toFin
  invFun := UInt32.ofFin
  left_inv _ := rfl
  right_inv _ := rfl

instance finiteByte : Finite UInt8 := Finite.of_equiv _ byteEquiv.symm

instance finiteWord : Finite UInt32 := Finite.of_equiv _ wordEquiv.symm

theorem ncard_returnedTexts_le (engine : Engine) : (returnedTexts engine).ncard ≤ 2 ^ 32 := by
  rw [returnedTexts, ← Set.image_univ]
  refine (Set.ncard_image_le Set.finite_univ).trans ?_
  rw [Set.ncard_univ, Nat.card_congr wordEquiv, Nat.card_fin]

/-- The condition on one byte of an array with the version and the variant. -/
def V4Byte (i : Fin 16) (x : UInt8) : Prop :=
  (i.1 = 6 → x.toNat / 16 = 4) ∧ (i.1 = 8 → x.toNat / 64 = 2)

theorem isV4_iff {bytes : Array16} : IsV4 bytes ↔ ∀ i, V4Byte i (bytes i) := by
  constructor
  · rintro ⟨hversion, hvariant⟩ i
    refine ⟨fun h6 => ?_, fun h8 => ?_⟩
    · obtain rfl : i = 6 := Fin.ext h6
      exact hversion
    · obtain rfl : i = 8 := Fin.ext h8
      exact hvariant
  · exact fun h => ⟨(h 6).1 rfl, (h 8).2 rfl⟩

theorem card_v4Byte (i : Fin 16) :
    Nat.card {x // V4Byte i x} = if i.1 = 6 then 16 else if i.1 = 8 then 64 else 256 := by
  have hcard : ∀ q : ℕ → Prop, (∀ x, V4Byte i x ↔ q x.toNat) →
      Nat.card {x // V4Byte i x} = Nat.card {n : Fin 256 // q n} := fun q hq =>
    Nat.card_congr (byteEquiv.subtypeEquiv hq)
  split_ifs with h6 h8
  · rw [hcard (· / 16 = 4) fun x => ⟨fun h => h.1 h6, fun h => ⟨fun _ => h, fun h8 => by omega⟩⟩,
      Nat.card_eq_fintype_card]
    decide
  · rw [hcard (· / 64 = 2) fun x => ⟨fun h => h.2 h8, fun h => ⟨fun h6' => absurd h6' h6,
      fun _ => h⟩⟩, Nat.card_eq_fintype_card]
    decide
  · rw [hcard (fun _ => True) fun x => iff_true_intro ⟨fun h6' => absurd h6' h6,
      fun h8' => absurd h8' h8⟩, Nat.card_eq_fintype_card]
    decide +kernel

/-- There are 122 bits of payload. -/
theorem ncard_v4Texts : v4Texts.ncard = 2 ^ 122 := by
  have harrays : Nat.card {bytes | IsV4 bytes} = Nat.card (∀ i, {x // V4Byte i x}) :=
    Nat.card_congr ((Equiv.subtypeEquivRight fun _ => isV4_iff).trans Equiv.subtypePiEquivPi)
  rw [v4Texts, Set.ncard_image_of_injective _ text_injective, ← Nat.card_coe_set_eq, harrays,
    Nat.card_pi]
  simp only [card_v4Byte]
  decide

theorem finite_v4Texts : v4Texts.Finite := (Set.toFinite _).image text

theorem le_ncard_sdiff (engine : Engine) :
    2 ^ 122 - 2 ^ 32 ≤ (v4Texts \ returnedTexts engine).ncard := by
  have hle := ncard_returnedTexts_le engine
  rw [Set.ncard_sdiff (returnedTexts_subset engine) (finite_v4Texts.subset
    (returnedTexts_subset engine)), ncard_v4Texts]
  omega

/-- **The payload.** Whatever engine is used: `v4` returns texts of version 4 only, and the stamp
would leave all `2 ^ 122` of them, but no more than `2 ^ 32` are returned for some value of
`std::random_device`, and the others for none. -/
theorem v4_payload (engine : Engine) :
    returnedTexts engine ⊆ v4Texts ∧ v4Texts = Set.range v4 ∧ v4Texts.ncard = 2 ^ 122 ∧
      (returnedTexts engine).ncard ≤ 2 ^ 32 ∧
      2 ^ 122 - 2 ^ 32 ≤ (v4Texts \ returnedTexts engine).ncard :=
  ⟨returnedTexts_subset engine, v4Texts_eq_range, ncard_v4Texts, ncard_returnedTexts_le engine,
    le_ncard_sdiff engine⟩

/-- No engine reaches every payload. -/
theorem not_v4_reaches_all : ¬ ∃ engine : Engine, ∀ bytes, IsV4 bytes →
    ∃ rand, v4 (randomBytes engine rand) = text bytes := by
  rintro ⟨engine, h⟩
  have hempty : v4Texts \ returnedTexts engine = ∅ := by
    refine Set.sdiff_eq_empty.2 ?_
    rintro _ ⟨bytes, hbytes, rfl⟩
    exact h bytes hbytes
  have hle := le_ncard_sdiff engine
  rw [hempty, Set.ncard_empty] at hle
  exact absurd hle (by decide)

end Behh.Uuid
