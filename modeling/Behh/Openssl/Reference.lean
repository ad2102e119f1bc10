import Behh.Openssl.Evp

/-!
# Sealings with the lengths of AES

Two families of sealings for `Evp.ofSealing`, which show what the assumptions on OpenSSL allow.

`markedSealing v` marks the end of a message by as many bytes as AES adds to it, and no mark is
the byte `v`. `knownSealing` is such a sealing with the ciphertexts renamed so that it agrees
with AES-256 on one message: `"a"` under the key `"0…0"` and the IV `"1…1"`.

## Main definitions

* `markedSealing`, `knownSealing`

## Main results

* `inverts_markedSealing`, `inverts_knownSealing`: the assumptions hold of both.
-/

namespace Behh

/-- The number of bytes that encryption adds to `n` bytes. -/
def Alg.gap (alg : Alg) (n : ℕ) : ℕ := alg.sealedLength n - n

theorem Alg.gap_pos (alg : Alg) (n : ℕ) : 0 < alg.gap n :=
  Nat.sub_pos_of_lt (alg.lt_sealedLength n)

theorem Alg.gap_le (alg : Alg) (n : ℕ) : alg.gap n ≤ 16 := by
  rw [Alg.gap]
  exact Nat.sub_le_iff_le_add'.2 (alg.sealedLength_le n)

/-- The mark of `g` added bytes, counted from `v` on. -/
def markFrom (v : UInt8) (g : ℕ) : UInt8 := v + UInt8.ofNat g

theorem markFrom_inj {v : UInt8} {g g' : ℕ} (hg : g ≤ 16) (hg' : g' ≤ 16)
    (h : markFrom v g = markFrom v g') : g = g' := by
  have hnat : (UInt8.ofNat g).toNat = (UInt8.ofNat g').toNat :=
    congrArg UInt8.toNat (UInt8.add_right_inj v |>.1 h)
  rwa [UInt8.toNat_ofNat', UInt8.toNat_ofNat', Nat.mod_eq_of_lt (by omega),
    Nat.mod_eq_of_lt (by omega)] at hnat

theorem markFrom_ne {v : UInt8} {g : ℕ} (hpos : 0 < g) (hg : g ≤ 16) : markFrom v g ≠ v := by
  intro h
  have hzero : markFrom v g = markFrom v 0 := by
    rw [h, markFrom]
    exact (UInt8.add_zero v).symm
  exact hpos.ne' (markFrom_inj hg (Nat.zero_le _) hzero)

/-- Sealing by marks that are not `v`, with the lengths of AES. -/
def markedSealing (v : UInt8) (alg : Alg) (_ _ : Bytes) : Sealing UInt8 :=
  Sealing.marked alg.gap (markFrom v) alg.gap_pos fun n k h =>
    markFrom_inj (alg.gap_le n) (alg.gap_le k) h

theorem length_enc_markedSealing (v : UInt8) (alg : Alg) (key iv m : Bytes) :
    ((markedSealing v alg key iv).enc m).length = alg.sealedLength m.length := by
  rw [markedSealing, Sealing.length_enc_marked, Alg.gap,
    Nat.add_sub_cancel' (alg.lt_sealedLength _).le]

theorem inverts_markedSealing (v : UInt8) :
    (Evp.ofSealing (markedSealing v)).Inverts fun alg key iv => (markedSealing v alg key iv).enc :=
  Evp.inverts_ofSealing (length_enc_markedSealing v)

/-- Sealing by marks works with pointers to objects of any length. -/
theorem invertsAt_markedSealing (v : UInt8) (alg : Alg) (key iv : Bytes) :
    (Evp.ofSealing (markedSealing v)).InvertsAt key iv
      (markedSealing v alg (key.take 32) (iv.take alg.ivLength)).enc alg :=
  Evp.invertsAt_ofSealing (length_enc_markedSealing v) key iv alg

theorem authentic_markedSealing (v : UInt8) (alg : Alg) (key iv : Bytes) :
    (markedSealing v alg key iv).Authentic := Sealing.authentic_marked

theorem markFrom_gap_ne (v : UInt8) (alg : Alg) (n : ℕ) : markFrom v (alg.gap n) ≠ v :=
  markFrom_ne (alg.gap_pos n) (alg.gap_le n)

theorem count_enc_markedSealing (v : UInt8) (alg : Alg) (key iv m : Bytes) :
    ((markedSealing v alg key iv).enc m).count v = m.count v :=
  Sealing.count_enc_marked (markFrom_gap_ne v alg) m

/-- The AES-256 ciphertext of `"a"` under the key `"0…0"` and the IV `"1…1"`, in CBC mode with
its padding and in GCM mode with its tag. -/
def knownCiphertext : Alg → Bytes
  | .aes256Cbc => [0x24, 0xbe, 0x12, 0xda, 0x1a, 0xac, 0x78, 0x33, 0x84, 0x18, 0xe4, 0x0f, 0x2f,
      0x00, 0xfb, 0xb8]
  | .aes256Gcm => [0x04, 0x58, 0xa8, 0x49, 0x05, 0xf9, 0x31, 0x89, 0xbc, 0x4f, 0x72, 0x22, 0x59,
      0xd7, 0xb0, 0xcd, 0xe0]

/-- A sealing that agrees with AES-256 on `"a"`. -/
def knownSealing (alg : Alg) (key iv : Bytes) : Sealing UInt8 :=
  (markedSealing 0 alg key iv).relabel
    (Equiv.swap ((markedSealing 0 alg key iv).enc (str "a")) (knownCiphertext alg))

theorem enc_knownSealing (alg : Alg) (key iv : Bytes) :
    (knownSealing alg key iv).enc (str "a") = knownCiphertext alg :=
  Equiv.swap_apply_left _ _

theorem inverts_knownSealing :
    (Evp.ofSealing knownSealing).Inverts fun alg key iv => (knownSealing alg key iv).enc := by
  refine Evp.inverts_ofSealing fun alg key iv m => ?_
  rw [knownSealing, Sealing.length_enc_relabel_swap, length_enc_markedSealing]
  rw [length_enc_markedSealing]
  cases alg <;> rfl

theorem authentic_knownSealing (alg : Alg) (key iv : Bytes) :
    (knownSealing alg key iv).Authentic :=
  Sealing.authentic_relabel Sealing.authentic_marked _

end Behh
