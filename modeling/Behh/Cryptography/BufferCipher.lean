import Behh.Cryptography.StreamCipher

/-!
# The buffer ciphers

What the four buffer functions of `stream_cipher` do with one buffer. Under inverse EVP sessions
encryption seals a buffer that fits and decryption opens it again. Conversely a buffer that
encryption returns seals what the update was given: the whole buffer, unless its length is not
an `int`.

## Main definitions

* `BufferCipher`, `Ciphers`: the shape of the four functions.
* `Evp.ciphers`: the four functions by direction and mode.

## Main results

* `ciphers_encrypt_of_inverts`, `ciphers_decrypt_of_inverts`: sealing and opening.
* `ciphers_encrypt_eq_some`, `ciphers_decrypt_eq_some`: what a returned buffer is.
-/

namespace Behh

/-- A per-chunk cipher: a buffer, the IV buffer and the key buffer; `none` at an error exit. -/
abbrev BufferCipher (W : Type) : Type := Bytes → Bytes → Bytes → Prog W (Option Bytes)

/-- Per-chunk ciphers for both directions and modes. -/
abbrev Ciphers (W : Type) : Type := Dir → Alg → BufferCipher W

variable {W : Type}

/-- The buffer functions of the repository. -/
def Evp.ciphers (evp : Evp W) : Ciphers W
  | .encrypt, .aes256Cbc => aesCbcEncryptToBufferOpenssl evp
  | .encrypt, .aes256Gcm => aesGcmEncryptToBufferOpenssl evp
  | .decrypt, .aes256Cbc => aesCbcDecryptToBufferOpenssl evp
  | .decrypt, .aes256Gcm => aesGcmDecryptToBufferOpenssl evp

variable {evp : Evp W} {enc : Bytes → Bytes} {alg : Alg} {c m iv ik b : Bytes} {w w' : W}

/-! ### Sealing and opening -/

/-- Encryption of a buffer that fits returns what it is sealed to. -/
theorem ciphers_encrypt_of_inverts (hevp : evp.InvertsAt ik iv enc alg)
    (hm : alg.sealedLength m.length < 2 ^ 31) (w : W) :
    ∃ w', evp.ciphers .encrypt alg m iv ik w = some (some (enc m), w') := by
  have hlt := alg.lt_sealedLength m.length
  have hle := alg.sealedLength_le m.length
  have hlen := hevp.length_enc m
  have hinl : 0 ≤ toInt m.length := toInt_nonneg_iff.2 (by omega)
  have hdata := take_toInt (show m.length < 2 ^ 31 by omega)
  cases alg with
  | aes256Cbc =>
    obtain ⟨r, hr⟩ := Evp.CbcInverts.seals hevp m w (by omega)
    have hdone := plainSession_of_run r hdata hinl (show _ ≤ m.length + 16 by rw [hr]; omega)
      (by rw [hr]; omega)
    rw [Evp.ciphers, aesCbcEncryptToBufferOpenssl_eq, toBuffer_of_done hdone, hr]
    exact ⟨_, rfl⟩
  | aes256Gcm =>
    obtain ⟨r, hr⟩ := Evp.GcmInverts.seals hevp m w (by omega)
    have hdone := gcmSealSession_of_run r hdata hinl (show _ ≤ m.length + 16 by rw [hr]; omega)
      (by rw [hr]; omega)
    rw [Evp.ciphers, aesGcmEncryptToBufferOpenssl_eq, toBuffer_of_done hdone, hr]
    exact ⟨_, rfl⟩

/-- Decryption of a sealed buffer returns what was sealed. -/
theorem ciphers_decrypt_of_inverts (hevp : evp.InvertsAt ik iv enc alg)
    (hm : alg.sealedLength m.length < 2 ^ 31) (w : W) :
    ∃ w', evp.ciphers .decrypt alg (enc m) iv ik w = some (some m, w') := by
  have hlt := alg.lt_sealedLength m.length
  have hlen := hevp.length_enc m
  cases alg with
  | aes256Cbc =>
    obtain ⟨r, hr⟩ := Evp.CbcInverts.opens hevp m w (by omega)
    rw [Evp.ciphers, aesCbcDecryptToBufferOpenssl_eq]
    generalize enc m = b at r hr hlen
    have hdone := plainSession_of_run r (take_toInt (by omega)) (toInt_nonneg_iff.2 (by omega))
      (show _ ≤ b.length by rw [hr]; omega) (by rw [hr]; omega)
    rw [toBuffer_of_done hdone, hr]
    exact ⟨_, rfl⟩
  | aes256Gcm =>
    rw [Alg.sealedLength] at hlen hm
    have hopens := Evp.GcmInverts.opens hevp m
    rw [Evp.ciphers, aesGcmDecryptToBufferOpenssl_eq]
    generalize enc m = b at hopens hlen
    rw [if_neg (by rw [toInt_of_lt (by omega)]; omega)]
    obtain ⟨r, hr⟩ := hopens (b.take m.length) (b.drop (b.length - 16)) w
      (by rw [List.length_take]; omega) (by rw [List.length_drop]; omega)
      (by rw [hlen, Nat.add_sub_cancel, List.take_append_drop])
    have hdone := gcmOpenSession_of_run r
      (show b.take (toInt (b.length - 16)).toNat = b.take m.length by
        rw [hlen, Nat.add_sub_cancel, toInt_of_lt (by omega), Int.toNat_natCast])
      (toInt_nonneg_iff.2 (by omega)) (show _ ≤ b.length by rw [hr]; omega) (by rw [hr]; omega)
    rw [toBuffer_of_done hdone, hr]
    exact ⟨_, rfl⟩

/-! ### What a returned buffer is -/

/-- What encryption returns seals a part of the buffer, and its length is an `int`. -/
theorem ciphers_encrypt_eq_some (hevp : evp.InvertsAt ik iv enc alg)
    (h : evp.ciphers .encrypt alg c iv ik w = some (some b, w')) :
    ∃ k, b = enc (c.take k) ∧ b.length < 2 ^ 31 := by
  refine ⟨(toInt c.length).toNat, ?_⟩
  have hdata : (c.take (toInt c.length).toNat).length < 2 ^ 31 := by
    have hlt := toInt_lt c.length
    rw [List.length_take]
    omega
  cases alg with
  | aes256Cbc =>
    rw [Evp.ciphers, aesCbcEncryptToBufferOpenssl_eq] at h
    obtain ⟨ctx, v, total, w₁, hdone, rfl⟩ := done_of_toBuffer h
    obtain ⟨-, r, -, -, rfl, rfl, hint⟩ := run_of_plainSession hdone
    obtain ⟨r', hr'⟩ := Evp.CbcInverts.seals hevp _ w hdata
    obtain rfl := Subsingleton.elim r r'
    rw [resize_written]
    exact ⟨hr', hint⟩
  | aes256Gcm =>
    rw [Evp.ciphers, aesGcmEncryptToBufferOpenssl_eq] at h
    obtain ⟨ctx, v, total, w₁, hdone, rfl⟩ := done_of_toBuffer h
    obtain ⟨-, r, -, -, rfl, rfl, hint⟩ := run_of_gcmSealSession hdone
    obtain ⟨r', hr'⟩ := Evp.GcmInverts.seals hevp _ w hdata
    obtain rfl := Subsingleton.elim r r'
    rw [resize_written]
    exact ⟨hr', hint⟩

/-- What decryption by an implementation returns is the opening of a part of the buffer, and of
the whole buffer when its length is an `int`. -/
theorem ciphers_decrypt_eq_some {S : Alg → Bytes → Bytes → Sealing UInt8} {w w' : Slot}
    (h : (Evp.ofSealing S).ciphers .decrypt alg c iv ik w = some (some m, w')) :
    ∃ p, p.Sublist c ∧ (c.length < 2 ^ 31 → p = c) ∧
      (S alg (ik.take 32) (iv.take alg.ivLength)).dec p = some m := by
  cases alg with
  | aes256Cbc =>
    rw [Evp.ciphers, aesCbcDecryptToBufferOpenssl_eq] at h
    obtain ⟨ctx, v, total, w₁, hdone, rfl⟩ := done_of_toBuffer h
    obtain ⟨-, r, -, -, rfl, rfl, -⟩ := run_of_plainSession hdone
    rw [resize_written]
    exact ⟨_, List.take_sublist _ _, take_toInt, Evp.dec_of_plainRun r⟩
  | aes256Gcm =>
    rw [Evp.ciphers, aesGcmDecryptToBufferOpenssl_eq] at h
    split_ifs at h with h16
    · simp at h
    obtain ⟨ctx, v, total, w₁, hdone, rfl⟩ := done_of_toBuffer h
    obtain ⟨-, r, -, -, rfl, rfl, -⟩ := run_of_gcmOpenSession hdone
    rw [resize_written]
    refine ⟨_, ?_, fun hlt => ?_, Evp.dec_of_gcmOpenRun r⟩
    · have htake : (c.take (toInt (c.length - 16)).toNat).Sublist (c.take (c.length - 16)) :=
        List.take_sublist_take_left (toInt_toNat_le _)
      have hsub := htake.append_right (c.drop (c.length - 16))
      rwa [List.take_append_drop] at hsub
    · rw [toInt_of_lt (by omega), Int.toNat_natCast, List.take_append_drop]

end Behh
