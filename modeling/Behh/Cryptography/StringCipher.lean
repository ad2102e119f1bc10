import Behh.Cryptography.StreamCipher
import Behh.Openssl.Reference

/-!
# The string ciphers: round trip and tampering

What the four string functions of `stream_cipher` do with what they are given, under assumptions
on OpenSSL alone. Encryption followed by decryption gives back the message, with the tag cut off
where it was put. A text is accepted by GCM decryption when the bytes the tag check sees were made
by encryption; these bytes do not determine the text, because the base-36 decoder stops at the
first foreign character and drops the bits behind the last full byte.

## Main definitions

* `IsGcmOutput`: the texts that GCM encryption makes.
* `checkedBytes`: the bytes of a text that the tag check sees.
* `TamperEvident`: a text is refused unless it is an output of encryption.

## Main results

* `stringCipher_roundTrip`: the round trip of both modes.
* `tamperEvident_iff`: the texts that are tamper-evident.
-/

namespace Behh

variable {W : Type} {evp : Evp W} {enc : Bytes → Bytes} {m iv ik : Bytes}

/-! ### The round trip -/

/-- CBC encryption of a message that fits returns 1 with the text of the sealed bytes. -/
theorem aesCbcEncryptOpenssl_of_inverts (hevp : evp.CbcInverts (cStr ik) (cStr iv) enc)
    (hm : m.length + 16 < 2 ^ 31) (output : Bytes) (w : W) :
    ∃ w', aesCbcEncryptOpenssl evp m output iv ik w =
      some ((1, stringToCustomBase36Openssl (enc m)), w') := by
  obtain ⟨r, hr⟩ := hevp.seals m w (by omega)
  have hfit : (r.first ++ r.last).length ≤ m.length + 16 := by
    rw [hr, hevp.length_enc m]
    exact Alg.sealedLength_le _ _
  have hdone := plainSession_of_run r (take_cStr_toInt (by omega))
    (toInt_nonneg_iff.2 (by omega)) hfit (by omega)
  rw [aesCbcEncryptOpenssl_eq, toCode_of_done hdone, hr]
  exact ⟨_, rfl⟩

/-- CBC decryption of the text of a sealed message returns 1 with the message. -/
theorem aesCbcDecryptOpenssl_of_inverts (hevp : evp.CbcInverts (cStr ik) (cStr iv) enc)
    (hm : m.length + 16 < 2 ^ 31) (output : Bytes) (w : W) :
    ∃ w', aesCbcDecryptOpenssl evp (stringToCustomBase36Openssl (enc m)) output iv ik w =
      some ((1, m), w') := by
  have hlen := hevp.length_enc m
  have hle := Alg.sealedLength_le .aes256Cbc m.length
  have hlt := Alg.lt_sealedLength .aes256Cbc m.length
  obtain ⟨r, hr⟩ := hevp.opens m w (by omega)
  have hfit : (r.first ++ r.last).length ≤ (enc m).length + 16 := by
    rw [hr]
    omega
  have hdone := plainSession_of_run r (take_cStr_toInt (by omega))
    (toInt_nonneg_iff.2 (by omega)) hfit (by rw [hr]; omega)
  rw [aesCbcDecryptOpenssl_eq, stringFromCustomBase36Openssl_stringTo, toCode_of_done hdone, hr]
  exact ⟨_, rfl⟩

/-- GCM encryption of a message that fits returns 1 with the text of the sealed bytes. -/
theorem aesGcmEncryptOpenssl_of_inverts (hevp : evp.GcmInverts (cStr ik) (cStr iv) enc)
    (hm : m.length + 16 < 2 ^ 31) (output : Bytes) (w : W) :
    ∃ w', aesGcmEncryptOpenssl evp m output iv ik w =
      some ((1, stringToCustomBase36Openssl (enc m)), w') := by
  obtain ⟨r, hr⟩ := hevp.seals m w (by omega)
  have hfit : (r.first ++ r.last ++ r.tag.1).length ≤ m.length + 16 := by
    rw [hr, hevp.length_enc m, Alg.sealedLength]
  have hdone := gcmSealSession_of_run r (take_cStr_toInt (by omega))
    (toInt_nonneg_iff.2 (by omega)) hfit (by omega)
  rw [aesGcmEncryptOpenssl_eq, toCode_of_done hdone, hr]
  exact ⟨_, rfl⟩

/-- GCM decryption of a text returns 1 with the message, when the bytes before the last 16 are
handed over up to some position and are, with the last 16 bytes as the tag, a sealed message. -/
theorem aesGcmDecryptOpenssl_of_inverts (hevp : evp.GcmInverts (cStr ik) (cStr iv) enc)
    {t : Bytes} {k : ℕ} (hk : toInt ((stringFromCustomBase36Openssl t).length - 16) = k)
    (hint : 16 ≤ toInt (stringFromCustomBase36Openssl t).length)
    (hlen : k + 16 ≤ (stringFromCustomBase36Openssl t).length)
    (henc : enc m = (stringFromCustomBase36Openssl t).take k ++
      (stringFromCustomBase36Openssl t).drop ((stringFromCustomBase36Openssl t).length - 16))
    (output : Bytes) (w : W) :
    ∃ w', aesGcmDecryptOpenssl evp t output iv ik w = some ((1, m), w') := by
  rw [aesGcmDecryptOpenssl_eq, if_neg (not_lt.2 hint)]
  generalize stringFromCustomBase36Openssl t = b at hk hint hlen henc ⊢
  have htag : (b.drop (b.length - 16)).length = 16 := by
    rw [List.length_drop]
    omega
  have hdata : (cStr b).take (toInt (b.length - 16)).toNat = b.take k := by
    rw [hk, Int.toNat_natCast, take_cStr (by omega)]
  have hmlen : m.length = k := by
    have h := hevp.length_enc m
    rw [henc, List.length_append, htag, List.length_take, Nat.min_eq_left (by omega)] at h
    exact (Nat.add_right_cancel h).symm
  have hk31 := toInt_lt (b.length - 16)
  obtain ⟨r, hr⟩ := hevp.opens m (b.take k) _ w (by rw [List.length_take]; omega) htag henc.symm
  have hfit : (r.first ++ r.last).length ≤ b.length + 16 := by
    rw [hr]
    omega
  have hdone := gcmOpenSession_of_run r hdata (by omega) hfit (by rw [hr]; omega)
  rw [toCode_of_done hdone, hr]
  exact ⟨_, rfl⟩

/-- The CBC round trip: encryption returns 1 with a text, and decryption of it, in any later
state of the library, returns 1 with the message. -/
def CbcRoundTrip (evp : Evp W) (m iv ik : Bytes) : Prop :=
  ∀ output w, ∃ t w', aesCbcEncryptOpenssl evp m output iv ik w = some ((1, t), w') ∧
    ∀ output' v, ∃ v', aesCbcDecryptOpenssl evp t output' iv ik v = some ((1, m), v')

/-- The GCM round trip, with the place of the tag: the bytes of the text are the ciphertext, as
long as the message, and the tag, and they are cut between the two. -/
def GcmRoundTrip (evp : Evp W) (m iv ik : Bytes) : Prop :=
  ∀ output w, ∃ (r : GcmSealRun evp (cStr ik) (cStr iv) m w) (t : Bytes) (w' : W),
    aesGcmEncryptOpenssl evp m output iv ik w = some ((1, t), w') ∧
    (∀ output' v, ∃ v', aesGcmDecryptOpenssl evp t output' iv ik v = some ((1, m), v')) ∧
    (r.first ++ r.last).length = m.length ∧
    (stringFromCustomBase36Openssl t).take ((stringFromCustomBase36Openssl t).length - 16) =
      r.first ++ r.last ∧
    (stringFromCustomBase36Openssl t).drop ((stringFromCustomBase36Openssl t).length - 16) =
      r.tag.1

theorem cbcRoundTrip_of_inverts (hevp : evp.CbcInverts (cStr ik) (cStr iv) enc)
    (hm : m.length + 16 < 2 ^ 31) : CbcRoundTrip evp m iv ik := by
  intro output w
  obtain ⟨w', h⟩ := aesCbcEncryptOpenssl_of_inverts hevp hm output w
  exact ⟨_, w', h, aesCbcDecryptOpenssl_of_inverts hevp hm⟩

theorem gcmRoundTrip_of_inverts (hevp : evp.GcmInverts (cStr ik) (cStr iv) enc)
    (hm : m.length + 16 < 2 ^ 31) : GcmRoundTrip evp m iv ik := by
  intro output w
  obtain ⟨r, hr⟩ := hevp.seals m w (by omega)
  obtain ⟨w', h⟩ := aesGcmEncryptOpenssl_of_inverts hevp hm output w
  have hb : (r.first ++ r.last ++ r.tag.1).length = m.length + 16 := by
    rw [hr, hevp.length_enc m, Alg.sealedLength]
  have hlen : (r.first ++ r.last).length = m.length := by
    rwa [List.length_append, r.tag.2, Nat.add_right_cancel_iff] at hb
  rw [← hr] at h
  refine ⟨r, _, w', h, fun output' v => ?_, hlen, ?_, ?_⟩
  · refine aesGcmDecryptOpenssl_of_inverts hevp (k := m.length) ?_ ?_ ?_ ?_ output' v <;>
      rw [stringFromCustomBase36Openssl_stringTo, hb]
    · rw [Nat.add_sub_cancel, toInt_of_lt (by omega)]
    · rw [toInt_of_lt (by omega)]
      omega
    · rw [Nat.add_sub_cancel, List.take_append_drop, hr]
  · rw [stringFromCustomBase36Openssl_stringTo, hb, Nat.add_sub_cancel]
    exact List.take_left' hlen
  · rw [stringFromCustomBase36Openssl_stringTo, hb, Nat.add_sub_cancel]
    exact List.drop_left' hlen

/-- **The string ciphers round trip.** Under inverse EVP sessions, every message of fewer than
`2 ^ 31 - 16` bytes comes back in both modes. All runs have an outcome: no write goes past the
end of a vector. -/
theorem stringCipher_roundTrip {enc : Alg → Bytes → Bytes → Bytes → Bytes}
    (hevp : evp.Inverts enc) (hm : m.length < 2 ^ 31 - 16) (hiv : 16 ≤ iv.length)
    (hik : ik.length = 32) : CbcRoundTrip evp m iv ik ∧ GcmRoundTrip evp m iv ik := by
  have hkey : 32 ≤ (cStr ik).length := by rw [length_cStr]; omega
  have hnonce : 16 ≤ (cStr iv).length := by rw [length_cStr]; omega
  exact ⟨cbcRoundTrip_of_inverts (hevp.cbc _ _ hkey hnonce) (by omega),
    gcmRoundTrip_of_inverts (hevp.gcm _ _ hkey (by omega)) (by omega)⟩

/-- The message `"a"` under a key and an IV for which the EVP sessions agree with AES-256. -/
theorem stringCipher_roundTrip_known :
    CbcRoundTrip (Evp.ofSealing knownSealing) (str "a") (str "1111111111111111")
        (str "00000000000000000000000000000000") ∧
      GcmRoundTrip (Evp.ofSealing knownSealing) (str "a") (str "1111111111111111")
        (str "00000000000000000000000000000000") :=
  stringCipher_roundTrip inverts_knownSealing (by decide) (by decide) (by decide)

/-! ### Tampering -/

/-- `t` is a text that GCM encryption returns under this IV and key, for some message. -/
def IsGcmOutput (evp : Evp W) (iv ik t : Bytes) : Prop :=
  ∃ m output w w', aesGcmEncryptOpenssl evp m output iv ik w = some ((1, t), w')

/-- The bytes of a text that the tag check sees: those handed to the update and the last 16. A
text of fewer than 16 bytes, counted as an `int`, is refused before that. -/
def checkedBytes (t : Bytes) : Option Bytes :=
  let b := stringFromCustomBase36Openssl t
  if toInt b.length < 16 then none
  else some (b.take (toInt (b.length - 16)).toNat ++ b.drop (b.length - 16))

/-- A text other than the output for some message, and no output itself, is not accepted. -/
def TamperEvident (evp : Evp W) (iv ik t' : Bytes) : Prop :=
  ∀ m output w t w', aesGcmEncryptOpenssl evp m output iv ik w = some ((1, t), w') →
    t' ≠ t → ¬ IsGcmOutput evp iv ik t' →
    ∀ output' v, ∃ code out v', aesGcmDecryptOpenssl evp t' output' iv ik v =
      some ((code, out), v') ∧ code ≠ 1

/-- The outputs of encryption are the texts of the sealed messages that fit. -/
theorem isGcmOutput_iff [Nonempty W] (hevp : evp.GcmInverts (cStr ik) (cStr iv) enc)
    {t : Bytes} :
    IsGcmOutput evp iv ik t ↔
      ∃ m, m.length + 16 < 2 ^ 31 ∧ stringToCustomBase36Openssl (enc m) = t := by
  constructor
  · rintro ⟨m, output, w, w', h⟩
    rw [aesGcmEncryptOpenssl_eq] at h
    obtain ⟨ctx, v, total, w₁, hdone, rfl⟩ := done_of_toCode h
    obtain ⟨hinl, r, -, -, rfl, rfl, hint⟩ := run_of_gcmSealSession hdone
    -- What is sealed is what the update was given, not always the whole message.
    have hm' : ((cStr m).take (toInt m.length).toNat).length < 2 ^ 31 := by
      have hlt := toInt_lt m.length
      rw [List.length_take]
      omega
    generalize (cStr m).take (toInt m.length).toNat = m' at r hm'
    obtain ⟨r', hr'⟩ := hevp.seals m' w hm'
    obtain rfl := Subsingleton.elim r r'
    rw [hr'] at hint ⊢
    rw [hevp.length_enc m', Alg.sealedLength] at hint
    exact ⟨m', hint, by rw [take_written]⟩
  · rintro ⟨m, hm, rfl⟩
    obtain ⟨w⟩ := ‹Nonempty W›
    obtain ⟨w', h⟩ := aesGcmEncryptOpenssl_of_inverts hevp hm [] w
    exact ⟨m, [], w, w', h⟩

/-- The tag check sees all the bytes of a text that encryption made. -/
theorem checkedBytes_stringTo {b : Bytes} (h16 : 16 ≤ b.length) (hint : b.length < 2 ^ 31) :
    checkedBytes (stringToCustomBase36Openssl b) = some b := by
  rw [checkedBytes, stringFromCustomBase36Openssl_stringTo]
  rw [if_neg (by rw [toInt_of_lt hint]; omega), toInt_of_lt (by omega), Int.toNat_natCast,
    List.take_append_drop]

/-- A text whose checked bytes are a sealed message is accepted, whatever else is in it. -/
theorem accepted_of_checkedBytes (hevp : evp.GcmInverts (cStr ik) (cStr iv) enc) {t' : Bytes}
    (h : checkedBytes t' = some (enc m)) (output : Bytes) (w : W) :
    ∃ w', aesGcmDecryptOpenssl evp t' output iv ik w = some ((1, m), w') := by
  rw [checkedBytes] at h
  split_ifs at h with h16
  have hint := not_lt.1 h16
  have hnonneg := toInt_nonneg_iff.1 (show 0 ≤ toInt (stringFromCustomBase36Openssl t').length by
    omega)
  have hmod : 16 ≤ (stringFromCustomBase36Openssl t').length % 2 ^ 32 := by
    have hnat := toNat_toInt (toInt_nonneg_iff.2 hnonneg)
    omega
  have hk := toInt_nonneg_iff.2 (show ((stringFromCustomBase36Openssl t').length - 16) % 2 ^ 32 <
    2 ^ 31 by omega)
  have hle := toInt_toNat_le ((stringFromCustomBase36Openssl t').length - 16)
  exact aesGcmDecryptOpenssl_of_inverts hevp (Int.toNat_of_nonneg hk).symm hint (by omega)
    (Option.some_inj.1 h).symm output w

/-- A text whose checked bytes are not sealed is refused. -/
theorem refused_of_checkedBytes (hideal : evp.TagIdeal (cStr ik) (cStr iv) enc) {t' : Bytes}
    (h : ∀ b, checkedBytes t' = some b → ∀ m, enc m ≠ b) (output : Bytes) (w : W) :
    ∃ code out w', aesGcmDecryptOpenssl evp t' output iv ik w = some ((code, out), w') ∧
      code ≠ 1 := by
  rw [aesGcmDecryptOpenssl_eq]
  rw [checkedBytes] at h
  generalize stringFromCustomBase36Openssl t' = b at h ⊢
  by_cases h16 : toInt b.length < 16
  · rw [if_pos h16]
    exact ⟨-1, output, w, rfl, by decide⟩
  · simp only [if_neg h16, Option.some.injEq, forall_eq'] at h ⊢
    have hle := toInt_toNat_le (b.length - 16)
    have hdata : (cStr b).take (toInt (b.length - 16)).toNat =
        b.take (toInt (b.length - 16)).toNat := take_cStr (by omega)
    have h16' := toInt_toNat_le b.length
    have hnone : GcmOpenRun evp (cStr ik) (cStr iv)
        ((cStr b).take (toInt (b.length - 16)).toNat) (b.drop (b.length - 16)) w → False := by
      intro r
      obtain ⟨m, hm⟩ := hideal.opens_only _ _ _ (by rw [List.length_drop]; omega) r
      rw [hdata] at hm
      exact h m hm
    have hfirst : ∀ r : Session evp .decrypt .aes256Gcm (cStr ik) (cStr iv)
        ((cStr b).take (toInt (b.length - 16)).toNat) w, r.first.length ≤ b.length + 16 := by
      intro r
      refine (hideal.first_le _ _ r).trans ?_
      rw [hdata, List.length_take]
      omega
    obtain ⟨e, w', he, hne⟩ := gcmOpenSession_of_no_run hnone hfirst
    exact toCode_of_not_done he hne

/-- When the checked bytes are sealed and are not what the text stands for, the text is neither
an output of encryption nor refused. -/
theorem not_tamperEvident_of_checkedBytes [Nonempty W]
    (hevp : evp.GcmInverts (cStr ik) (cStr iv) enc) {t' : Bytes}
    (h : checkedBytes t' = some (enc m)) (hne : stringToCustomBase36Openssl (enc m) ≠ t') :
    ¬ TamperEvident evp iv ik t' := by
  intro hevident
  have hout : ¬ IsGcmOutput evp iv ik t' := by
    rw [isGcmOutput_iff hevp]
    rintro ⟨m', hm', rfl⟩
    have hlen := hevp.length_enc m'
    rw [Alg.sealedLength] at hlen
    rw [checkedBytes_stringTo (by omega) (by omega), Option.some_inj] at h
    exact hne (by rw [h])
  obtain ⟨w⟩ := ‹Nonempty W›
  obtain ⟨w₁, henc⟩ := aesGcmEncryptOpenssl_of_inverts (m := []) hevp (by decide) [] w
  have hne' : t' ≠ stringToCustomBase36Openssl (enc []) := by
    rintro rfl
    exact hout ⟨[], [], w, w₁, henc⟩
  obtain ⟨w₂, hdec⟩ := accepted_of_checkedBytes hevp h [] w
  obtain ⟨code, out, v', hrun, hcode⟩ := hevident _ _ _ _ _ henc hne' hout [] w
  rw [hdec] at hrun
  exact hcode (congrArg (fun r => r.1.1) (Option.some_inj.1 hrun)).symm

/-- **Which texts are tamper-evident.** Under inverse sessions and an ideal tag check, a text is
refused unless encryption makes it exactly when it is the text of the bytes that the tag check
sees, or these bytes are not sealed under this key and IV. All other texts that share their
checked bytes with an output of encryption are accepted in its place. -/
theorem tamperEvident_iff [Nonempty W] (hevp : evp.GcmInverts (cStr ik) (cStr iv) enc)
    (hideal : evp.TagIdeal (cStr ik) (cStr iv) enc) (t' : Bytes) :
    TamperEvident evp iv ik t' ↔
      ∀ b, checkedBytes t' = some b → stringToCustomBase36Openssl b = t' ∨ ∀ m, enc m ≠ b := by
  constructor
  · intro hevident b hb
    by_contra hnot
    rw [not_or, not_forall] at hnot
    obtain ⟨hne, m, hm⟩ := hnot
    obtain rfl := not_not.1 hm
    exact not_tamperEvident_of_checkedBytes hevp hb hne hevident
  · intro h m output w t w' _ _ hout
    refine refused_of_checkedBytes hideal fun b hb m' hm' => ?_
    subst hm'
    -- A sealed text in canonical form is an output of encryption.
    rcases h _ hb with hcanon | hnot
    · refine hout ((isGcmOutput_iff hevp).2 ⟨m', ?_, hcanon⟩)
      have hlen := hevp.length_enc m'
      rw [Alg.sealedLength] at hlen
      rw [checkedBytes, ← hcanon, stringFromCustomBase36Openssl_stringTo] at hb
      split_ifs at hb with h16
      have hnonneg := toInt_nonneg_iff.1 (show 0 ≤ toInt (enc m').length by omega)
      have hlt := toInt_lt ((enc m').length - 16)
      have hb' := congrArg List.length (Option.some_inj.1 hb)
      rw [List.length_append, List.length_take, List.length_drop] at hb'
      omega
    · exact hnot m' rfl

/-- A text of foreign characters only, which decodes to too few bytes for a tag. -/
theorem tamperEvident_foreign :
    TamperEvident (Evp.ofSealing knownSealing) (str "1111111111111111")
      (str "00000000000000000000000000000000") (str "!") :=
  have : Nonempty Slot := ⟨.aes256Gcm, [], [], [], []⟩
  (tamperEvident_iff (inverts_knownSealing.gcm _ _ (by decide) (by decide))
    (Evp.tagIdeal_ofSealing authentic_knownSealing _ _) _).2 fun b hb => by
      have hnone : checkedBytes (str "!") = none := by decide +kernel
      simp [hnone] at hb

/-- An output of encryption with a foreign character behind it is accepted. -/
theorem not_tamperEvident_append :
    ¬ TamperEvident (Evp.ofSealing knownSealing) (str "1111111111111111")
      (str "00000000000000000000000000000000")
      (stringToCustomBase36Openssl (knownCiphertext .aes256Gcm) ++ str "!") := by
  have hgcm := inverts_knownSealing.gcm (cStr (str "00000000000000000000000000000000"))
    (cStr (str "1111111111111111")) (by decide) (by decide)
  have : Nonempty Slot := ⟨.aes256Gcm, [], [], [], []⟩
  refine not_tamperEvident_of_checkedBytes hgcm (m := str "a") ?_ ?_ <;> rw [enc_knownSealing]
  · decide +kernel
  · decide +kernel

end Behh
