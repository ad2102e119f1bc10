import Behh.Utility.AlignedRoundTrip

/-!
# Authenticity of encrypted files

In GCM mode every chunk is sealed on its own, with the same key and IV and without its position,
and `file::decrypt` writes what the chunks open to, or nothing for a chunk that does not open, and
returns 1 unless a write fails. Under an ideal tag check it therefore accepts every file, a
rearrangement of encrypted chunks like anything else, and full chunks that are rearranged open to
the rearranged plaintext. What is protected is each chunk, not the sequence.

A file whose encryption has a chunk at all is not protected: its chunks can be removed. Nothing
can be rearranged only where encryption returns no chunk. Decryption accepts nothing where it has no
scratch buffer for chunks that are longer by a tag.

## Main definitions

* `WholeFileAuthentic`: no rearrangement of the encrypted chunks is accepted.
* `NothingSealed`: encryption returns no chunk, or has no outcome.
* `ChunkAuthentic`: every rearrangement is accepted, and opens to what was sealed.

## Main results

* `decrypt_accepts`: what decryption does with any file.
* `wholeFileAuthentic_iff`: the files that are protected.
* `chunkAuthentic`: the chunks are protected in every file.
-/

namespace Behh

variable {W : Type} {evp : Evp W} {enc : Bytes → Bytes} {n : ℕ} {iv ik f m c : Bytes} {w w' : W}

/-! ### One call -/

/-- A GCM encryption of a buffer whose length is an `int` with room for the tag: what `int` counts
of the buffer is sealed, and a negative length makes the call fail. -/
theorem ciphers_encrypt_gcm (hevp : evp.GcmInverts ik iv enc) (hm : toInt m.length + 16 < 2 ^ 31)
    (w : W) :
    ∃ w', evp.ciphers .encrypt .aes256Gcm m iv ik w =
      some (if 0 ≤ toInt m.length then some (enc (m.take (toInt m.length).toNat)) else none,
        w') := by
  have hle := toInt_toNat_le m.length
  rw [Evp.ciphers, aesGcmEncryptToBufferOpenssl_eq]
  by_cases hinl : 0 ≤ toInt m.length
  · have hlen := hevp.length_enc (m.take (toInt m.length).toNat)
    rw [Alg.sealedLength, List.length_take, Nat.min_eq_left hle] at hlen
    obtain ⟨r, hr⟩ := hevp.seals (m.take (toInt m.length).toNat) w
      (by rw [List.length_take]; omega)
    have hdone := gcmSealSession_of_run r rfl hinl (show _ ≤ m.length + 16 by rw [hr]; omega)
      (by rw [hr]; omega)
    rw [toBuffer_of_done hdone, hr, if_pos hinl]
    exact ⟨_, rfl⟩
  · obtain ⟨e, w₁, he, hne⟩ : ∃ e w₁, gcmSealSession evp ik iv m (toInt m.length)
        (m.length + 16) w = some (e, w₁) ∧ ∀ ctx v total, e ≠ .done ctx v total :=
      gcmSealSession_of_no_run (fun h => absurd h hinl) (fun h => absurd h hinl)
        fun h => absurd h hinl
    obtain ⟨v, hv⟩ := @toBuffer_of_not_done W evp _ _ _ _ he hne
    rw [hv, if_neg hinl]
    exact ⟨v, rfl⟩

/-- A GCM encryption of a buffer whose length leaves an `int` no room for the tag has no outcome:
the sum overflows. -/
theorem ciphers_encrypt_gcm_overflow (hevp : evp.GcmInverts ik iv enc)
    (hm : 2 ^ 31 ≤ toInt m.length + 16) (w : W) :
    evp.ciphers .encrypt .aes256Gcm m iv ik w = none := by
  rw [Option.eq_none_iff_forall_not_mem]
  rintro ⟨o, w'⟩ h
  have hle := toInt_toNat_le m.length
  have hlt := toInt_lt m.length
  have hlen := hevp.length_enc (m.take (toInt m.length).toNat)
  rw [Alg.sealedLength, List.length_take, Nat.min_eq_left hle] at hlen
  obtain ⟨r, hr⟩ := hevp.seals (m.take (toInt m.length).toNat) w
    (by rw [List.length_take]; omega)
  rw [Option.mem_def, Evp.ciphers, aesGcmEncryptToBufferOpenssl_eq] at h
  obtain ⟨e, w₁, hsession, -⟩ := Prog.bind_eq_some_iff.1 h
  obtain ⟨v, total, rfl⟩ := done_of_gcmSealRun r (by omega) hsession
  obtain ⟨-, r', -, -, -, htotal, hint⟩ := run_of_gcmSealSession hsession
  obtain rfl := Subsingleton.elim r r'
  rw [hr] at htotal
  omega

/-- A buffer that a GCM encryption returns is the seal of what `int` counts of the chunk, whose
length is neither negative nor too long. -/
theorem sealed_of_ciphers_encrypt_gcm (hevp : evp.GcmInverts ik iv enc)
    (h : evp.ciphers .encrypt .aes256Gcm m iv ik w = some (some c, w')) :
    0 ≤ toInt m.length ∧ toInt m.length + 16 < 2 ^ 31 ∧
      c = enc (m.take (toInt m.length).toNat) := by
  have hshort : toInt m.length + 16 < 2 ^ 31 := by
    by_contra hlong
    rw [ciphers_encrypt_gcm_overflow hevp (not_lt.1 hlong)] at h
    cases h
  obtain ⟨w₁, hcall⟩ := ciphers_encrypt_gcm hevp hshort w
  have hout := (Prod.mk.inj (Option.some_inj.1 (hcall.symm.trans h))).1
  split_ifs at hout with hpos
  exact ⟨hpos, hshort, (Option.some_inj.1 hout).symm⟩

/-- Under an ideal tag check a GCM decryption of any buffer has an outcome, and what it returns for
a buffer with a length that fits an `int` is sealed to the buffer. -/
theorem ciphers_decrypt_gcm (hevp : evp.GcmInverts ik iv enc) (hideal : evp.TagIdeal ik iv enc)
    (c : Bytes) (w : W) : ∃ o w', evp.ciphers .decrypt .aes256Gcm c iv ik w = some (o, w') ∧
      ∀ m, o = some m → c.length < 2 ^ 31 → c = enc m := by
  rw [Evp.ciphers, aesGcmDecryptToBufferOpenssl_eq]
  by_cases h16 : toInt c.length < 16
  · rw [if_pos h16]
    exact ⟨none, w, rfl, fun m h => by cases h⟩
  rw [if_neg h16]
  have hinl : 0 ≤ toInt (c.length - 16) := by
    rw [toInt] at h16 ⊢
    omega
  have hle := toInt_toNat_le (c.length - 16)
  have hlt := toInt_lt (c.length - 16)
  have htag : (c.drop (c.length - 16)).length = 16 := by
    have h16' := toInt_toNat_le c.length
    rw [List.length_drop]
    omega
  have htake : (c.take (toInt (c.length - 16)).toNat).length = (toInt (c.length - 16)).toNat := by
    rw [List.length_take]
    omega
  by_cases hrun : Nonempty (GcmOpenRun evp ik iv (c.take (toInt (c.length - 16)).toNat)
      (c.drop (c.length - 16)) w)
  · obtain ⟨r⟩ := hrun
    obtain ⟨m, hm⟩ := hideal.opens_only _ _ _ htag r
    obtain ⟨r', hr'⟩ := hevp.opens m _ _ w (by omega) htag hm.symm
    have hlen := hevp.length_enc m
    rw [hm, Alg.sealedLength, List.length_append, htake, htag] at hlen
    have hdone := gcmOpenSession_of_run r' rfl hinl (show _ ≤ c.length by rw [hr']; omega)
      (by rw [hr']; omega)
    refine ⟨_, _, toBuffer_of_done hdone, fun m' hm' hc => ?_⟩
    rw [hr', Option.some_inj] at hm'
    rw [← hm', hm, toInt_of_lt (by omega), Int.toNat_natCast, List.take_append_drop]
  · obtain ⟨e, w₁, he, hne⟩ := gcmOpenSession_of_no_run (fun r => hrun ⟨r⟩)
      fun r => (hideal.first_le _ _ r).trans (show _ ≤ c.length by omega)
    obtain ⟨v, hv⟩ := @toBuffer_of_not_done W evp _ _ _ _ he hne
    exact ⟨none, v, hv, fun m h => by cases h⟩

/-! ### What decryption accepts -/

theorem cipherAll_total {cipher : BufferCipher W}
    (h : ∀ c w, ∃ o w', cipher c iv ik w = some (o, w')) (cs : List Bytes) (w : W) :
    ∃ outs w', cipherAll cipher iv ik cs w = some (outs, w') := by
  induction cs generalizing w with
  | nil => exact ⟨[], w, cipherAll_nil w⟩
  | cons c cs ih =>
    obtain ⟨o, w₁, hc⟩ := h c w
    obtain ⟨os, w₂, hcs⟩ := ih w₁
    exact ⟨o :: os, w₂, cipherAll_cons_eq_some.2 ⟨o, w₁, os, hc, hcs, rfl⟩⟩

/-- What a chunk opens to: nothing, or a message that is sealed to the chunk. A sealed message
that is not too long is opened. -/
def OpensTo (enc : Bytes → Bytes) (c m : Bytes) : Prop :=
  (m = [] ∨ (c.length < 2 ^ 31 → c = enc m)) ∧
    ∀ m', m'.length + 16 < 2 ^ 31 → c = enc m' → m = m'

/-- **Every file is accepted.** On a disk without faults decryption returns 1, whatever the file
holds, and writes what its chunks open to: an ideal tag check refuses chunks, not files. -/
theorem decrypt_accepts (hevp : evp.GcmInverts (toBuffer ik 16) (toBuffer iv 16) enc)
    (hideal : evp.TagIdeal (toBuffer ik 16) (toBuffer iv 16) enc) (hn : IsChunkSize n) {d : Disk}
    (hd : d.Faultless) {fin fout : Path} (hne : cString fin ≠ cString fout)
    (hf : d.files (cString fin) = some c) (w : W) :
    ∃ s ms, decrypt evp.ciphers 2 fin fout iv ik n ⟨d, w⟩ = some (.ok 1, s) ∧
      s.disk.files (cString fout) = some ms.flatten ∧
      List.Forall₂ (OpensTo enc) (c.chunks n) ms := by
  have hinv : evp.InvertsAt (toBuffer ik 16) (toBuffer iv 16) enc .aes256Gcm := hevp
  obtain ⟨outs, w₁, houts⟩ := cipherAll_total (fun b w =>
    have ⟨o, w', hcall, _⟩ := ciphers_decrypt_gcm hevp hideal b w
    ⟨o, w', hcall⟩) (c.chunks n) w
  have hrun : decrypt evp.ciphers 2 fin fout iv ik n ⟨d, w⟩ = _ :=
    crypt_of_faultless hn hd hne hf .aes256Gcm iv ik w
  rw [houts] at hrun
  refine ⟨_, outs.map fun o => o.getD [], hrun, (outputDisk_spec hd _ _ _).2, ?_⟩
  refine List.forall₂_map_right_iff.2
    (forall₂_of_cipherAll (R := fun b o => OpensTo enc b (o.getD [])) ?_ houts)
  intro b w o w' hcall
  constructor
  · obtain ⟨o', w'', hcall', hopens⟩ := ciphers_decrypt_gcm hevp hideal b w
    obtain ⟨rfl, -⟩ := Prod.mk.inj (Option.some_inj.1 (hcall'.symm.trans hcall))
    cases o' with
    | none => exact Or.inl rfl
    | some m => exact Or.inr (hopens m rfl)
  · rintro m' hm' rfl
    obtain ⟨w'', hcall'⟩ := ciphers_decrypt_of_inverts hinv hm' w
    obtain ⟨rfl, -⟩ := Prod.mk.inj (Option.some_inj.1 (hcall'.symm.trans hcall))
    rfl

/-! ### Authenticity -/

/-- Let encryption of `f` with chunk size `n` return 1 and leave all that it has made of the chunks
in its output file, which then holds `c`. Whatever else than `c` is put together of encrypted
chunks, by removing, repeating and reordering them, decryption with chunk size `n + 16` does not
return 1 on it. -/
def WholeFileAuthentic (evp : Evp W) (n : ℕ) (iv ik f : Bytes) (w : W) : Prop :=
  ∀ (d : Disk) (fin mid : Path) s c, cString fin ≠ cString mid →
    d.files (cString fin) = some f →
    encrypt (recorded evp.ciphers) 2 fin mid iv ik n ⟨d, (w, [])⟩ = some (.ok 1, s) →
    s.disk.files (cString mid) = some c → c = joined (s.lib.2.map CipherCall.result) →
    ∀ cs : List Bytes, (∀ b ∈ cs, some b ∈ s.lib.2.map CipherCall.result) → cs.flatten ≠ c →
      ∀ (d' : Disk) (w' : W) (fin' fout : Path), d'.files (cString fin') = some cs.flatten →
        ∀ code s', decrypt evp.ciphers 2 fin' fout iv ik (n + 16) ⟨d', w'⟩ = some (code, s') →
          code ≠ .ok 1

/-- All chunks have lengths that are negative as an `int`, which makes their encryption fail, or
one has a length that leaves an `int` no room for the tag, so that the encryption has no
outcome. -/
def NothingSealed (n : ℕ) (f : Bytes) : Prop :=
  (∀ m ∈ f.chunks n, toInt m.length < 0) ∨ ∃ m ∈ f.chunks n, 2 ^ 31 ≤ toInt m.length + 16

/-- What encryption makes of a file none of whose chunks is too long. -/
theorem cipherAll_encrypt_gcm (hevp : evp.GcmInverts ik iv enc) {cs : List Bytes}
    (hcs : ∀ m ∈ cs, toInt m.length + 16 < 2 ^ 31) (w : W) :
    ∃ w', cipherAll (evp.ciphers .encrypt .aes256Gcm) iv ik cs w =
      some (cs.map fun m => if 0 ≤ toInt m.length then some (enc (m.take (toInt m.length).toNat))
        else none, w') := by
  have hall := cipherAll_map (g := id) cs (fun m hm w => ciphers_encrypt_gcm hevp (hcs m hm) w) w
  rwa [List.map_id] at hall

/-- Every result in the record of an encryption is the outcome of a call on a chunk, in the order of
the chunks. -/
theorem calls_of_encrypt (hn : 0 < n) {d : Disk} {fin mid : Path}
    (hne : cString fin ≠ cString mid) (hf : d.files (cString fin) = some f)
    {s : Sys (W × List CipherCall)}
    (hrun : encrypt (recorded evp.ciphers) 2 fin mid iv ik n ⟨d, (w, [])⟩ = some (.ok 1, s)) :
    List.Forall₂ (fun m o => ∃ w w', evp.ciphers .encrypt .aes256Gcm m (toBuffer iv 16)
      (toBuffer ik 16) w = some (o, w')) (f.chunks n) (s.lib.2.map CipherCall.result) := by
  obtain ⟨hlt, -, hgood⟩ := crypt_eq_one hrun
  obtain ⟨outs, w₁, houts, -, rfl⟩ :=
    (@crypt_recorded_eq_some W n evp.ciphers .encrypt .aes256Gcm ⟨hn, hlt⟩ _ _ hgood
      _ _ _ _ _ _).1 hrun
  rw [seenContent_of_ne hne hf] at houts ⊢
  rw [map_result_zipWith (length_of_cipherAll houts)]
  exact forall₂_of_cipherAll (fun m w o w' hcall => ⟨w, w', hcall⟩) houts

theorem length_le_joined {b : Bytes} {outs : List (Option Bytes)} (hb : some b ∈ outs) :
    b.length ≤ (joined outs).length := by
  have hmem : b ∈ outs.map fun o => o.getD [] := List.mem_map.2 ⟨some b, hb, rfl⟩
  exact (List.infix_of_mem_flatten hmem).length_le

/-- A file with a chunk that is sealed is not protected: all its chunks can be removed, and what is
left is read with chunks that are longer by a tag. -/
theorem not_wholeFileAuthentic (hevp : evp.GcmInverts (toBuffer ik 16) (toBuffer iv 16) enc)
    (hideal : evp.TagIdeal (toBuffer ik 16) (toBuffer iv 16) enc) (hn : 0 < n)
    (hlt : n + 16 < 2 ^ 63) (hsealed : ¬ NothingSealed n f) (w : W) :
    ¬ WholeFileAuthentic evp n iv ik f w := by
  intro h
  rw [NothingSealed] at hsealed
  push Not at hsealed
  obtain ⟨⟨m, hm, hpos⟩, hshort⟩ := hsealed
  obtain ⟨w₁, houts⟩ := cipherAll_encrypt_gcm hevp hshort w
  generalize houts' : (f.chunks n).map _ = outs at houts
  have hd := Disk.faultless_single (str "in") f
  have hf := Disk.single_files (str "in") f
  have hrun : encrypt (recorded evp.ciphers) 2 (str "in") (str "mid") iv ik n
      ⟨Disk.single (str "in") f, (w, [])⟩ = _ :=
    crypt_of_faultless ⟨hn, by omega⟩ hd (by decide) hf .aes256Gcm iv ik (w, [])
  rw [cipherAll_recorded, houts, Option.map_some, Option.map_some] at hrun
  obtain ⟨-, hmid⟩ := outputDisk_spec hd (str "in") (str "mid") outs
  have hresults := @map_result_zipWith .encrypt .aes256Gcm _ _ (length_of_cipherAll houts)
    (toBuffer iv 16) (toBuffer ik 16)
  -- The sealed chunk makes the output longer than what is left when all chunks are removed.
  have hne : ([] : List Bytes).flatten ≠ joined outs := by
    have hmem : some (enc (m.take (toInt m.length).toNat)) ∈ outs := by
      rw [← houts']
      exact List.mem_map.2 ⟨m, hm, if_pos hpos⟩
    have hle := length_le_joined hmem
    rw [hevp.length_enc, Alg.sealedLength] at hle
    intro hnil
    rw [← hnil, List.flatten_nil, List.length_nil] at hle
    omega
  obtain ⟨s', -, hdec, -⟩ := decrypt_accepts hevp hideal ⟨Nat.succ_pos (n + 15), hlt⟩
    (Disk.faultless_single (str "mid") [])
    (show cString (str "mid") ≠ cString (str "out") by decide)
    (Disk.single_files (str "mid") []) w
  exact h _ _ _ _ _ (by decide) hf hrun hmid (by rw [List.nil_append, hresults]) [] (by simp) hne
    (Disk.single (str "mid") []) w (str "mid") (str "out") (Disk.single_files _ _) (.ok 1) s'
    hdec rfl

/-- A file none of whose chunks is sealed leaves nothing to rearrange. -/
theorem wholeFileAuthentic_of_nothingSealed
    (hevp : evp.GcmInverts (toBuffer ik 16) (toBuffer iv 16) enc) (hn : 0 < n)
    (hsealed : NothingSealed n f) (w : W) : WholeFileAuthentic evp n iv ik f w := by
  intro d fin mid s c hne hf hrun _ hc cs hcs hcne
  refine absurd ?_ hcne
  have hcalls := calls_of_encrypt hn hne hf hrun
  rcases hsealed with hneg | ⟨m, hm, hlong⟩
  · -- Every call has failed: there is no chunk, and the output is empty.
    have hnone : ∀ o ∈ s.lib.2.map CipherCall.result, o = none := by
      intro o ho
      obtain ⟨m, hm, w, w', hcall⟩ := List.exists_of_forall₂_right hcalls ho
      cases o with
      | none => rfl
      | some b => exact absurd (sealed_of_ciphers_encrypt_gcm hevp hcall).1 (not_le.2 (hneg m hm))
    have hnil : cs = [] := List.eq_nil_iff_forall_not_mem.2 fun b hb => by
      have hb' := hnone _ (hcs b hb)
      cases hb'
    have hempty : joined (s.lib.2.map CipherCall.result) = [] := by
      rw [joined, List.flatten_eq_nil_iff]
      intro b hb
      obtain ⟨o, ho, rfl⟩ := List.mem_map.1 hb
      rw [hnone o ho, Option.getD_none]
    rw [hnil, hc, hempty, List.flatten_nil]
  · obtain ⟨o, -, w, w', hcall⟩ := List.exists_of_forall₂_left hcalls hm
    rw [ciphers_encrypt_gcm_overflow hevp hlong] at hcall
    cases hcall

/-- Decryption that has no scratch buffer accepts nothing. -/
theorem wholeFileAuthentic_of_le (hn : 2 ^ 63 ≤ n + 16) (f : Bytes) (w : W) :
    WholeFileAuthentic evp n iv ik f w := by
  intro d fin mid s c _ _ _ _ _ cs _ _ d' w' fin' fout _ code s' hdec
  rw [decrypt, crypt_of_le hn] at hdec
  obtain ⟨rfl, -⟩ := Prod.mk.inj (Option.some_inj.1 hdec)
  simp

/-- **Whole-file authenticity.** Under inverse sessions and an ideal tag check, no rearrangement of
the encrypted chunks of a file is accepted exactly when encryption makes no chunk of it, or the
chunk size leaves decryption without a scratch buffer. -/
theorem wholeFileAuthentic_iff (hevp : evp.GcmInverts (toBuffer ik 16) (toBuffer iv 16) enc)
    (hideal : evp.TagIdeal (toBuffer ik 16) (toBuffer iv 16) enc) (hn : 1 ≤ n) (f : Bytes) (w : W) :
    WholeFileAuthentic evp n iv ik f w ↔ NothingSealed n f ∨ 2 ^ 63 ≤ n + 16 := by
  constructor
  · intro h
    by_contra hnot
    obtain ⟨hsealed, hlt⟩ := not_or.1 hnot
    exact not_wholeFileAuthentic hevp hideal hn (not_le.1 hlt) hsealed w h
  · rintro (hsealed | hle)
    · exact wholeFileAuthentic_of_nothingSealed hevp hn hsealed w
    · exact wholeFileAuthentic_of_le hle f w

/-- What holds instead, chunk by chunk. Let encryption of `f` with chunk size `n` return 1. Whatever
is put together of encrypted chunks, on a disk without faults decryption with chunk size `n + 16`
returns 1 on it and writes what its chunks open to. When all encrypted chunks but the last are full,
these are the chunks of `f` that were sealed to them, in the order of the encrypted chunks. Without
a scratch buffer of `n + 16` bytes decryption throws, whatever it is given. -/
def ChunkAuthentic (evp : Evp W) (enc : Bytes → Bytes) (n : ℕ) (iv ik f : Bytes) (w : W) : Prop :=
  ∀ (d : Disk) (fin mid : Path) s, cString fin ≠ cString mid → d.files (cString fin) = some f →
    encrypt (recorded evp.ciphers) 2 fin mid iv ik n ⟨d, (w, [])⟩ = some (.ok 1, s) →
    ∀ cs : List Bytes, (∀ b ∈ cs, some b ∈ s.lib.2.map CipherCall.result) →
      ∀ (d' : Disk) (w' : W) (fin' fout : Path), d'.Faultless → cString fin' ≠ cString fout →
        d'.files (cString fin') = some cs.flatten →
        (n + 16 < 2 ^ 63 → ∃ s' ms,
          decrypt evp.ciphers 2 fin' fout iv ik (n + 16) ⟨d', w'⟩ = some (.ok 1, s') ∧
          s'.disk.files (cString fout) = some ms.flatten ∧
          List.Forall₂ (OpensTo enc) (cs.flatten.chunks (n + 16)) ms ∧
          ((∀ b ∈ cs.dropLast, b.length = n + 16) →
            List.Forall₂ (fun b m => b = enc m ∧
              ∃ m' ∈ f.chunks n, m = m'.take (toInt m'.length).toNat) cs ms)) ∧
        (2 ^ 63 ≤ n + 16 →
          decrypt evp.ciphers 2 fin' fout iv ik (n + 16) ⟨d', w'⟩ = some (.error (), ⟨d', w'⟩))

/-- **Chunk authenticity.** Under inverse sessions and an ideal tag check, decryption that has a
scratch buffer accepts every rearrangement of encrypted chunks, and opens each of them to what was
sealed to it. -/
theorem chunkAuthentic (hevp : evp.GcmInverts (toBuffer ik 16) (toBuffer iv 16) enc)
    (hideal : evp.TagIdeal (toBuffer ik 16) (toBuffer iv 16) enc) (hn : 1 ≤ n) (f : Bytes) (w : W) :
    ChunkAuthentic evp enc n iv ik f w := by
  intro d fin mid s hne hf hrun cs hcs d' w' fin' fout hd' hne' hf'
  refine ⟨fun hlt => ?_, fun hle => by rw [decrypt, crypt_of_le hle]⟩
  have hsealed : ∀ b ∈ cs, ∃ m ∈ f.chunks n, 0 ≤ toInt m.length ∧
      toInt m.length + 16 < 2 ^ 31 ∧ b = enc (m.take (toInt m.length).toNat) := by
    intro b hb
    obtain ⟨m, hm, w₁, w₂, hcall⟩ :=
      List.exists_of_forall₂_right (calls_of_encrypt hn hne hf hrun) (hcs b hb)
    exact ⟨m, hm, sealed_of_ciphers_encrypt_gcm hevp hcall⟩
  obtain ⟨s', ms, hdec, hout, hopens⟩ :=
    decrypt_accepts hevp hideal ⟨Nat.succ_pos (n + 15), hlt⟩ hd' hne' hf' w'
  refine ⟨s', ms, hdec, hout, hopens, fun hfull => ?_⟩
  have hlen : ∀ b ∈ cs, b ≠ [] ∧ b.length ≤ n + 16 := by
    intro b hb
    obtain ⟨m, hm, -, -, rfl⟩ := hsealed b hb
    have hle := List.length_le_of_mem_chunks hn hm
    refine ⟨List.ne_nil_of_length_pos ?_, ?_⟩ <;>
      rw [hevp.length_enc, Alg.sealedLength, List.length_take] <;> omega
  rw [List.chunks_flatten (Nat.succ_pos (n + 15)) hfull hlen] at hopens
  refine ((List.forall₂_and_left _ _).2 ⟨hsealed, hopens⟩).imp ?_
  rintro b m ⟨⟨m', hm', hpos, hshort, hb⟩, -, hopen⟩
  have hm := hopen _ (by rw [List.length_take]; omega) hb
  exact ⟨hm ▸ hb, m', hm', hm⟩

/-- The two chunks of `ab` in the other order, or as often as one likes. -/
theorem chunkAuthentic_ab :
    ChunkAuthentic (Evp.ofSealing (markedSealing 0)) (markedSealing 0 .aes256Gcm
      ((toBuffer (str "00000000000000000000000000000000") 16).take 32)
      ((toBuffer (str "1111111111111111") 16).take 12)).enc 1 (str "1111111111111111")
      (str "00000000000000000000000000000000") (str "ab") ⟨.aes256Cbc, [], [], [], []⟩ :=
  chunkAuthentic (invertsAt_markedSealing 0 .aes256Gcm _ _)
    (Evp.tagIdeal_ofSealing (authentic_markedSealing 0) _ _) (by decide) _ _

/-- Two chunks of one byte can be removed. -/
theorem not_wholeFileAuthentic_ab :
    ¬ WholeFileAuthentic (Evp.ofSealing (markedSealing 0)) 1 (str "1111111111111111")
      (str "00000000000000000000000000000000") (str "ab") ⟨.aes256Cbc, [], [], [], []⟩ := by
  have hchunks : [str "a", str "b"].flatten.chunks 1 = [str "a", str "b"] :=
    List.chunks_flatten Nat.one_pos (by decide) (by decide)
  rw [wholeFileAuthentic_iff (invertsAt_markedSealing 0 .aes256Gcm _ _)
    (Evp.tagIdeal_ofSealing (authentic_markedSealing 0) _ _) (le_refl 1), not_or, NothingSealed,
    show str "ab" = [str "a", str "b"].flatten from rfl, hchunks]
  exact ⟨by decide, by decide⟩

end Behh
