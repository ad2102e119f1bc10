import Behh.Utility.FileRoundTrip

/-!
# The file round trip on aligned grids

Encryption makes `Alg.sealedLength n` bytes of a chunk of `n` bytes, and no more of the last
chunk, which may be shorter. Decryption with this chunk size therefore reads exactly the
encrypted chunks, and the round trip works as long as the chunks can be encrypted at all: the
lengths that are given to OpenSSL, and the lengths that it returns, are `int` values.

## Main results

* `gridChunks_of_int`: the chunks come back.
* `not_gridRoundTrip_of_not_int`: a first chunk that is too long for an `int` does not.
* `alignedRoundTrip_iff`: the files for which the round trip works.
-/

namespace Behh

variable {W : Type} {alg : Alg} {n k : ℕ} {iv ik f : Bytes}

/-- Calls that succeed on everything that `g` makes of a list, one after the other. -/
theorem cipherAll_map {cipher : BufferCipher W} {g : Bytes → Bytes} {o : Bytes → Option Bytes}
    (cs : List Bytes) (h : ∀ c ∈ cs, ∀ w, ∃ w', cipher (g c) iv ik w = some (o c, w')) (w : W) :
    ∃ w', cipherAll cipher iv ik (cs.map g) w = some (cs.map o, w') := by
  induction cs generalizing w with
  | nil => exact ⟨w, cipherAll_nil w⟩
  | cons c cs ih =>
    obtain ⟨w₁, hc⟩ := h c List.mem_cons_self w
    obtain ⟨w₂, hcs⟩ := ih (fun c' hc' => h c' (List.mem_cons_of_mem c hc')) w₁
    exact ⟨w₂, cipherAll_cons_eq_some.2 ⟨o c, w₁, cs.map o, hc, hcs, rfl⟩⟩

theorem joined_map_some (g : Bytes → Bytes) (cs : List Bytes) :
    joined (cs.map fun c => some (g c)) = (cs.map g).flatten := by
  simp [joined, Function.comp_def]

/-- Sealed chunks, of which only the last may be shorter than `n`, are the chunks of what they make
up, on the grid of their own length. -/
theorem chunks_map_enc {enc : Bytes → Bytes}
    (hlen : ∀ m, (enc m).length = alg.sealedLength m.length) {ms : List Bytes}
    (hfull : ∀ m ∈ ms.dropLast, m.length = n) (hms : ∀ m ∈ ms, m ≠ [] ∧ m.length ≤ n) :
    (ms.map enc).flatten.chunks (alg.sealedLength n) = ms.map enc := by
  have hk : 0 < alg.sealedLength n := Nat.zero_lt_of_lt (alg.lt_sealedLength n)
  refine List.chunks_flatten_map hk (fun m hm => by rw [hlen, hm]) (fun m _ hm => ?_) hfull hms
  have hpos := alg.lt_sealedLength m.length
  refine ⟨List.ne_nil_of_length_pos (by rw [hlen]; omega), ?_⟩
  rw [hlen]
  exact alg.sealedLength_mono hm

/-- **Chunks that come back.** When the encryption of the longest chunk is an `int` long, the
encrypted chunks are the chunks of the encrypted file, and they decrypt to the chunks of `f`. -/
theorem gridChunks_of_int {evp : Evp W} {enc : Bytes → Bytes} (hevp : evp.InvertsAt ik iv enc alg)
    (hn : 0 < n) (hint : alg.sealedLength (min n f.length) < 2 ^ 31) (w : W) :
    GridChunks evp.ciphers alg n (alg.sealedLength n) iv ik f w := by
  have hchunk : ∀ c ∈ f.chunks n, alg.sealedLength c.length < 2 ^ 31 := by
    intro c hc
    have hle : c.length ≤ min n f.length := by
      refine le_min (List.length_le_of_mem_chunks hn hc) ?_
      have hsub := (List.infix_of_mem_flatten hc).length_le
      rwa [List.flatten_chunks hn] at hsub
    exact (alg.sealedLength_mono hle).trans_lt hint
  obtain ⟨w₁, henc⟩ := cipherAll_map (g := id) (o := fun c => some (enc c)) (f.chunks n)
    (fun c hc w => ciphers_encrypt_of_inverts hevp (hchunk c hc) w) w
  rw [List.map_id] at henc
  have hcut : (joined ((f.chunks n).map fun c => some (enc c))).chunks (alg.sealedLength n) =
      (f.chunks n).map enc := by
    rw [joined_map_some]
    exact chunks_map_enc hevp.length_enc
      (fun c hc => List.length_of_mem_dropLast_chunks hn hc)
      fun c hc => ⟨List.ne_nil_of_mem_chunks hn hc, List.length_le_of_mem_chunks hn hc⟩
  obtain ⟨w₂, hdec⟩ := cipherAll_map (g := enc) (o := some) (f.chunks n)
    (fun c hc w => ciphers_decrypt_of_inverts hevp (hchunk c hc) w) w₁
  refine ⟨_, w₁, henc, (f.chunks n).map some, w₂, by rw [hcut, hdec], ?_⟩
  have hjoined := joined_map_some id (f.chunks n)
  rw [List.map_id, List.flatten_chunks hn] at hjoined
  exact hjoined

/-- A first chunk whose encryption is too long for an `int` is not sealed, and its last byte is
lost. -/
theorem not_gridChunks_of_not_int (hn : 0 < n) (hk : 0 < k) (hf : f ≠ [])
    (hbig : ¬ alg.sealedLength (min n f.length) < 2 ^ 31) :
    ∃ v, ∀ w, ¬ GridChunks (Evp.ofSealing (markedSealing v)).ciphers alg n k iv ik f w := by
  obtain ⟨m, v, hmv⟩ := (List.eq_nil_or_concat' (f.take n)).resolve_left
    (by simp [hf, hn.ne'])
  refine ⟨v, ?_⟩
  rintro w ⟨outs, w₁, henc, outs', w₂, hdec, hjoined⟩
  have hlen : m.length + 1 = min n f.length := by
    rw [← List.length_take, hmv, List.length_append, List.length_singleton]
  have hcount := congrArg (List.count v) (List.flatten_chunks hn f)
  have hdec_le := List.count_flatten_le (forall₂_count_le hdec)
  rw [List.flatten_chunks hk] at hdec_le
  rw [List.chunks_of_ne_nil hn hf, hmv] at henc hcount
  obtain ⟨o, w', os, ho, hos, rfl⟩ := cipherAll_cons_eq_some.1 henc
  obtain ⟨-, hint⟩ | hlost := sealed_or_lost ho
  · exact hbig (hlen ▸ hint)
  · have hlt := List.count_flatten_lt hlost (forall₂_count_le hos)
    have hless : (joined outs').count v < f.count v := (lt_of_le_of_lt hdec_le hlt).trans_eq hcount
    rw [hjoined] at hless
    exact lt_irrefl _ hless

theorem not_gridRoundTrip_of_not_int (hn : IsChunkSize n) (hk : IsChunkSize k)
    (hiv : 16 ≤ iv.length) (hik : 16 ≤ ik.length) (hf : f ≠ [])
    (hbig : ¬ alg.sealedLength (min n f.length) < 2 ^ 31) : ¬ GridRoundTrip alg n k iv ik f := by
  intro h
  obtain ⟨v, hv⟩ := @not_gridChunks_of_not_int alg n k iv ik f hn.pos hk.pos hf hbig
  rw [gridRoundTrip_iff_chunks hn hk hiv hik] at h
  exact hv ⟨alg, [], [], [], []⟩ (h Slot _ _ (inverts_markedSealing v) _)

/-- With chunks for which decryption has no scratch buffer nothing comes back: it throws. -/
theorem not_gridRoundTrip_of_le (hk : 2 ^ 63 ≤ k) : ¬ GridRoundTrip alg n k iv ik f := by
  intro h
  obtain ⟨s, s', -, hdec, -⟩ := h Slot _ _ (inverts_markedSealing 0) (Disk.single (str "in") f)
    ⟨alg, [], [], [], []⟩ (str "in") (str "mid") (str "out") (Disk.faultless_single _ _)
    (by decide) (by decide) (by decide) (Disk.single_files _ _)
  rw [decrypt, crypt_of_le hk] at hdec
  cases hdec

/-- **The aligned round trip.** Under inverse EVP calls, for both modes, every positive chunk size
`n`, every IV of at least 16 bytes and every key of 32 bytes: a file that was encrypted with chunk
size `n` is decrypted with the chunk size to which `n` bytes are sealed exactly when a vector can
have that size, and the file is empty or the encryption of its first chunk is an `int` long. -/
theorem alignedRoundTrip_iff (hn : 1 ≤ n) (hiv : 16 ≤ iv.length) (hik : ik.length = 32) :
    GridRoundTrip alg n (alg.sealedLength n) iv ik f ↔
      alg.sealedLength n < 2 ^ 63 ∧ (f = [] ∨ alg.sealedLength (min n f.length) < 2 ^ 31) := by
  have hsealed := alg.lt_sealedLength n
  rcases Nat.lt_or_ge (alg.sealedLength n) (2 ^ 63) with hlt | hle
  · have hsize : IsChunkSize n := ⟨hn, hsealed.trans hlt⟩
    have hk : IsChunkSize (alg.sealedLength n) := ⟨Nat.zero_lt_of_lt hsealed, hlt⟩
    rw [and_iff_right hlt]
    constructor
    · intro h
      by_contra hbad
      obtain ⟨hf, hbig⟩ := not_or.1 hbad
      exact not_gridRoundTrip_of_not_int hsize hk hiv (by omega) hf hbig h
    · intro hfits
      rw [gridRoundTrip_iff_chunks hsize hk hiv (by omega)]
      intro W evp enc hevp w
      have hint : alg.sealedLength (min n f.length) < 2 ^ 31 := by
        rcases hfits with rfl | hint
        · rw [List.length_nil, Nat.min_zero]
          exact lt_of_le_of_lt (alg.sealedLength_le 0) (by decide)
        · exact hint
      exact gridChunks_of_int (hevp.invertsAt hiv hik.ge alg) hn hint w
  · exact iff_of_false (not_gridRoundTrip_of_le hle) fun h => Nat.not_le.2 h.1 hle

/-- A file of 20 bytes comes back when its chunks of 8 bytes are read in chunks of 24. -/
theorem alignedRoundTrip_twenty :
    GridRoundTrip .aes256Gcm 8 (Alg.aes256Gcm.sealedLength 8) (str "1111111111111111")
        (str "00000000000000000000000000000000") (str "twenty bytes of text") ↔
      Alg.aes256Gcm.sealedLength 8 < 2 ^ 63 ∧ (str "twenty bytes of text" = [] ∨
        Alg.aes256Gcm.sealedLength (min 8 (str "twenty bytes of text").length) < 2 ^ 31) :=
  alignedRoundTrip_iff (by decide) (by decide) (by decide)

/-- A file of `2 ^ 32` bytes in one chunk: the length given to OpenSSL is 0. -/
theorem not_alignedRoundTrip_large :
    ¬ GridRoundTrip .aes256Gcm (2 ^ 32) (Alg.aes256Gcm.sealedLength (2 ^ 32))
      (str "1111111111111111") (str "00000000000000000000000000000000")
      (List.replicate (2 ^ 32) 0) := by
  refine not_gridRoundTrip_of_not_int ⟨by decide, by decide⟩ ⟨by decide, by decide⟩ (by decide)
    (by decide) ?_ ?_
  · exact List.ne_nil_of_length_pos (by rw [List.length_replicate]; decide)
  · rw [List.length_replicate, Nat.min_self]
    decide

end Behh
