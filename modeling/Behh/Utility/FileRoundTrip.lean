import Behh.Openssl.Reference
import Behh.Utility.FileCrypt

/-!
# The file round trip

Every chunk grows when it is encrypted, and decryption reads the encrypted file in chunks of the
same size as encryption read the plain one. The two grids of chunks agree only when there is one
chunk at most on either side: the round trip works for an empty file, and for one whose
encryption fits into a chunk.

For any other file there is an implementation of the EVP interface that satisfies what is assumed
of OpenSSL and with which the round trip fails. It seals by marks that do not occur as the last
byte of the first chunk, so that no call can bring forth this byte where it was not; a first
chunk that is truncated, or whose seal is cut by the end of the chunk, then loses it for good.

## Main definitions

* `FileRoundTrip`: what is encrypted is decrypted again, whatever OpenSSL does within the
  assumptions.
* `GridRoundTrip`: the same with another chunk size for decryption.
* `FitsChunk`: the file is empty or its encryption fits into a chunk.

## Main results

* `gridRoundTrip_iff_chunks`, `fileRoundTrip_iff_chunks`: the round trip of the chunks alone.
* `chunksRoundTrip_of_fits`, `not_fileRoundTrip_of_not_fits`: the two directions.
* `fileRoundTrip_iff`: the files for which the round trip works.
-/

namespace Behh

variable {W : Type} {alg : Alg} {n : ℕ} {iv ik f : Bytes}

/-- On every disk without faults and with the paths of three files, encryption of a file with the
content `f` has an outcome, and if it returns 1 then decryption of its output, with the same
chunk size, returns 1 and leaves `f` in the third file. -/
def FileRoundTrip (alg : Alg) (n : ℕ) (iv ik f : Bytes) : Prop :=
  ∀ (W : Type) (evp : Evp W) enc, evp.Inverts enc → ∀ (d : Disk) (w : W) (fin mid fout : Path),
    d.Faultless → cString fin ≠ cString mid → cString mid ≠ cString fout →
    cString fin ≠ cString fout → d.files (cString fin) = some f →
      ∃ code s, encrypt evp.ciphers alg.mode fin mid iv ik n ⟨d, w⟩ = some (code, s) ∧
        (code = .ok 1 →
          ∃ s', decrypt evp.ciphers alg.mode mid fout iv ik n s = some (.ok 1, s') ∧
            s'.disk.files (cString fout) = some f)

/-! ### The round trip of the chunks -/

/-- The round trip of the chunks: what the encrypted chunks make up is cut into chunks again, and
these decrypt to `f`. -/
def ChunksRoundTrip (ciphers : Ciphers W) (alg : Alg) (n : ℕ) (iv ik f : Bytes) (w : W) : Prop :=
  ∃ outs w₁, cipherAll (ciphers .encrypt alg) iv ik (f.chunks n) w = some (outs, w₁) ∧
    ∃ outs' w₂, cipherAll (ciphers .decrypt alg) iv ik ((joined outs).chunks n) w₁ =
      some (outs', w₂) ∧ joined outs' = f

/-- The same with the chunk size `k` for decryption, for a file that is encrypted with chunk size
`n`: on every disk without faults and with the paths of three files, both functions return 1 and
`f` is in the third file. -/
def GridRoundTrip (alg : Alg) (n k : ℕ) (iv ik f : Bytes) : Prop :=
  ∀ (W : Type) (evp : Evp W) enc, evp.Inverts enc → ∀ (d : Disk) (w : W) (fin mid fout : Path),
    d.Faultless → cString fin ≠ cString mid → cString mid ≠ cString fout →
    cString fin ≠ cString fout → d.files (cString fin) = some f →
      ∃ s s', encrypt evp.ciphers alg.mode fin mid iv ik n ⟨d, w⟩ = some (.ok 1, s) ∧
        decrypt evp.ciphers alg.mode mid fout iv ik k s = some (.ok 1, s') ∧
        s'.disk.files (cString fout) = some f

/-- What the encrypted chunks of length `n` make up is cut into chunks of length `k`, and these
decrypt to `f`. -/
def GridChunks (ciphers : Ciphers W) (alg : Alg) (n k : ℕ) (iv ik f : Bytes) (w : W) : Prop :=
  ∃ outs w₁, cipherAll (ciphers .encrypt alg) iv ik (f.chunks n) w = some (outs, w₁) ∧
    ∃ outs' w₂, cipherAll (ciphers .decrypt alg) iv ik ((joined outs).chunks k) w₁ =
      some (outs', w₂) ∧ joined outs' = f

theorem gridRoundTrip_iff_chunks {k : ℕ} (hn : IsChunkSize n) (hk : IsChunkSize k)
    (hiv : 16 ≤ iv.length) (hik : 16 ≤ ik.length) :
    GridRoundTrip alg n k iv ik f ↔ ∀ (W : Type) (evp : Evp W) enc, evp.Inverts enc →
      ∀ w : W, GridChunks evp.ciphers alg n k iv ik f w := by
  have hiv' := toBuffer_of_le hiv
  have hik' := toBuffer_of_le hik
  constructor
  · intro h W evp enc hevp w
    have hd := Disk.faultless_single (str "in") f
    have hf := Disk.single_files (str "in") f
    obtain ⟨s, s', henc, hdec, hfile⟩ := h W evp enc hevp _ w (str "in") (str "mid") (str "out") hd
      (by decide) (by decide) (by decide) hf
    rw [encrypt, crypt_of_faultless hn hd (by decide) hf, hiv', hik',
      Option.map_eq_some_iff] at henc
    obtain ⟨⟨outs, w₁⟩, houts, heq⟩ := henc
    obtain ⟨-, rfl⟩ := Prod.mk.inj heq
    obtain ⟨hd', hmid⟩ := outputDisk_spec hd (str "in") (str "mid") outs
    rw [decrypt, crypt_of_faultless hk hd' (by decide) hmid, hiv', hik',
      Option.map_eq_some_iff] at hdec
    obtain ⟨⟨outs', w₂⟩, houts', heq'⟩ := hdec
    obtain ⟨-, rfl⟩ := Prod.mk.inj heq'
    refine ⟨outs, w₁, houts, outs', w₂, houts', ?_⟩
    rw [(outputDisk_spec hd' _ _ _).2] at hfile
    exact Option.some_inj.1 hfile
  · intro h W evp enc hevp d w fin mid fout hd hmid hout _ hf
    obtain ⟨outs, w₁, houts, outs', w₂, houts', hjoined⟩ := h W evp enc hevp w
    obtain ⟨hd', hfile⟩ := outputDisk_spec hd fin mid outs
    refine ⟨⟨outputDisk d fin mid outs, w₁⟩,
      ⟨outputDisk (outputDisk d fin mid outs) mid fout outs', w₂⟩, ?_, ?_, ?_⟩
    · rw [encrypt, crypt_of_faultless hn hd hmid hf, hiv', hik', houts]
      rfl
    · rw [decrypt, crypt_of_faultless hk hd' hout hfile, hiv', hik', houts']
      rfl
    · rw [(outputDisk_spec hd' _ _ _).2, hjoined]

/-- Without faults encryption returns 1, so that the round trip with one chunk size for both
directions is the case `k = n`. -/
theorem fileRoundTrip_iff_grid (hn : IsChunkSize n) :
    FileRoundTrip alg n iv ik f ↔ GridRoundTrip alg n n iv ik f := by
  constructor
  · intro h W evp enc hevp d w fin mid fout hd hmid hout hne hf
    obtain ⟨code, s, henc, hdec⟩ := h W evp enc hevp d w fin mid fout hd hmid hout hne hf
    have hcode : code = .ok 1 := by
      rw [encrypt, crypt_of_faultless hn hd hmid hf, Option.map_eq_some_iff] at henc
      obtain ⟨r, -, heq⟩ := henc
      exact (Prod.mk.inj heq).1.symm
    obtain ⟨s', hrun, hfile⟩ := hdec hcode
    exact ⟨s, s', hcode ▸ henc, hrun, hfile⟩
  · intro h W evp enc hevp d w fin mid fout hd hmid hout hne hf
    obtain ⟨s, s', henc, hdec, hfile⟩ := h W evp enc hevp d w fin mid fout hd hmid hout hne hf
    exact ⟨.ok 1, s, henc, fun _ => ⟨s', hdec, hfile⟩⟩

theorem fileRoundTrip_iff_chunks (hn : IsChunkSize n) (hiv : 16 ≤ iv.length)
    (hik : 16 ≤ ik.length) :
    FileRoundTrip alg n iv ik f ↔ ∀ (W : Type) (evp : Evp W) enc, evp.Inverts enc →
      ∀ w : W, ChunksRoundTrip evp.ciphers alg n iv ik f w := by
  rw [fileRoundTrip_iff_grid hn, gridRoundTrip_iff_chunks hn hn hiv hik]
  rfl

/-! ### Files that fit -/

/-- The file is empty, or its encryption is an `int` long and fits into a chunk. -/
def FitsChunk (alg : Alg) (n : ℕ) (f : Bytes) : Prop :=
  f = [] ∨ (alg.sealedLength f.length < 2 ^ 31 ∧ alg.sealedLength f.length ≤ n)

instance (alg : Alg) (n : ℕ) (f : Bytes) : Decidable (FitsChunk alg n f) :=
  inferInstanceAs (Decidable (_ ∨ _ ∧ _))

/-- A file that is one chunk at most and sealed into one chunk at most comes back. -/
theorem chunksRoundTrip_of_fits {evp : Evp W} {enc : Bytes → Bytes}
    (hevp : evp.InvertsAt ik iv enc alg) (hn : 0 < n) (hfits : FitsChunk alg n f) (w : W) :
    ChunksRoundTrip evp.ciphers alg n iv ik f w := by
  by_cases hf : f = []
  · subst hf
    exact ⟨[], w, by rw [List.chunks_nil, cipherAll_nil], [], w,
      by rw [joined, List.map_nil, List.flatten_nil, List.chunks_nil, cipherAll_nil], rfl⟩
  obtain ⟨hint, hle⟩ := hfits.resolve_left hf
  have hlt := alg.lt_sealedLength f.length
  have hlen := hevp.length_enc f
  obtain ⟨w₁, henc⟩ := ciphers_encrypt_of_inverts hevp hint w
  obtain ⟨w₂, hdec⟩ := ciphers_decrypt_of_inverts hevp hint w₁
  have hb : enc f ≠ [] := List.ne_nil_of_length_pos (by omega)
  have hjoined : ∀ c : Bytes, joined [some c] = c := fun c => by simp [joined]
  refine ⟨[some (enc f)], w₁, cipherAll_chunks_of_le hn hf (by omega) henc, [some f], w₂, ?_,
    hjoined f⟩
  rw [hjoined]
  exact cipherAll_chunks_of_le hn hb (by omega) hdec

/-! ### Files that do not fit -/

section Loss

variable {v : UInt8} {dir : Dir} {m c : Bytes} {cs : List Bytes} {o : Option Bytes}
  {outs : List (Option Bytes)} {w w' : Slot}

theorem count_cipher_le
    (h : (Evp.ofSealing (markedSealing v)).ciphers dir alg c iv ik w = some (o, w')) :
    (o.getD []).count v ≤ c.count v := by
  cases o with
  | none => exact Nat.zero_le _
  | some b =>
    rw [Option.getD_some]
    cases dir with
    | encrypt =>
      obtain ⟨k, rfl, -⟩ := ciphers_encrypt_eq_some (invertsAt_markedSealing v _ _ _) h
      rw [count_enc_markedSealing]
      exact (List.take_sublist k c).count_le v
    | decrypt =>
      obtain ⟨p, hsub, -, hdec⟩ := ciphers_decrypt_eq_some h
      have henc := authentic_markedSealing v _ _ _ _ _ hdec
      rw [← count_enc_markedSealing v alg (ik.take 32) (iv.take alg.ivLength) b, henc]
      exact hsub.count_le v

/-- The calls on all the chunks do not bring forth a byte that is no mark. -/
theorem forall₂_count_le
    (h : cipherAll ((Evp.ofSealing (markedSealing v)).ciphers dir alg) iv ik cs w =
      some (outs, w')) :
    List.Forall₂ (fun c o => o.count v ≤ c.count v) cs (outs.map fun o => o.getD []) :=
  List.forall₂_map_right_iff.2
    (forall₂_of_cipherAll (R := fun c o => (o.getD []).count v ≤ c.count v)
      (fun _ _ _ _ hcall => count_cipher_le hcall) h)

/-- Encryption of a chunk that ends in `v` seals the whole chunk, or loses a `v`. -/
theorem sealed_or_lost
    (h : (Evp.ofSealing (markedSealing v)).ciphers .encrypt alg (m ++ [v]) iv ik w =
      some (o, w')) :
    (o = some (m ++ [v] ++
        List.replicate (alg.gap (m.length + 1)) (markFrom v (alg.gap (m.length + 1)))) ∧
      alg.sealedLength (m.length + 1) < 2 ^ 31) ∨
    (o.getD []).count v < (m ++ [v]).count v := by
  have hlast : (m ++ [v]).count v = m.count v + 1 := by
    rw [List.count_append, List.count_singleton_self]
  cases o with
  | none =>
    right
    rw [hlast]
    exact Nat.succ_pos _
  | some b =>
    obtain ⟨k, rfl, hint⟩ := ciphers_encrypt_eq_some (invertsAt_markedSealing v _ _ _) h
    rcases Nat.lt_or_ge m.length k with hk | hk
    · left
      have htake : (m ++ [v]).take k = m ++ [v] := List.take_of_length_le (by simp; omega)
      rw [htake] at hint ⊢
      rw [length_enc_markedSealing, List.length_append, List.length_singleton] at hint
      refine ⟨?_, hint⟩
      rw [markedSealing, Sealing.enc_marked, List.length_append, List.length_singleton]
    · right
      rw [Option.getD_some, count_enc_markedSealing, hlast, List.take_append_of_le_length hk]
      exact Nat.lt_succ_of_le ((List.take_sublist k m).count_le v)

/-- Decryption of a chunk that is a seal without its end fails. -/
theorem truncated_fails {j : ℕ} (hj : j < alg.gap (m.length + 1))
    (hint : m.length + 1 + j < 2 ^ 31)
    (h : (Evp.ofSealing (markedSealing v)).ciphers .decrypt alg
      (m ++ [v] ++ List.replicate j (markFrom v (alg.gap (m.length + 1)))) iv ik w =
        some (o, w')) : o = none := by
  cases o with
  | none => rfl
  | some b =>
    obtain ⟨p, -, hp, hdec⟩ := ciphers_decrypt_eq_some h
    rw [hp (by simp; omega), markedSealing,
      Sealing.dec_marked_truncated (markFrom_gap_ne v alg) m hj] at hdec
    cases hdec

/-- A seal that does not fit into the first chunk is lost when the chunks are decrypted. -/
theorem count_lt_of_cut {rest : Bytes} (hle : m.length + 1 ≤ n)
    (hcut : n < alg.sealedLength (m.length + 1)) (hint : alg.sealedLength (m.length + 1) < 2 ^ 31)
    (h : cipherAll ((Evp.ofSealing (markedSealing v)).ciphers .decrypt alg) iv ik
      ((m ++ [v] ++ List.replicate (alg.gap (m.length + 1))
        (markFrom v (alg.gap (m.length + 1))) ++ rest).chunks n) w = some (outs, w')) :
    (joined outs).count v < (m ++ [v] ++ List.replicate (alg.gap (m.length + 1))
        (markFrom v (alg.gap (m.length + 1))) ++ rest).count v := by
  have hgap : alg.gap (m.length + 1) = alg.sealedLength (m.length + 1) - (m.length + 1) := rfl
  generalize hg : alg.gap (m.length + 1) = g at h hgap ⊢
  generalize hx : markFrom v g = x at h ⊢
  have htake : (m ++ [v] ++ List.replicate g x ++ rest).take n =
      m ++ [v] ++ List.replicate (n - (m.length + 1)) x := by
    rw [List.take_append_of_le_length (by simp; omega), List.take_append,
      List.take_of_length_le (by simpa using hle), List.take_replicate, List.length_append,
      List.length_singleton, Nat.min_eq_left (by omega)]
  rw [← List.flatten_chunks (show 0 < n by omega) (m ++ [v] ++ List.replicate g x ++ rest)]
  rw [List.chunks_of_ne_nil (by omega) (by simp), htake] at h ⊢
  obtain ⟨o, w₁, os, ho, hos, rfl⟩ := cipherAll_cons_eq_some.1 h
  subst hx hg
  obtain rfl := truncated_fails (by omega) (by omega) ho
  refine List.count_flatten_lt ?_ (forall₂_count_le hos)
  simp [List.count_append]

/-- A file that does not fit loses the last byte of its first chunk. -/
theorem not_chunksRoundTrip_of_not_fits (hn : 0 < n) (hfits : ¬ FitsChunk alg n f) :
    ∃ v, ∀ w, ¬ ChunksRoundTrip (Evp.ofSealing (markedSealing v)).ciphers alg n iv ik f w := by
  obtain ⟨hf, hbig⟩ := not_or.1 hfits
  have hpos := List.length_pos_of_ne_nil hf
  obtain ⟨m, v, hmv⟩ := (List.eq_nil_or_concat' (f.take n)).resolve_left
    (by simp [hf, hn.ne'])
  refine ⟨v, ?_⟩
  rintro w ⟨outs, w₁, henc, outs', w₂, hdec, hjoined⟩
  have hcount := congrArg (List.count v) (List.flatten_chunks hn f)
  have hlen : m.length + 1 = min n f.length := by
    rw [← List.length_take, hmv, List.length_append, List.length_singleton]
  have hdec_le := List.count_flatten_le (forall₂_count_le hdec)
  rw [List.flatten_chunks hn] at hdec_le
  have henc_le := List.count_flatten_le (forall₂_count_le henc)
  rw [List.chunks_of_ne_nil hn hf, hmv] at henc henc_le hcount
  obtain ⟨o, w', os, ho, hos, rfl⟩ := cipherAll_cons_eq_some.1 henc
  have hlost : (joined outs').count v < f.count v := by
    rcases sealed_or_lost ho with ⟨rfl, hint⟩ | hlost
    · -- The chunk is sealed, and its seal does not fit into the first chunk of the output.
      have hcut : n < alg.sealedLength (m.length + 1) := by
        by_contra hle
        have hlt := alg.lt_sealedLength (m.length + 1)
        have hall : f.length = m.length + 1 := by omega
        exact hbig (by rw [hall]; exact ⟨hint, not_lt.1 hle⟩)
      have hlt := count_lt_of_cut (by omega) hcut hint hdec
      exact (lt_of_lt_of_le hlt henc_le).trans_eq hcount
    · have hlt := List.count_flatten_lt hlost (forall₂_count_le hos)
      exact (lt_of_le_of_lt hdec_le hlt).trans_eq hcount
  rw [hjoined] at hlost
  exact lt_irrefl _ hlost

end Loss

theorem not_fileRoundTrip_of_not_fits (hn : IsChunkSize n) (hiv : 16 ≤ iv.length)
    (hik : 16 ≤ ik.length) (hfits : ¬ FitsChunk alg n f) : ¬ FileRoundTrip alg n iv ik f := by
  intro h
  obtain ⟨v, hv⟩ := @not_chunksRoundTrip_of_not_fits alg n iv ik f hn.pos hfits
  rw [fileRoundTrip_iff_chunks hn hiv hik] at h
  exact hv ⟨alg, [], [], [], []⟩ (h Slot _ _ (inverts_markedSealing v) _)

/-! ### The round trip -/

theorem fileRoundTrip_of_le (hn : 2 ^ 63 ≤ n) : FileRoundTrip alg n iv ik f := by
  intro W evp enc _ d w fin mid fout _ _ _ _ _
  exact ⟨.error (), ⟨d, w⟩, crypt_of_le hn alg.mode fin mid iv ik ⟨d, w⟩, fun h => by cases h⟩

/-- **The files that come back.** Under inverse EVP calls, for both modes, every positive chunk
size, every IV of at least 16 bytes and every key of 32 bytes: what `file::encrypt` makes of a
file is decrypted to the file by `file::decrypt` exactly when the file is empty or its encryption
is an `int` long and fits into one chunk, or when encryption throws because no vector has the size
of a chunk. -/
theorem fileRoundTrip_iff (hn : 1 ≤ n) (hiv : 16 ≤ iv.length) (hik : ik.length = 32) :
    FileRoundTrip alg n iv ik f ↔ FitsChunk alg n f ∨ 2 ^ 63 ≤ n := by
  rcases Nat.lt_or_ge n (2 ^ 63) with hlt | hle
  · rw [or_iff_left (Nat.not_le.2 hlt)]
    constructor
    · intro h
      by_contra hfits
      exact not_fileRoundTrip_of_not_fits ⟨hn, hlt⟩ hiv (by omega) hfits h
    · intro hfits
      rw [fileRoundTrip_iff_chunks ⟨hn, hlt⟩ hiv (by omega)]
      exact fun W evp enc hevp w =>
        chunksRoundTrip_of_fits (hevp.invertsAt hiv hik.ge alg) hn hfits w
  · exact iff_of_true (fileRoundTrip_of_le hle) (Or.inr hle)

/-- A file of three bytes and chunks of 32 bytes. -/
theorem fileRoundTrip_abc :
    FileRoundTrip .aes256Gcm 32 (str "1111111111111111")
        (str "00000000000000000000000000000000") (str "abc") ↔
      FitsChunk .aes256Gcm 32 (str "abc") ∨ 2 ^ 63 ≤ 32 :=
  fileRoundTrip_iff (by decide) (by decide) (by decide)

/-- A file of 20 bytes, which is sealed to 36, does not come back with chunks of 32 bytes. -/
theorem not_fileRoundTrip_twenty :
    ¬ FileRoundTrip .aes256Gcm 32 (str "1111111111111111")
      (str "00000000000000000000000000000000") (str "twenty bytes of text") :=
  not_fileRoundTrip_of_not_fits ⟨by decide, by decide⟩ (by decide) (by decide) (by decide)

end Behh
