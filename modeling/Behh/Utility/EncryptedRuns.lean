import Behh.Utility.FileRoundTrip
import Behh.Utility.FileRuns

/-!
# Encryption in a run of file operations

A run writes bytes to a file, encrypts that file to a second one, decrypts the second file to a
third one and reads the third file. Between these operations there may be any others, also other
encryptions with other keys, as long as none of them has the file as its target that is needed
next. The chunk sizes are those for which there is a scratch buffer.

## Main results

* `onStore_encrypt`, `onStore_decrypt`: the two functions on a store, for a file that fits.
* `fileRun_decrypts`: what was written is read.
-/

namespace Behh

variable {W D T : Type} {lib : Taojson D T} {stod : Bytes → Option D} {evp : Evp W}
  {enc : Bytes → Bytes} {alg : Alg} {n : ℕ} {iv ik b : Bytes}

/-- What encryption makes of a file that fits: no chunk, or one. -/
def sealedFile (enc : Bytes → Bytes) (b : Bytes) : Bytes := if b = [] then [] else enc b

/-! ### The chunks -/

/-- The only chunk of a file goes through the cipher. -/
theorem cipherAll_single {cipher : BufferCipher W} {c c' : Bytes} {w w' : W} (hn : 0 < n)
    (hc : c ≠ []) (hle : c.length ≤ n) (hcall : cipher c iv ik w = some (some c', w')) :
    ∃ outs, cipherAll cipher iv ik (c.chunks n) w = some (outs, w') ∧ joined outs = c' :=
  ⟨[some c'], cipherAll_chunks_of_le hn hc hle hcall, by simp [joined]⟩

theorem cipherAll_empty (cipher : BufferCipher W) (n : ℕ) (iv ik : Bytes) (w : W) :
    ∃ outs, cipherAll cipher iv ik (([] : Bytes).chunks n) w = some (outs, w) ∧
      joined outs = [] :=
  ⟨[], by rw [List.chunks_nil, cipherAll_nil], rfl⟩

theorem cipherAll_encrypt_of_fits (hevp : evp.InvertsAt ik iv enc alg) (hn : 0 < n)
    (hfits : FitsChunk alg n b) (w : W) :
    ∃ outs w', cipherAll (evp.ciphers .encrypt alg) iv ik (b.chunks n) w = some (outs, w') ∧
      joined outs = sealedFile enc b := by
  rcases eq_or_ne b [] with rfl | hb
  · obtain ⟨outs, hrun, hjoined⟩ := cipherAll_empty (evp.ciphers .encrypt alg) n iv ik w
    exact ⟨outs, w, hrun, hjoined⟩
  · obtain ⟨hint, hle⟩ := hfits.resolve_left hb
    have hlt := alg.lt_sealedLength b.length
    obtain ⟨w', hcall⟩ := ciphers_encrypt_of_inverts hevp hint w
    obtain ⟨outs, hrun, hjoined⟩ := cipherAll_single hn hb (by omega) hcall
    exact ⟨outs, w', hrun, by rw [hjoined, sealedFile, if_neg hb]⟩

theorem cipherAll_decrypt_of_fits (hevp : evp.InvertsAt ik iv enc alg) (hn : 0 < n)
    (hfits : FitsChunk alg n b) (w : W) :
    ∃ outs w', cipherAll (evp.ciphers .decrypt alg) iv ik ((sealedFile enc b).chunks n) w =
      some (outs, w') ∧ joined outs = b := by
  rcases eq_or_ne b [] with rfl | hb
  · obtain ⟨outs, hrun, hjoined⟩ := cipherAll_empty (evp.ciphers .decrypt alg) n iv ik w
    exact ⟨outs, w, hrun, hjoined⟩
  · obtain ⟨hint, hle⟩ := hfits.resolve_left hb
    have hlen := hevp.length_enc b
    have hlt := alg.lt_sealedLength b.length
    have hne : enc b ≠ [] := List.ne_nil_of_length_pos (by omega)
    obtain ⟨w', hcall⟩ := ciphers_decrypt_of_inverts hevp hint w
    obtain ⟨outs, hrun, hjoined⟩ := cipherAll_single hn hne (by omega) hcall
    exact ⟨outs, w', by rw [sealedFile, if_neg hb, hrun], hjoined⟩

/-! ### The functions on a store -/

section Store

variable {fin fout : Path} {t : FileStore W} {r : FileAnswer T × FileStore W} {f : Bytes}

/-- `file::encrypt` and `file::decrypt` leave what the chunks have become. -/
theorem onStore_fileCrypt {dir : Dir} {c : Bytes} (hiv : 16 ≤ iv.length) (hik : 16 ≤ ik.length)
    (hn : n < 2 ^ 63) (hne : cString fin ≠ cString fout) (hfile : t.files (cString fin) = some f)
    (hchunks : 0 < n → ∃ outs w', cipherAll (evp.ciphers dir alg) iv ik (f.chunks n) t.lib =
      some (outs, w') ∧ joined outs = c)
    (h : (FileOp.fileCrypt dir alg.mode fin fout iv ik n).onStore lib stod evp.ciphers t =
      some r) : r.2.files (cString fout) = some c := by
  have hmode : Alg.ofMode alg.mode = some alg := by cases alg <;> rfl
  simp only [FileOp.onStore, cryptOnStore, if_neg hn.not_ge, hfile, hmode, if_neg hne] at h
  split_ifs at h with hzero
  obtain ⟨outs, w', hrun, hjoined⟩ := hchunks (Nat.pos_of_ne_zero hzero)
  rw [toBuffer_of_le hiv, toBuffer_of_le hik, hrun] at h
  obtain rfl := Option.some.inj h
  exact (Function.update_self ..).trans (congrArg some hjoined)

theorem onStore_encrypt (hevp : evp.InvertsAt ik iv enc alg) (hfits : FitsChunk alg n b)
    (hiv : 16 ≤ iv.length) (hik : 16 ≤ ik.length) (hn : n < 2 ^ 63)
    (hne : cString fin ≠ cString fout) (hfile : t.files (cString fin) = some b)
    (h : (FileOp.fileCrypt .encrypt alg.mode fin fout iv ik n).onStore lib stod evp.ciphers t =
      some r) : r.2.files (cString fout) = some (sealedFile enc b) :=
  onStore_fileCrypt hiv hik hn hne hfile
    (fun hn => cipherAll_encrypt_of_fits hevp hn hfits t.lib) h

theorem onStore_decrypt (hevp : evp.InvertsAt ik iv enc alg) (hfits : FitsChunk alg n b)
    (hiv : 16 ≤ iv.length) (hik : 16 ≤ ik.length) (hn : n < 2 ^ 63)
    (hne : cString fin ≠ cString fout) (hfile : t.files (cString fin) = some (sealedFile enc b))
    (h : (FileOp.fileCrypt .decrypt alg.mode fin fout iv ik n).onStore lib stod evp.ciphers t =
      some r) : r.2.files (cString fout) = some b :=
  onStore_fileCrypt hiv hik hn hne hfile
    (fun hn => cipherAll_decrypt_of_fits hevp hn hfits t.lib) h

end Store

/-! ### Runs -/

/-- **What is encrypted in a run is decrypted in it**, whatever is done to other files in between.
The file is empty, or its encryption fits into a chunk; decryption reads the chunks that encryption
has made. Reading the copy throws when there is no scratch buffer for it, like reading any file. -/
theorem fileRun_decrypts {enc : Alg → Bytes → Bytes → Bytes → Bytes} (hevp : evp.Inverts enc)
    (hiv : 16 ≤ iv.length) (hik : 32 ≤ ik.length) (hn : n < 2 ^ 63) (hfits : FitsChunk alg n b)
    {plain cipher copy old : Bytes} (hcipher : cString plain ≠ cString cipher)
    (hcopy : cString cipher ≠ cString copy)
    {before afterWrite afterEncrypt afterDecrypt : List (FileOp T)}
    (hplain : ∀ op ∈ afterWrite, op.target ≠ some (cString plain))
    (hkept : ∀ op ∈ afterEncrypt, op.target ≠ some (cString cipher))
    (hread : ∀ op ∈ afterDecrypt, op.target ≠ some (cString copy)) {k : ℕ} {s s' : Sys W}
    {answers : List (FileAnswer T)} (hd : s.disk.Faultless)
    (h : fileRun lib stod evp.ciphers (before ++ .fileFromBuffer plain b :: (afterWrite ++
        .fileCrypt .encrypt alg.mode plain cipher iv ik n :: (afterEncrypt ++
        .fileCrypt .decrypt alg.mode cipher copy iv ik n :: (afterDecrypt ++
        [.fileToBuffer copy old k])))) s = some (answers, s')) :
    answers.getLast? = some (if k < 2 ^ 63 then .buffer (.ok 1) (old ++ b)
      else .buffer (.error ()) old) := by
  have hat := hevp.invertsAt hiv hik alg
  have hik' : 16 ≤ ik.length := by omega
  obtain ⟨start, s₀, rest₀, hbefore, h₀, rfl⟩ := fileRun_append_eq_some h
  have hd₀ := fileRun_faultless hd hbefore
  obtain ⟨s₁, first, rest₁, hd₁, hwritten, h₁, rfl⟩ :=
    fileRun_stage hd₀ (onStore_fileFromBuffer _) hplain h₀
  obtain ⟨s₂, second, rest₂, hd₂, hsealed, h₂, rfl⟩ :=
    fileRun_stage hd₁ (fun r => onStore_encrypt hat hfits hiv hik' hn hcipher hwritten) hkept h₁
  obtain ⟨s₃, third, rest₃, hd₃, hopened, h₃, rfl⟩ :=
    fileRun_stage hd₂ (fun r => onStore_decrypt hat hfits hiv hik' hn hcopy hsealed) hread h₂
  rw [fileRun_last hd₃ hopened onStore_fileToBuffer h₃]
  simp only [← List.append_assoc]
  exact List.getLast?_concat

/-- A file is encrypted, the outcome is encrypted once more with another key, the plain file is
overwritten, and the first outcome is decrypted in its place. -/
def rekeyedRun : Option (List (FileAnswer Unit) × Sys Slot) :=
  fileRun JsonArgs.trivial.taojson JsonArgs.trivial.stod (Evp.ofSealing (markedSealing 0)).ciphers
    [.fileFromBuffer [97] (str "abc"),
      .fileCrypt .encrypt 2 [97] [98] (str "1111111111111111")
        (str "00000000000000000000000000000000") 32,
      .fileCrypt .encrypt 1 [98] [99] (str "2222222222222222")
        (str "33333333333333333333333333333333") 16,
      .fileFromBuffer [97] [1],
      .fileCrypt .decrypt 2 [98] [97] (str "1111111111111111")
        (str "00000000000000000000000000000000") 32,
      .fileToBuffer [97] [] 2] ⟨Disk.single [104] [9], ⟨.aes256Cbc, [], [], [], []⟩⟩

/-- The bytes are read. -/
theorem fileRun_decrypts_rekeyed : ∃ answers s', rekeyedRun = some (answers, s') ∧
    answers.getLast? = some (.buffer (.ok 1) (str "abc")) := by
  have hsome : rekeyedRun.isSome = true := by decide +kernel
  obtain ⟨⟨answers, s'⟩, hrun⟩ := Option.isSome_iff_exists.1 hsome
  exact ⟨answers, s', hrun, @fileRun_decrypts _ _ _ _ _ _ .aes256Gcm 32 _ _ (str "abc") _
    (inverts_markedSealing 0) (by decide) (by decide) (by decide) (by decide) [97] [98] [97] []
    (by decide) (by decide) [] [] [.fileCrypt .encrypt 1 [98] [99] (str "2222222222222222")
      (str "33333333333333333333333333333333") 16, .fileFromBuffer [97] [1]] [] (by decide)
    (by decide) (by decide) 2 _ s' answers (Disk.faultless_single _ _) hrun⟩

end Behh
