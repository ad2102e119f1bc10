import Behh.Cryptography.KeyUse
import Behh.Cryptography.StringCipher
import Behh.Utility.FileCrypt

/-!
# Where the key and the IV come from

EVP reads as many bytes through a pointer as the cipher takes. Where the object behind the
pointer is shorter, it goes on with what lies behind the object in memory. The file functions
fill their key buffer up to 16 bytes, of which AES-256 reads 32; the string functions pass on
what the caller's strings hold, with the NUL that ends a string.

## Main definitions

* `readThrough`, `KeyUse.Reads`: the bytes that an initialisation reads.
* `FileKeyMaterial`, `StringKeyMaterial`: what is read is the same in every run that reports
  success.

## Main results

* `fileKeyMaterial_iff`, `stringKeyMaterial_iff`, `keyMaterial_iff`: the lengths for which this
  holds.
-/

namespace Behh

variable {W : Type} {dir : Dir} {alg : Alg} {iv ik : Bytes}

/-! ### Reading through a pointer -/

/-- The `k` bytes that are read from an object on, when `behind` lies behind it in memory. -/
def readThrough (object behind : Bytes) (k : ℕ) : Bytes := (object ++ behind).take k

theorem readThrough_of_le {object : Bytes} {k : ℕ} (h : k ≤ object.length) (behind : Bytes) :
    readThrough object behind k = object.take k := List.take_append_of_le_length h

/-- What is read does not depend on the memory exactly when the object is long enough. -/
theorem readThrough_const_iff {object : Bytes} {k : ℕ} :
    (∃ b, ∀ behind, readThrough object behind k = b) ↔ k ≤ object.length := by
  constructor
  · rintro ⟨b, hb⟩
    by_contra hk
    -- Two memories that differ in every byte.
    have heq := (hb (List.replicate k 0)).trans (hb (List.replicate k 1)).symm
    simp only [readThrough, List.take_append, List.take_replicate] at heq
    have hsub := congrArg List.head? (List.append_cancel_left heq)
    rw [Nat.min_eq_left (Nat.sub_le _ _), List.head?_replicate, List.head?_replicate,
      if_neg (by omega), if_neg (by omega)] at hsub
    exact absurd (Option.some_inj.1 hsub) (by decide)
  · intro h
    exact ⟨object.take k, readThrough_of_le h⟩

/-- The initialisation reads the key `K` and the IV `V`, whatever lies behind its objects. -/
def KeyUse.Reads (use : KeyUse) (K V : Bytes) : Prop :=
  ∀ behind, readThrough use.key behind use.alg.keyLength = K ∧
    readThrough use.iv behind use.alg.ivLength = V

/-- An initialisation reads the same whatever the memory exactly when its objects hold all the
bytes that are read. -/
theorem KeyUse.exists_reads_iff (use : KeyUse) :
    (∃ K V, use.Reads K V) ↔
      use.alg.keyLength ≤ use.key.length ∧ use.alg.ivLength ≤ use.iv.length := by
  constructor
  · rintro ⟨K, V, h⟩
    exact ⟨readThrough_const_iff.1 ⟨K, fun b => (h b).1⟩,
      readThrough_const_iff.1 ⟨V, fun b => (h b).2⟩⟩
  · rintro ⟨hkey, hiv⟩
    exact ⟨_, _, fun b => ⟨readThrough_of_le hkey b, readThrough_of_le hiv b⟩⟩

/-! ### The properties -/

/-- Every run of the file function that returns 1, in any mode, uses the same key, and the same
IV for a cipher. -/
def FileKeyMaterial (dir : Dir) (iv ik : Bytes) : Prop :=
  ∃ (K : Bytes) (V : Alg → Bytes), ∀ (W : Type) (evp : Evp W) (mode : ℤ)
    (fileInput fileOutput : Path) (n : ℕ) (d : Disk) (w : W) (s' : Sys (W × List EvpEvent)),
    fileCrypt dir evp.traced.ciphers mode fileInput fileOutput iv ik n ⟨d, (w, [])⟩ =
      some (.ok 1, s') → ∀ use ∈ keyUses s'.lib.2, use.Reads K (V use.alg)

/-- Every run of the string function that returns 1 uses the same key and the same IV. -/
def StringKeyMaterial (dir : Dir) (alg : Alg) (iv ik : Bytes) : Prop :=
  ∃ K V : Bytes, ∀ (W : Type) (evp : Evp W) (input output : Bytes) (w : W) (out : Bytes)
    (s' : W × List EvpEvent),
    evp.traced.stringCiphers dir alg input output iv ik (w, []) = some ((1, out), s') →
      ∀ use ∈ keyUses s'.2, use.Reads K V

/-! ### The file functions -/

/-- The state in which the runs below start. -/
def Slot.initial : Slot := ⟨.aes256Cbc, [], [], [], []⟩

/-- There is a run that returns 1, and it gives the two buffers to an initialisation. -/
theorem exists_fileCrypt_run (dir : Dir) (alg : Alg) (iv ik : Bytes) :
    ∃ (n : ℕ) (d : Disk) (s' : Sys (Slot × List EvpEvent)),
      fileCrypt dir (Evp.ofSealing (markedSealing 0)).traced.ciphers alg.mode (str "in")
        (str "out") iv ik n ⟨d, (.initial, [])⟩ = some (.ok 1, s') ∧
      keyUses s'.lib.2 = [⟨alg, toBuffer ik 16, toBuffer iv 16⟩] := by
  have hevp := (invertsAt_markedSealing 0 alg (toBuffer ik 16) (toBuffer iv 16)).traced
  have hlen := hevp.length_enc (str "a")
  have hle := alg.sealedLength_le (str "a").length
  have hlt := alg.lt_sealedLength (str "a").length
  have hsmall : (str "a").length = 1 := rfl
  have hint : alg.sealedLength (str "a").length < 2 ^ 31 := by omega
  obtain ⟨c, b, w', hc, hcall⟩ : ∃ c b w', IsChunkSize c.length ∧
      (Evp.ofSealing (markedSealing 0)).traced.ciphers dir alg c (toBuffer iv 16)
        (toBuffer ik 16) (.initial, []) = some (some b, w') := by
    cases dir with
    | encrypt =>
      obtain ⟨w', h⟩ := ciphers_encrypt_of_inverts hevp hint (.initial, [])
      exact ⟨str "a", _, w', ⟨by decide, by decide⟩, h⟩
    | decrypt =>
      obtain ⟨w', h⟩ := ciphers_decrypt_of_inverts hevp hint (.initial, [])
      exact ⟨_, str "a", w', ⟨by omega, by omega⟩, h⟩
  have hall := cipherAll_chunks_of_le hc.pos (List.ne_nil_of_length_pos hc.pos) (le_refl _) hcall
  refine ⟨c.length, Disk.single (str "in") c,
    ⟨outputDisk (Disk.single (str "in") c) (str "in") (str "out") [some b], w'⟩, ?_, ?_⟩
  · rw [fileCrypt_eq, crypt_of_faultless hc
      (Disk.faultless_single _ _) (by decide) (Disk.single_files _ _), hall]
    rfl
  · exact (initsOnce_ciphers _ _ _ _ _ _).keyUses_eq hcall (by simp)

theorem fileKeyMaterial_iff : FileKeyMaterial dir iv ik ↔ 32 ≤ ik.length := by
  constructor
  · rintro ⟨K, V, h⟩
    obtain ⟨n, d, s', hrun, huses⟩ := exists_fileCrypt_run dir .aes256Cbc iv ik
    have hreads := h _ _ _ _ _ _ _ _ _ hrun _ (by rw [huses]; exact List.mem_singleton_self _)
    have hlen := ((KeyUse.exists_reads_iff _).1 ⟨_, _, hreads⟩).1
    simp only [Alg.keyLength, length_toBuffer] at hlen
    omega
  · intro hik
    refine ⟨(toBuffer ik 16).take 32, fun alg => (toBuffer iv 16).take alg.ivLength, ?_⟩
    intro W evp mode fileInput fileOutput n d w s' hrun use huse
    have hkeep := @keeps_crypt (W × List EvpEvent)
      (fun s => ∀ u ∈ keyUses s.2, u.key = toBuffer ik 16 ∧ u.iv = toBuffer iv 16) iv ik n
      (evp.traced.ciphers dir)
      (fun alg c => (initsOnce_ciphers evp dir alg c _ _).keeps ⟨rfl, rfl⟩)
      mode fileInput fileOutput
    rw [fileCrypt_eq] at hrun
    obtain ⟨hkey, hiv⟩ := hkeep _ _ _ (by simp [keyUses]) hrun use huse
    have hklen := length_toBuffer ik 16
    have hvlen := length_toBuffer iv 16
    intro behind
    rw [hkey, hiv, readThrough_of_le, readThrough_of_le]
    · exact ⟨by cases use.alg <;> rfl, rfl⟩
    · cases use.alg <;> simp only [Alg.ivLength] <;> omega
    · cases use.alg <;> simp only [Alg.keyLength] <;> omega

/-! ### The string functions -/

theorem exists_stringCiphers_run (dir : Dir) (alg : Alg) (iv ik : Bytes) :
    ∃ (input out : Bytes) (s' : Slot × List EvpEvent),
      (Evp.ofSealing (markedSealing 0)).traced.stringCiphers dir alg input [] iv ik
        (.initial, []) = some ((1, out), s') := by
  have hevp := (invertsAt_markedSealing 0 alg (cStr ik) (cStr iv)).traced
  cases alg with
  | aes256Cbc =>
    obtain ⟨t, w', henc, hdec⟩ := cbcRoundTrip_of_inverts (m := []) hevp (by decide) []
      (.initial, [])
    cases dir with
    | encrypt => exact ⟨[], t, w', henc⟩
    | decrypt =>
      obtain ⟨v', h⟩ := hdec [] (.initial, [])
      exact ⟨t, [], v', h⟩
  | aes256Gcm =>
    obtain ⟨-, t, w', henc, hdec, -⟩ := gcmRoundTrip_of_inverts (m := []) hevp (by decide) []
      (.initial, [])
    cases dir with
    | encrypt => exact ⟨[], t, w', henc⟩
    | decrypt =>
      obtain ⟨v', h⟩ := hdec [] (.initial, [])
      exact ⟨t, [], v', h⟩

theorem stringKeyMaterial_iff :
    StringKeyMaterial dir alg iv ik ↔
      alg.keyLength ≤ ik.length + 1 ∧ alg.ivLength ≤ iv.length + 1 := by
  rw [← length_cStr, ← length_cStr]
  have hone := fun (W : Type) (evp : Evp W) => initsOnce_stringCiphers evp dir alg
  constructor
  · rintro ⟨K, V, h⟩
    obtain ⟨input, out, s', hrun⟩ := exists_stringCiphers_run dir alg iv ik
    have huses := (hone _ _ _ _ _ _).keyUses_eq hrun rfl
    have hreads := h _ _ _ _ _ _ _ hrun ⟨alg, cStr ik, cStr iv⟩ (by rw [huses]; simp)
    exact (KeyUse.exists_reads_iff _).1 ⟨K, V, hreads⟩
  · intro hlen
    obtain ⟨K, V, hreads⟩ := (KeyUse.exists_reads_iff ⟨alg, cStr ik, cStr iv⟩).2 hlen
    refine ⟨K, V, fun W evp input output w out s' hrun => ?_⟩
    exact (hone W evp input output iv ik).keeps (P := fun u => u.Reads K V) hreads _ _ _
      (by simp [keyUses]) hrun

/-- **When key and IV come from the caller alone.** In all runs that return 1, the key and the
IV that EVP reads are the same, whatever lies in memory: for the file functions exactly when the
key has 32 bytes, for the string functions exactly when key and IV, with the NUL behind them,
have the bytes that the cipher reads. -/
theorem keyMaterial_iff (dir : Dir) (alg : Alg) (iv ik : Bytes) :
    (FileKeyMaterial dir iv ik ↔ 32 ≤ ik.length) ∧
    (StringKeyMaterial dir alg iv ik ↔
      alg.keyLength ≤ ik.length + 1 ∧ alg.ivLength ≤ iv.length + 1) :=
  ⟨fileKeyMaterial_iff, stringKeyMaterial_iff⟩

/-- File encryption with a key of 16 bytes uses a key that is not determined by it. -/
theorem not_fileKeyMaterial_sixteen :
    ¬ FileKeyMaterial .encrypt (str "abcdefghijklmnop") (str "abcdefghijklmnop") := by
  rw [fileKeyMaterial_iff]
  decide

end Behh
