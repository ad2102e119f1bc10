import Behh.Openssl.Reference
import Behh.Utility.FileCrypt

/-!
# File encryption in place

`file::encrypt` and `file::decrypt` open their input file, and then empty their output file. When
the two paths are one, the loop finds nothing to read: no chunk is put through the cipher, the file
stays empty and the function returns 1. Nothing is lost then only if there was nothing that the
ciphers would have made something of.

The disk is one without faults.

## Main definitions

* `HoldsTransform`: after a result of 1 the output file holds the transformed content.
* `MakesNothing`: the cipher makes nothing of a content.
* `LosesNothing`: the calls that lose nothing.

## Main results

* `crypt_in_place`: what the functions do in place.
* `fileCrypt_holdsTransform_iff`: when the output file holds what it should.
* `makesNothing_encrypt_iff`: encryption makes nothing of an empty file only.
-/

namespace Behh

variable {W : Type} {dir : Dir} {alg : Alg} {mode : ℤ} {fileInput fileOutput : Path}
  {iv ik f : Bytes} {n : ℕ} {d : Disk} {w : W}

/-- If the call returns 1, the output file holds what the per-chunk ciphers make of the content
that the input file had before the call. -/
def HoldsTransform (ciphers : Ciphers W) (dir : Dir) (mode : ℤ) (fileInput fileOutput : Path)
    (iv ik : Bytes) (n : ℕ) (d : Disk) (w : W) : Prop :=
  ∀ s', fileCrypt dir ciphers mode fileInput fileOutput iv ik n ⟨d, w⟩ = some (.ok 1, s') →
    ∃ alg outs w', mode = alg.mode ∧
      cipherAll (ciphers dir alg) (toBuffer iv 16) (toBuffer ik 16)
        ((d.content (cString fileInput)).chunks n) w = some (outs, w') ∧
      s'.disk.files (cString fileOutput) = some (joined outs)

/-- Every call of the cipher on the chunks of a content gives an empty vector. -/
def MakesNothing (cipher : BufferCipher W) (iv ik f : Bytes) (n : ℕ) (w : W) : Prop :=
  ∃ outs w', cipherAll cipher (toBuffer iv 16) (toBuffer ik 16) (f.chunks n) w = some (outs, w') ∧
    ∀ o ∈ outs, o.getD [] = []

/-- There is no scratch buffer, the mode is none of the two, the files differ, the input file is not
there, or the cipher makes nothing of its content. -/
def LosesNothing (ciphers : Ciphers W) (dir : Dir) (mode : ℤ) (fileInput fileOutput : Path)
    (iv ik : Bytes) (n : ℕ) (d : Disk) (w : W) : Prop :=
  2 ^ 63 ≤ n ∨ (∀ alg : Alg, mode ≠ alg.mode) ∨ cString fileInput ≠ cString fileOutput ∨
    d.files (cString fileInput) = none ∨
      ∃ alg : Alg, mode = alg.mode ∧
        MakesNothing (ciphers dir alg) iv ik (d.content (cString fileInput)) n w

theorem joined_eq_nil_iff {outs : List (Option Bytes)} :
    joined outs = [] ↔ ∀ o ∈ outs, o.getD [] = [] := by
  rw [joined, List.flatten_eq_nil_iff, List.forall_mem_map]

/-- **In place.** The function makes no call, empties the file and returns 1. -/
theorem crypt_in_place {ciphers : Alg → BufferCipher W} (hn : IsChunkSize n) (hd : d.Faultless)
    (hself : cString fileInput = cString fileOutput) (hf : d.files (cString fileInput) = some f)
    (alg : Alg) (iv ik : Bytes) (w : W) :
    ∃ s', crypt ciphers alg.mode fileInput fileOutput iv ik n ⟨d, w⟩ = some (.ok 1, s') ∧
      s'.disk.files (cString fileOutput) = some [] := by
  obtain ⟨-, hfiles⟩ := outputDisk_spec hd fileInput fileOutput []
  refine ⟨⟨outputDisk d fileInput fileOutput [], w⟩, ?_, hfiles⟩
  have haccepted := (writeFile_of_faultless (hd.step d.files) fileOutput []).1
  rw [crypt_eq hn (IfStream.good_new hd hf), seenContent_self (hd _) hself, List.chunks_nil,
    cipherAll_nil, Option.map_some]
  change some (Except.ok (if (writeFile fileOutput [] (d.step d.files)).1 then (1 : ℤ) else -69),
    _) = _
  rw [if_pos haccepted]
  rfl

theorem crypt_holdsTransform_iff (ciphers : Ciphers W) (hd : d.Faultless) (hn : 0 < n) :
    HoldsTransform ciphers dir mode fileInput fileOutput iv ik n d w ↔
      LosesNothing ciphers dir mode fileInput fileOutput iv ik n d w := by
  rw [HoldsTransform, fileCrypt_eq]
  constructor
  · intro h
    by_contra hloses
    simp only [LosesNothing, not_or, not_forall, not_not, not_le] at hloses
    obtain ⟨hlt, ⟨alg, rfl⟩, hself, hthere, hsome⟩ := hloses
    obtain ⟨f, hf⟩ := Option.ne_none_iff_exists'.1 hthere
    obtain ⟨s', hrun, hempty⟩ := @crypt_in_place W fileInput fileOutput f n d (ciphers dir)
      ⟨hn, hlt⟩ hd hself hf alg iv ik w
    obtain ⟨alg', outs, w', hmode, hall, hfiles⟩ := h s' hrun
    rw [hempty, Option.some_inj] at hfiles
    exact hsome ⟨alg', hmode, outs, w', hall, joined_eq_nil_iff.1 hfiles.symm⟩
  · intro h s' hrun
    obtain ⟨hlt, ⟨alg, rfl⟩, hgood⟩ := crypt_eq_one hrun
    obtain ⟨-, f, hf⟩ := IfStream.good_new_iff.1 hgood
    by_cases hne : cString fileInput = cString fileOutput
    · obtain ⟨s'', hempty, hfiles⟩ := @crypt_in_place W fileInput fileOutput f n d (ciphers dir)
        ⟨hn, hlt⟩ hd hne hf alg iv ik w
      rw [hrun] at hempty
      obtain ⟨-, rfl⟩ := Prod.mk.inj (Option.some_inj.1 hempty)
      rcases h with hle | hmode | hpaths | hthere | ⟨alg', hmode, outs, w', hall, hnothing⟩
      · exact absurd hlt (not_lt.2 hle)
      · exact absurd rfl (hmode alg)
      · exact absurd hne hpaths
      · exact absurd (hf.symm.trans hthere) (Option.some_ne_none f)
      · exact ⟨alg', outs, w', hmode, hall, by rw [hfiles, joined_eq_nil_iff.2 hnothing]⟩
    · rw [crypt_of_faultless ⟨hn, hlt⟩ hd hne hf, Option.map_eq_some_iff] at hrun
      obtain ⟨⟨outs, w'⟩, hall, heq⟩ := hrun
      obtain ⟨-, rfl⟩ := Prod.mk.inj heq
      rw [Disk.content, hf, Option.getD_some]
      exact ⟨alg, outs, w', rfl, hall, (outputDisk_spec hd fileInput fileOutput outs).2⟩

/-- **When nothing is lost.** For whatever OpenSSL does, on every disk without faults and with every
mode and positive chunk size, both functions: the output file holds the transformed content after a
result of 1 exactly when the call is one that loses nothing. -/
theorem fileCrypt_holdsTransform_iff (evp : Evp W) (d : Disk) (hd : d.Faultless) (w : W) (mode : ℤ)
    (fileInput fileOutput iv ik : Bytes) (chunkSize : ℕ) (hchunk : 1 ≤ chunkSize) (dir : Dir) :
    HoldsTransform evp.ciphers dir mode fileInput fileOutput iv ik chunkSize d w ↔
      LosesNothing evp.ciphers dir mode fileInput fileOutput iv ik chunkSize d w :=
  crypt_holdsTransform_iff evp.ciphers hd hchunk

/-- Encryption makes something of every chunk that is not empty. -/
theorem makesNothing_encrypt_iff {evp : Evp W} {enc : Bytes → Bytes}
    (hevp : evp.InvertsAt (toBuffer ik 16) (toBuffer iv 16) enc alg) (hn : 0 < n)
    (hfits : alg.sealedLength n < 2 ^ 31) :
    MakesNothing (evp.ciphers .encrypt alg) iv ik f n w ↔ f = [] := by
  constructor
  · rintro ⟨outs, w', hall, hnothing⟩
    by_contra hne
    rw [List.chunks_of_ne_nil hn hne] at hall
    obtain ⟨o, w₁, os, ho, -, rfl⟩ := cipherAll_cons_eq_some.1 hall
    have hle : alg.sealedLength (f.take n).length ≤ alg.sealedLength n :=
      alg.sealedLength_mono (List.length_take_le n f)
    obtain ⟨w₂, hsealed⟩ := ciphers_encrypt_of_inverts hevp (hle.trans_lt hfits) w
    rw [hsealed] at ho
    obtain ⟨rfl, -⟩ := Prod.mk.inj (Option.some_inj.1 ho)
    have hlen := hevp.length_enc (f.take n)
    have hpos := alg.lt_sealedLength (f.take n).length
    have hnil : enc (f.take n) = [] := hnothing _ (List.mem_cons_self ..)
    rw [hnil, List.length_nil] at hlen
    omega
  · rintro rfl
    refine ⟨[], w, ?_, fun o ho => by cases ho⟩
    rw [List.chunks_nil, cipherAll_nil]

/-- Two paths for a file of three bytes. -/
theorem fileCrypt_holdsTransform_iff_abc :
    HoldsTransform (Evp.ofSealing knownSealing).ciphers .encrypt 1 (str "in") (str "out")
        (str "1111111111111111") (str "00000000000000000000000000000000") 32
        (Disk.single (str "in") (str "abc")) ⟨.aes256Cbc, [], [], [], []⟩ ↔
      LosesNothing (Evp.ofSealing knownSealing).ciphers .encrypt 1 (str "in") (str "out")
        (str "1111111111111111") (str "00000000000000000000000000000000") 32
        (Disk.single (str "in") (str "abc")) ⟨.aes256Cbc, [], [], [], []⟩ :=
  fileCrypt_holdsTransform_iff _ _ (Disk.faultless_single _ _) _ _ _ _ _ _ _ (by decide) _

/-- A file of three bytes is lost when it is encrypted in place. -/
theorem not_holdsTransform_abc :
    ¬ HoldsTransform (Evp.ofSealing knownSealing).ciphers .encrypt Alg.aes256Cbc.mode (str "in")
      (str "in") (str "1111111111111111") (str "00000000000000000000000000000000") 32
      (Disk.single (str "in") (str "abc")) ⟨.aes256Cbc, [], [], [], []⟩ := by
  rw [crypt_holdsTransform_iff _ (Disk.faultless_single _ _) (by decide)]
  rintro (hle | hmode | hpaths | hthere | ⟨alg, hmode, hnothing⟩)
  · exact absurd hle (by decide)
  · exact hmode .aes256Cbc rfl
  · exact hpaths rfl
  · rw [Disk.single_files] at hthere
    cases hthere
  · obtain rfl : alg = .aes256Cbc := by
      cases alg with
      | aes256Cbc => rfl
      | aes256Gcm => exact absurd hmode (by decide)
    rw [makesNothing_encrypt_iff (inverts_knownSealing.invertsAt (by decide) (by decide) _)
      (by decide) (by decide), Disk.content, Disk.single_files] at hnothing
    exact absurd hnothing (by decide)

end Behh
