import Behh.Openssl.Reference
import Behh.Utility.FileCrypt

/-!
# Failures in file encryption

A per-chunk cipher that fails returns an empty vector. `file::encrypt` and `file::decrypt` write
it like any other and look at nothing but the output stream, so that the code they return tells
whether the writes were accepted, and not whether the ciphers succeeded.

## Main definitions

* `NoSilentFailure`: a run with a failed call does not return 1.
* `FailuresSurface`: on this disk, with its faults and these outcomes, a failed call comes with a
  fault that makes the output stream refuse a write.

## Main results

* `fileCrypt_noSilentFailure_iff`: the first holds exactly when the second does.
-/

namespace Behh

variable {W : Type} {ciphers : Ciphers W} {dir : Dir} {alg : Alg} {n : ℕ}
  {fileInput fileOutput : Path} {iv ik : Bytes} {d : Disk} {w : W}

/-- Whatever the run, if one of its calls took its error exit, it does not return 1. -/
def NoSilentFailure (run : Prog (Sys (W × List CipherCall)) (Except Unit ℤ)) (d : Disk) (w : W) :
    Prop :=
  ∀ code s', run ⟨d, (w, [])⟩ = some (code, s') → (∃ c ∈ s'.lib.2, c.result = none) →
    code ≠ .ok 1

/-- When there is a scratch buffer, the input file is another than the output file and can be
opened, and the cipher fails on one of the chunks of its content, the disk has a fault that makes
the output stream refuse a write of the results. -/
def FailuresSurface (cipher : BufferCipher W) (fileInput fileOutput : Path) (iv ik : Bytes)
    (n : ℕ) (d : Disk) (w : W) : Prop :=
  n < 2 ^ 63 → cString fileInput ≠ cString fileOutput → d.nextFault = none →
    ∀ f, d.files (cString fileInput) = some f → ∀ outs w',
      cipherAll cipher (toBuffer iv 16) (toBuffer ik 16) (f.chunks n) w = some (outs, w') →
        none ∈ outs → d.Refuses (d.clock + 1) (outs.map fun o => (o.getD []).length)

/-- A call in the record has failed when one of the outcomes is an error exit. -/
theorem exists_failed_call_iff {cs : List Bytes} {outs : List (Option Bytes)}
    (hlen : outs.length = cs.length) {ivBuffer ikBuffer : Bytes} :
    (∃ c ∈ cs.zipWith (fun c o => CipherCall.mk dir alg c ivBuffer ikBuffer o) outs,
      c.result = none) ↔ none ∈ outs := by
  rw [← List.mem_map, map_result_zipWith hlen]

/-- A write of the outcomes is refused when one is failed and a fault comes. -/
theorem write_refused_iff {outs : List (Option Bytes)} (hfailed : none ∈ outs) :
    (writeFile fileOutput (outs.map fun o => o.getD []) (IfStream.new fileInput d).2).1 = false ↔
      d.Refuses (d.clock + 1) (outs.map fun o => (o.getD []).length) := by
  have hne : outs.map (fun o => o.getD []) ≠ [] := by
    rw [Ne, List.map_eq_nil_iff]
    rintro rfl
    exact List.not_mem_nil hfailed
  rw [writeFile_refused_iff, and_iff_right hne, List.map_map]
  rfl

theorem crypt_noSilentFailure_iff (hn : 0 < n) :
    NoSilentFailure (crypt (recorded ciphers dir) alg.mode fileInput fileOutput iv ik n) d w ↔
      FailuresSurface (ciphers dir alg) fileInput fileOutput iv ik n d w := by
  constructor
  · intro h hlt hne hopen f hf outs w' hall hfailed
    rw [← write_refused_iff hfailed]
    by_contra haccepted
    rw [Bool.not_eq_false] at haccepted
    rw [← seenContent_of_ne hne hf] at hall
    have hgood := IfStream.good_new_iff.2 ⟨hopen, f, hf⟩
    refine h (.ok 1) _ ((crypt_recorded_eq_some ⟨hn, hlt⟩ hgood).2
      ⟨outs, w', hall, by rw [if_pos haccepted], rfl⟩) ?_ rfl
    exact (exists_failed_call_iff (length_of_cipherAll hall)).2 hfailed
  · intro h code s' hrun hfailed hcode
    rcases Nat.lt_or_ge n (2 ^ 63) with hlt | hle
    swap
    · rw [crypt_of_le hle] at hrun
      have herror : .error () = code := congrArg Prod.fst (Option.some_inj.1 hrun)
      rw [hcode] at herror
      cases herror
    by_cases hgood : (IfStream.new fileInput d).1.good = true
    · obtain ⟨outs, w', hall, hc, rfl⟩ := (crypt_recorded_eq_some ⟨hn, hlt⟩ hgood).1 hrun
      rw [exists_failed_call_iff (length_of_cipherAll hall)] at hfailed
      have haccepted : ¬ d.Refuses (d.clock + 1) (outs.map fun o => (o.getD []).length) := by
        intro hrefuses
        rw [(write_refused_iff hfailed).2 hrefuses, hcode] at hc
        exact absurd hc (by decide)
      obtain ⟨hopen, f, hf⟩ := IfStream.good_new_iff.1 hgood
      by_cases hne : cString fileInput = cString fileOutput
      · -- The file has been emptied by opening it for output: there was no call.
        rw [seenContent_self (not_not.1 fun hfault => haccepted (Or.inl hfault)) hne,
          List.chunks_nil, cipherAll_nil] at hall
        obtain ⟨rfl, -⟩ := Prod.mk.inj (Option.some_inj.1 hall)
        exact List.not_mem_nil hfailed
      · rw [seenContent_of_ne hne hf] at hall
        exact haccepted (h hlt hne hopen f hf outs w' hall hfailed)
    · rw [crypt_of_not_good hlt (by simpa using hgood)] at hrun
      have hminus : .ok (-1) = code := congrArg Prod.fst (Option.some_inj.1 hrun)
      rw [hcode] at hminus
      exact absurd hminus (by decide)

/-- **When failures are not silent.** For every EVP interface, every disk with its faults, both
modes and every positive chunk size: a failed per-chunk call keeps `file::encrypt`, and
`file::decrypt`, from returning 1 exactly when it comes with a fault of the disk at the opening
of the output file or at one of the times its stream's buffer is passed on. -/
theorem fileCrypt_noSilentFailure_iff (evp : Evp W) (hn : 1 ≤ n) :
    (NoSilentFailure (encrypt (recorded evp.ciphers) alg.mode fileInput fileOutput iv ik n) d w ↔
      FailuresSurface (evp.ciphers .encrypt alg) fileInput fileOutput iv ik n d w) ∧
    (NoSilentFailure (decrypt (recorded evp.ciphers) alg.mode fileInput fileOutput iv ik n) d w ↔
      FailuresSurface (evp.ciphers .decrypt alg) fileInput fileOutput iv ik n d w) :=
  ⟨crypt_noSilentFailure_iff hn, crypt_noSilentFailure_iff hn⟩

/-- A GCM decryption of a file that is shorter than a tag: its one call fails. -/
theorem decrypt_short_noSilentFailure_iff :
    (NoSilentFailure (encrypt (recorded (Evp.ofSealing knownSealing).ciphers) Alg.aes256Gcm.mode
        (str "in") (str "out") (str "1111111111111111") (str "00000000000000000000000000000000") 32)
        (Disk.single (str "in") (str "abc")) ⟨.aes256Gcm, [], [], [], []⟩ ↔
      FailuresSurface ((Evp.ofSealing knownSealing).ciphers .encrypt .aes256Gcm) (str "in")
        (str "out") (str "1111111111111111") (str "00000000000000000000000000000000") 32
        (Disk.single (str "in") (str "abc")) ⟨.aes256Gcm, [], [], [], []⟩) ∧
    (NoSilentFailure (decrypt (recorded (Evp.ofSealing knownSealing).ciphers) Alg.aes256Gcm.mode
        (str "in") (str "out") (str "1111111111111111") (str "00000000000000000000000000000000") 32)
        (Disk.single (str "in") (str "abc")) ⟨.aes256Gcm, [], [], [], []⟩ ↔
      FailuresSurface ((Evp.ofSealing knownSealing).ciphers .decrypt .aes256Gcm) (str "in")
        (str "out") (str "1111111111111111") (str "00000000000000000000000000000000") 32
        (Disk.single (str "in") (str "abc")) ⟨.aes256Gcm, [], [], [], []⟩) :=
  fileCrypt_noSilentFailure_iff _ (by decide)

/-- The decryption of a file that is shorter than a tag returns 1, although its call failed. -/
theorem decrypt_short_silent :
    ¬ NoSilentFailure (decrypt (recorded (Evp.ofSealing knownSealing).ciphers)
      Alg.aes256Gcm.mode (str "in") (str "out") (str "1111111111111111")
      (str "00000000000000000000000000000000") 32)
      (Disk.single (str "in") (str "abc")) ⟨.aes256Gcm, [], [], [], []⟩ := by
  intro h
  refine h (.ok 1) _ rfl ⟨⟨.decrypt, .aes256Gcm, str "abc", str "1111111111111111",
    str "00000000000000000000000000000000", none⟩, List.Mem.head _, rfl⟩ rfl

end Behh
