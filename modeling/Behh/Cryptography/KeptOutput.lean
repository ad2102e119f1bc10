import Behh.Cryptography.CallTrace
import Behh.Openssl.Reference

/-!
# The output parameter of the string ciphers

`EVP_DecryptUpdate` writes plaintext before `EVP_DecryptFinal_ex` checks the padding or the tag. The
four string functions of `stream_cipher` collect it in a vector of their own and assign their output
parameter behind the last call that can fail. So every exit with another code than 1 leaves the
parameter as it was, and what a GCM decryption assigns has passed the tag check.

## Main definitions

* `KeepsOutput`: a program with an output parameter keeps it unless it returns 1.

## Main results

* `keepsOutput_toCode`: the ending of a session keeps it.
* `stringCiphers_output`: so do the four functions.
-/

namespace Behh

variable {W : Type} {evp : Evp W} {output : Bytes}

/-- Every run of the program that returns another code than 1 leaves the output at `output`. -/
def KeepsOutput (output : Bytes) (x : Prog W (ℤ × Bytes)) : Prop :=
  ∀ w code out w', x w = some ((code, out), w') → code ≠ 1 → out = output

/-- Whatever the session does, its ending assigns the output only when it returns 1. -/
theorem keepsOutput_toCode (x : Prog W SessionEnd) (start : ℕ) (text : Bytes → Bytes) :
    KeepsOutput output (x >>= SessionEnd.toCode evp start output text) := by
  intro w code out w' h hcode
  obtain ⟨e, w₁, -, he⟩ := Prog.bind_eq_some_iff.1 h
  cases e with
  | noContext => exact (congrArg (fun r => r.1.2) (Option.some_inj.1 he)).symm
  | failed ctx step => exact (congrArg (fun r => r.1.2) (Option.some_inj.1 he)).symm
  | done ctx v total =>
    have hone : 1 = code := congrArg (fun r => r.1.1) (Option.some_inj.1 he)
    exact absurd hone.symm hcode

theorem keepsOutput_pure (code : ℤ) : KeepsOutput output (pure (code, output) : Prog W _) := by
  intro w code' out w' h _
  exact (congrArg (fun r => r.1.2) (Option.some_inj.1 h)).symm

theorem keepsOutput_stringCiphers (evp : Evp W) (dir : Dir) (alg : Alg)
    (input output iv ik : Bytes) :
    KeepsOutput output (evp.stringCiphers dir alg input output iv ik) := by
  obtain hrefused | ⟨x, start, text, -, hsession⟩ :=
    stringCiphers_cases evp dir alg input output iv ik
  · rw [hrefused]
    exact keepsOutput_pure _
  · rw [hsession]
    exact keepsOutput_toCode x start text

/-- A GCM decryption of these bytes passes the tag check, with the last 16 of them as the tag. -/
def PassesTagCheck (evp : Evp W) (b iv ik : Bytes) (w : W) : Prop :=
  Nonempty (GcmOpenRun evp (cStr ik) (cStr iv) ((cStr b).take (toInt (b.length - 16)).toNat)
    (b.drop (b.length - 16)) w)

/-- A GCM decryption returns 1 only if the tag check is passed. -/
theorem passesTagCheck_of_eq_one {input iv ik out : Bytes} {w w' : W}
    (h : aesGcmDecryptOpenssl evp input output iv ik w = some ((1, out), w')) :
    PassesTagCheck evp (stringFromCustomBase36Openssl input) iv ik w := by
  rw [aesGcmDecryptOpenssl_eq] at h
  split_ifs at h with hshort
  · have hcode : (-1 : ℤ) = 1 := congrArg (fun r => r.1.1) (Option.some_inj.1 h)
    exact absurd hcode (by decide)
  · obtain ⟨ctx, v, total, w₁, hdone, -⟩ := done_of_toCode h
    obtain ⟨-, r, -⟩ := run_of_gcmOpenSession hdone
    exact ⟨r⟩

/-- **The output parameter.** With every EVP call free to succeed or to fail, for every text, IV,
key and initial value: a string function that returns another code than 1 leaves its output
parameter as it was. In particular a GCM decryption does so when the tag check is not passed. -/
theorem stringCiphers_output (evp : Evp W) (dir : Dir) (alg : Alg) {input output iv ik out : Bytes}
    {w w' : W} {code : ℤ}
    (h : evp.stringCiphers dir alg input output iv ik w = some ((code, out), w')) :
    (code ≠ 1 → out = output) ∧
      (dir = .decrypt → alg = .aes256Gcm →
        ¬PassesTagCheck evp (stringFromCustomBase36Openssl input) iv ik w → out = output) := by
  have hkeeps := keepsOutput_stringCiphers evp dir alg input output iv ik w code out w' h
  refine ⟨hkeeps, ?_⟩
  rintro rfl rfl htag
  refine hkeeps ?_
  rintro rfl
  exact htag (passesTagCheck_of_eq_one h)

/-- The text of the AES-256 ciphertext of `"a"` with the last byte of its tag changed. -/
def tamperedText : Bytes :=
  stringToCustomBase36Openssl ((knownCiphertext .aes256Gcm).dropLast ++ [0])

theorem aesGcmDecryptOpenssl_tampered (output : Bytes) (w : Slot) :
    ∃ w', aesGcmDecryptOpenssl (Evp.ofSealing knownSealing) tamperedText output
      (str "1111111111111111") (str "00000000000000000000000000000000") w =
        some ((-6, output), w') := by
  rw [aesGcmDecryptOpenssl_eq, tamperedText, stringFromCustomBase36Openssl_stringTo,
    if_neg (by decide)]
  exact ⟨_, rfl⟩

/-- The plaintext of a text with a wrong tag does not reach the output parameter. -/
theorem stringCiphers_output_tampered : ∃ out w', (Evp.ofSealing knownSealing).stringCiphers
      .decrypt .aes256Gcm tamperedText (str "old") (str "1111111111111111")
        (str "00000000000000000000000000000000") ⟨.aes256Gcm, [], [], [], []⟩ =
      some ((-6, out), w') ∧
    (((-6 : ℤ) ≠ 1 → out = str "old") ∧
      (Dir.decrypt = .decrypt → Alg.aes256Gcm = .aes256Gcm →
        ¬PassesTagCheck (Evp.ofSealing knownSealing) (stringFromCustomBase36Openssl tamperedText)
          (str "1111111111111111") (str "00000000000000000000000000000000")
          ⟨.aes256Gcm, [], [], [], []⟩ → out = str "old")) := by
  obtain ⟨w', hrun⟩ := aesGcmDecryptOpenssl_tampered (str "old") ⟨.aes256Gcm, [], [], [], []⟩
  exact ⟨str "old", w', hrun, stringCiphers_output _ .decrypt .aes256Gcm hrun⟩

end Behh
