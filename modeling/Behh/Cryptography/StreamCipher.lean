import Behh.Cryptography.Base36
import Behh.Openssl.Evp

/-!
# The AES functions

The eight functions of the namespace `stream_cipher` in `src/cryptography.cc`, lines 196–567, over
an arbitrary EVP interface.

The four string functions return a code and the value of their output parameter; the four buffer
functions return `none` at their error exits, where the source returns an empty vector. The
messages on the standard error stream are left out, and so are the calls that load and unload
algorithms and error texts.

All eight run one of three sessions (`plainSession`, `gcmSealSession`, `gcmOpenSession`) and differ
in the pointers and sizes they give to it and in what they do at its end. Each is proved equal to
its session with its own ending, and what is known about the sessions is then known about all.

## Main definitions

* `aesCbcEncryptOpenssl`, `aesCbcDecryptOpenssl`, `aesGcmEncryptOpenssl`, `aesGcmDecryptOpenssl`:
  the string functions.
* `aesCbcEncryptToBufferOpenssl`, `aesCbcDecryptToBufferOpenssl`,
  `aesGcmEncryptToBufferOpenssl`, `aesGcmDecryptToBufferOpenssl`: the buffer functions.
* `plainSession`, `gcmSealSession`, `gcmOpenSession`: what they have in common.

## Main results

* `plainSession_of_run`, `gcmSealSession_of_run`, `gcmOpenSession_of_run`: a session whose calls
  succeed and whose output fits is done.
* `run_of_plainSession`, `run_of_gcmSealSession`, `run_of_gcmOpenSession`: the calls of a session
  that is done have succeeded, and its output is what they have written.
-/

namespace Behh

variable {W : Type}

/-! ### Calls that write into a vector -/

/-- `EVP_EncryptUpdate(pCtx, out.data(), &len, in, inl)` and the same for decryption: the vector
and `len` afterwards. A negative length makes the call fail. -/
def updateInto (evp : Evp W) (dir : Dir) (ctx : Ctx) (out src : Bytes) (inl : ℤ) :
    Prog W (Option (Bytes × ℕ)) := do
  if inl < 0 then return none
  let some data ← Prog.call (evp.update dir ctx (src.take inl.toNat)) | return none
  let out ← writeOut out 0 data
  return some (out, data.length)

/-- `EVP_EncryptFinal_ex(pCtx, out.data() + off, &len)` and the same for decryption. -/
def finalInto (evp : Evp W) (dir : Dir) (ctx : Ctx) (out : Bytes) (off : ℕ) :
    Prog W (Option (Bytes × ℕ)) := do
  let some data ← Prog.call (evp.final dir ctx) | return none
  let out ← writeOut out off data
  return some (out, data.length)

/-- `EVP_CIPHER_CTX_ctrl(pCtx, EVP_CTRL_GCM_GET_TAG, AES_BLOCK_SIZE, out.data() + off)`. -/
def getTagInto (evp : Evp W) (ctx : Ctx) (out : Bytes) (off : ℕ) : Prog W (Option Bytes) := do
  let some tag ← Prog.call (evp.getTag ctx) | return none
  let out ← writeOut out off tag.1
  return some out

/-! ### The string functions -/

/-- `aes_cbc_encrypt_openssl`. -/
def aesCbcEncryptOpenssl (evp : Evp W) (input output iv ik : Bytes) : Prog W (ℤ × Bytes) := do
  let some ctx ← Prog.call evp.ctxNew | return (-1, output)
  if !(← Prog.call (evp.init .encrypt ctx .aes256Cbc (cStr ik) (cStr iv))) then
    Prog.call (evp.ctxFree ctx)
    return (-2, output)
  let ciphertext := List.replicate (input.length + aesBlockSize) 0
  let some (ciphertext, len) ←
      updateInto evp .encrypt ctx ciphertext (cStr input) (toInt input.length) | do
    Prog.call (evp.ctxFree ctx)
    return (-3, output)
  let ciphertextLen := len
  let some (ciphertext, len) ← finalInto evp .encrypt ctx ciphertext len | do
    Prog.call (evp.ctxFree ctx)
    return (-4, output)
  let ciphertextLen ← addInt ciphertextLen len
  let tmpOut := ciphertext.take ciphertextLen
  let output := stringToCustomBase36Openssl tmpOut
  Prog.call (evp.ctxFree ctx)
  return (1, output)

/-- `aes_cbc_decrypt_openssl`. -/
def aesCbcDecryptOpenssl (evp : Evp W) (input output iv ik : Bytes) : Prog W (ℤ × Bytes) := do
  let binaryInput := stringFromCustomBase36Openssl input
  let some ctx ← Prog.call evp.ctxNew | return (-1, output)
  if !(← Prog.call (evp.init .decrypt ctx .aes256Cbc (cStr ik) (cStr iv))) then
    Prog.call (evp.ctxFree ctx)
    return (-2, output)
  let plaintext := List.replicate (binaryInput.length + aesBlockSize) 0
  let some (plaintext, len) ←
      updateInto evp .decrypt ctx plaintext (cStr binaryInput) (toInt binaryInput.length) | do
    Prog.call (evp.ctxFree ctx)
    return (-3, output)
  let plaintextLen := len
  let some (plaintext, len) ← finalInto evp .decrypt ctx plaintext len | do
    Prog.call (evp.ctxFree ctx)
    return (-4, output)
  let plaintextLen ← addInt plaintextLen len
  let output := plaintext.take plaintextLen
  Prog.call (evp.ctxFree ctx)
  return (1, output)

/-- `aes_gcm_encrypt_openssl`. -/
def aesGcmEncryptOpenssl (evp : Evp W) (input output iv ik : Bytes) : Prog W (ℤ × Bytes) := do
  let some ctx ← Prog.call evp.ctxNew | return (-1, output)
  if !(← Prog.call (evp.init .encrypt ctx .aes256Gcm (cStr ik) (cStr iv))) then
    Prog.call (evp.ctxFree ctx)
    return (-2, output)
  let ciphertext := List.replicate (input.length + aesBlockSize) 0
  let some (ciphertext, len) ←
      updateInto evp .encrypt ctx ciphertext (cStr input) (toInt input.length) | do
    Prog.call (evp.ctxFree ctx)
    return (-3, output)
  let ciphertextLen := len
  let some (ciphertext, len) ← finalInto evp .encrypt ctx ciphertext len | do
    Prog.call (evp.ctxFree ctx)
    return (-4, output)
  let ciphertextLen ← addInt ciphertextLen len
  let some ciphertext ← getTagInto evp ctx ciphertext ciphertextLen | do
    Prog.call (evp.ctxFree ctx)
    return (-5, output)
  let ciphertextLen ← addInt ciphertextLen aesBlockSize
  let tmpOut := ciphertext.take ciphertextLen
  let output := stringToCustomBase36Openssl tmpOut
  Prog.call (evp.ctxFree ctx)
  return (1, output)

/-- `aes_gcm_decrypt_openssl`. -/
def aesGcmDecryptOpenssl (evp : Evp W) (input output iv ik : Bytes) : Prog W (ℤ × Bytes) := do
  let binaryInput := stringFromCustomBase36Openssl input
  if toInt binaryInput.length < aesBlockSize then return (-1, output)
  let cipherLen := binaryInput.length - aesBlockSize
  let tag := binaryInput.drop (binaryInput.length - aesBlockSize)
  let some ctx ← Prog.call evp.ctxNew | return (-2, output)
  if !(← Prog.call (evp.init .decrypt ctx .aes256Gcm (cStr ik) (cStr iv))) then
    Prog.call (evp.ctxFree ctx)
    return (-3, output)
  let plaintext := List.replicate (binaryInput.length + aesBlockSize) 0
  let some (plaintext, len) ←
      updateInto evp .decrypt ctx plaintext (cStr binaryInput) (toInt cipherLen) | do
    Prog.call (evp.ctxFree ctx)
    return (-4, output)
  let plaintextLen := len
  if !(← Prog.call (evp.setTag ctx tag)) then
    Prog.call (evp.ctxFree ctx)
    return (-5, output)
  let some (plaintext, len) ← finalInto evp .decrypt ctx plaintext len | do
    Prog.call (evp.ctxFree ctx)
    return (-6, output)
  let plaintextLen ← addInt plaintextLen len
  let output := plaintext.take plaintextLen
  Prog.call (evp.ctxFree ctx)
  return (1, output)

/-! ### The buffer functions -/

/-- `aes_cbc_encrypt_to_buffer_openssl`. -/
def aesCbcEncryptToBufferOpenssl (evp : Evp W) (buffer ivBuffer ikBuffer : Bytes) :
    Prog W (Option Bytes) := do
  let some ctx ← Prog.call evp.ctxNew | return none
  if !(← Prog.call (evp.init .encrypt ctx .aes256Cbc ikBuffer ivBuffer)) then
    return none
  let ciphertext := List.replicate (buffer.length + aesBlockSize) 0
  let some (ciphertext, len) ←
    updateInto evp .encrypt ctx ciphertext buffer (toInt buffer.length) | return none
  let ciphertextLen := len
  let some (ciphertext, len) ← finalInto evp .encrypt ctx ciphertext len | return none
  let ciphertextLen ← addInt ciphertextLen len
  let ciphertext := resize ciphertext ciphertextLen
  Prog.call (evp.ctxFree ctx)
  return some ciphertext

/-- `aes_cbc_decrypt_to_buffer_openssl`. -/
def aesCbcDecryptToBufferOpenssl (evp : Evp W) (buffer ivBuffer ikBuffer : Bytes) :
    Prog W (Option Bytes) := do
  let some ctx ← Prog.call evp.ctxNew | return none
  if !(← Prog.call (evp.init .decrypt ctx .aes256Cbc ikBuffer ivBuffer)) then
    return none
  let plaintext := List.replicate buffer.length 0
  let some (plaintext, len) ←
    updateInto evp .decrypt ctx plaintext buffer (toInt buffer.length) | return none
  let plaintextLen := len
  let some (plaintext, len) ← finalInto evp .decrypt ctx plaintext len | return none
  let plaintextLen ← addInt plaintextLen len
  let plaintext := resize plaintext plaintextLen
  Prog.call (evp.ctxFree ctx)
  return some plaintext

/-- `aes_gcm_encrypt_to_buffer_openssl`. -/
def aesGcmEncryptToBufferOpenssl (evp : Evp W) (buffer ivBuffer ikBuffer : Bytes) :
    Prog W (Option Bytes) := do
  let some ctx ← Prog.call evp.ctxNew | return none
  if !(← Prog.call (evp.init .encrypt ctx .aes256Gcm ikBuffer ivBuffer)) then
    return none
  let ciphertext := List.replicate (buffer.length + aesBlockSize) 0
  let some (ciphertext, len) ←
    updateInto evp .encrypt ctx ciphertext buffer (toInt buffer.length) | return none
  let ciphertextLen := len
  let some (ciphertext, len) ← finalInto evp .encrypt ctx ciphertext len | return none
  let ciphertextLen ← addInt ciphertextLen len
  let some ciphertext ← getTagInto evp ctx ciphertext ciphertextLen | return none
  let ciphertextLen ← addInt ciphertextLen aesBlockSize
  let ciphertext := resize ciphertext ciphertextLen
  Prog.call (evp.ctxFree ctx)
  return some ciphertext

/-- `aes_gcm_decrypt_to_buffer_openssl`. -/
def aesGcmDecryptToBufferOpenssl (evp : Evp W) (buffer ivBuffer ikBuffer : Bytes) :
    Prog W (Option Bytes) := do
  if toInt buffer.length < aesBlockSize then return none
  let cipherLen := buffer.length - aesBlockSize
  let tag := buffer.drop (buffer.length - aesBlockSize)
  let some ctx ← Prog.call evp.ctxNew | return none
  if !(← Prog.call (evp.init .decrypt ctx .aes256Gcm ikBuffer ivBuffer)) then
    return none
  let plaintext := List.replicate buffer.length 0
  let some (plaintext, len) ←
    updateInto evp .decrypt ctx plaintext buffer (toInt cipherLen) | return none
  let plaintextLen := len
  if !(← Prog.call (evp.setTag ctx tag)) then
    return none
  let some (plaintext, len) ← finalInto evp .decrypt ctx plaintext len | return none
  let plaintextLen ← addInt plaintextLen len
  let plaintext := resize plaintext plaintextLen
  Prog.call (evp.ctxFree ctx)
  return some plaintext

/-! ### Sessions -/

/-- How a session ends: without a context, at a call that fails, or with a vector and the number
of bytes written to it. -/
inductive SessionEnd where
  | noContext
  | failed (ctx : Ctx) (step : ℕ)
  | done (ctx : Ctx) (out : Bytes) (total : ℕ)

/-- A session without a tag: `inl` bytes of `src` are given to the update, and the output is
written into a vector of length `size`. -/
def plainSession (evp : Evp W) (dir : Dir) (alg : Alg) (key iv src : Bytes) (inl : ℤ) (size : ℕ) :
    Prog W SessionEnd := do
  let some ctx ← Prog.call evp.ctxNew | return .noContext
  if !(← Prog.call (evp.init dir ctx alg key iv)) then
    return .failed ctx 1
  let some (out, len) ← updateInto evp dir ctx (List.replicate size 0) src inl |
    return .failed ctx 2
  let some (out, last) ← finalInto evp dir ctx out len | return .failed ctx 3
  let total ← addInt len last
  return .done ctx out total

/-- A GCM encryption, with the tag behind the ciphertext. -/
def gcmSealSession (evp : Evp W) (key iv src : Bytes) (inl : ℤ) (size : ℕ) :
    Prog W SessionEnd := do
  match ← plainSession evp .encrypt .aes256Gcm key iv src inl size with
  | .done ctx out total => do
    let some out ← getTagInto evp ctx out total | return .failed ctx 4
    let total ← addInt total 16
    return .done ctx out total
  | e => return e

/-- A GCM decryption, with the tag set after the update. -/
def gcmOpenSession (evp : Evp W) (key iv src : Bytes) (inl : ℤ) (tag : Bytes) (size : ℕ) :
    Prog W SessionEnd := do
  let some ctx ← Prog.call evp.ctxNew | return .noContext
  if !(← Prog.call (evp.init .decrypt ctx .aes256Gcm key iv)) then
    return .failed ctx 1
  let some (out, len) ← updateInto evp .decrypt ctx (List.replicate size 0) src inl |
    return .failed ctx 2
  if !(← Prog.call (evp.setTag ctx tag)) then
    return .failed ctx 3
  let some (out, last) ← finalInto evp .decrypt ctx out len | return .failed ctx 4
  let total ← addInt len last
  return .done ctx out total

/-- The ending of a string function whose session is its `start`-th fallible step: a code for
each failure, the context freed, and the output parameter assigned in case of success only. -/
def SessionEnd.toCode (evp : Evp W) (start : ℕ) (output : Bytes) (text : Bytes → Bytes) :
    SessionEnd → Prog W (ℤ × Bytes)
  | noContext => return (-start, output)
  | failed ctx step => do
    Prog.call (evp.ctxFree ctx)
    return (-(start + step : ℕ), output)
  | done ctx out total => do
    Prog.call (evp.ctxFree ctx)
    return (1, text (out.take total))

/-- The ending of a buffer function: the context is freed in case of success only. -/
def SessionEnd.toBuffer (evp : Evp W) : SessionEnd → Prog W (Option Bytes)
  | noContext => return none
  | failed _ _ => return none
  | done ctx out total => do
    Prog.call (evp.ctxFree ctx)
    return some (resize out total)

/-! ### Each function is a session with its ending -/

section

variable {β : Type}

theorem plainSession_bind (evp : Evp W) (dir : Dir) (alg : Alg) (key iv src : Bytes) (inl : ℤ)
    (size : ℕ) (f : SessionEnd → Prog W β) :
    plainSession evp dir alg key iv src inl size >>= f = (do
      let some ctx ← Prog.call evp.ctxNew | f .noContext
      if !(← Prog.call (evp.init dir ctx alg key iv)) then
        f (.failed ctx 1)
      else
        let some (out, len) ← updateInto evp dir ctx (List.replicate size 0) src inl |
          f (.failed ctx 2)
        let some (out, last) ← finalInto evp dir ctx out len | f (.failed ctx 3)
        let total ← addInt len last
        f (.done ctx out total)) := by
  simp only [plainSession, bind_assoc]
  refine bind_congr fun
    | none => rfl
    | some ctx => ?_
  simp only [bind_assoc]
  refine bind_congr fun
    | false => rfl
    | true => ?_
  simp only [Bool.not_true, Bool.false_eq_true, if_false, bind_assoc]
  refine bind_congr fun
    | none => rfl
    | some (out, len) => ?_
  simp only [bind_assoc]
  refine bind_congr fun
    | none => rfl
    | some (out, last) => ?_
  simp only [bind_assoc]
  exact bind_congr fun total => rfl

theorem gcmSealSession_bind (evp : Evp W) (key iv src : Bytes) (inl : ℤ) (size : ℕ)
    (f : SessionEnd → Prog W β) :
    gcmSealSession evp key iv src inl size >>= f =
      plainSession evp .encrypt .aes256Gcm key iv src inl size >>= fun
        | .done ctx out total => do
          let some out ← getTagInto evp ctx out total | f (.failed ctx 4)
          let total ← addInt total 16
          f (.done ctx out total)
        | e => f e := by
  rw [gcmSealSession, bind_assoc]
  refine bind_congr fun
    | .noContext => rfl
    | .failed ctx step => rfl
    | .done ctx out total => ?_
  simp only [bind_assoc]
  refine bind_congr fun
    | none => rfl
    | some out => ?_
  simp only [bind_assoc]
  exact bind_congr fun total => rfl

theorem gcmOpenSession_bind (evp : Evp W) (key iv src : Bytes) (inl : ℤ) (tag : Bytes) (size : ℕ)
    (f : SessionEnd → Prog W β) :
    gcmOpenSession evp key iv src inl tag size >>= f = (do
      let some ctx ← Prog.call evp.ctxNew | f .noContext
      if !(← Prog.call (evp.init .decrypt ctx .aes256Gcm key iv)) then
        f (.failed ctx 1)
      else
        let some (out, len) ← updateInto evp .decrypt ctx (List.replicate size 0) src inl |
          f (.failed ctx 2)
        if !(← Prog.call (evp.setTag ctx tag)) then
          f (.failed ctx 3)
        else
          let some (out, last) ← finalInto evp .decrypt ctx out len | f (.failed ctx 4)
          let total ← addInt len last
          f (.done ctx out total)) := by
  simp only [gcmOpenSession, bind_assoc]
  refine bind_congr fun
    | none => rfl
    | some ctx => ?_
  simp only [bind_assoc]
  refine bind_congr fun
    | false => rfl
    | true => ?_
  simp only [Bool.not_true, Bool.false_eq_true, if_false, bind_assoc]
  refine bind_congr fun
    | none => rfl
    | some (out, len) => ?_
  simp only [bind_assoc]
  refine bind_congr fun
    | false => rfl
    | true => ?_
  simp only [Bool.not_true, Bool.false_eq_true, if_false, bind_assoc]
  refine bind_congr fun
    | none => rfl
    | some (out, last) => ?_
  simp only [bind_assoc]
  exact bind_congr fun total => rfl

end

-- With the ending moved into the session, each function is its session by unfolding.
theorem aesCbcEncryptOpenssl_eq (evp : Evp W) (input output iv ik : Bytes) :
    aesCbcEncryptOpenssl evp input output iv ik =
      plainSession evp .encrypt .aes256Cbc (cStr ik) (cStr iv) (cStr input) (toInt input.length)
        (input.length + 16) >>=
        SessionEnd.toCode evp 1 output stringToCustomBase36Openssl := by
  rw [plainSession_bind, aesCbcEncryptOpenssl]
  rfl

theorem aesCbcDecryptOpenssl_eq (evp : Evp W) (input output iv ik : Bytes) :
    aesCbcDecryptOpenssl evp input output iv ik =
      plainSession evp .decrypt .aes256Cbc (cStr ik) (cStr iv)
        (cStr (stringFromCustomBase36Openssl input))
        (toInt (stringFromCustomBase36Openssl input).length)
        ((stringFromCustomBase36Openssl input).length + 16) >>=
        SessionEnd.toCode evp 1 output id := by
  rw [plainSession_bind, aesCbcDecryptOpenssl]
  rfl

theorem aesGcmEncryptOpenssl_eq (evp : Evp W) (input output iv ik : Bytes) :
    aesGcmEncryptOpenssl evp input output iv ik =
      gcmSealSession evp (cStr ik) (cStr iv) (cStr input) (toInt input.length)
        (input.length + 16) >>=
        SessionEnd.toCode evp 1 output stringToCustomBase36Openssl := by
  rw [gcmSealSession_bind, plainSession_bind, aesGcmEncryptOpenssl]
  rfl

theorem aesGcmDecryptOpenssl_eq (evp : Evp W) (input output iv ik : Bytes) :
    aesGcmDecryptOpenssl evp input output iv ik =
      if toInt (stringFromCustomBase36Openssl input).length < 16 then
        pure (-1, output)
      else
        gcmOpenSession evp (cStr ik) (cStr iv) (cStr (stringFromCustomBase36Openssl input))
          (toInt ((stringFromCustomBase36Openssl input).length - 16))
          ((stringFromCustomBase36Openssl input).drop
            ((stringFromCustomBase36Openssl input).length - 16))
          ((stringFromCustomBase36Openssl input).length + 16) >>=
          SessionEnd.toCode evp 2 output id := by
  rw [gcmOpenSession_bind, aesGcmDecryptOpenssl]
  rfl

theorem aesCbcEncryptToBufferOpenssl_eq (evp : Evp W) (buffer ivBuffer ikBuffer : Bytes) :
    aesCbcEncryptToBufferOpenssl evp buffer ivBuffer ikBuffer =
      plainSession evp .encrypt .aes256Cbc ikBuffer ivBuffer buffer (toInt buffer.length)
        (buffer.length + 16) >>= SessionEnd.toBuffer evp := by
  rw [plainSession_bind, aesCbcEncryptToBufferOpenssl]
  rfl

theorem aesCbcDecryptToBufferOpenssl_eq (evp : Evp W) (buffer ivBuffer ikBuffer : Bytes) :
    aesCbcDecryptToBufferOpenssl evp buffer ivBuffer ikBuffer =
      plainSession evp .decrypt .aes256Cbc ikBuffer ivBuffer buffer (toInt buffer.length)
        buffer.length >>= SessionEnd.toBuffer evp := by
  rw [plainSession_bind, aesCbcDecryptToBufferOpenssl]
  rfl

theorem aesGcmEncryptToBufferOpenssl_eq (evp : Evp W) (buffer ivBuffer ikBuffer : Bytes) :
    aesGcmEncryptToBufferOpenssl evp buffer ivBuffer ikBuffer =
      gcmSealSession evp ikBuffer ivBuffer buffer (toInt buffer.length)
        (buffer.length + 16) >>= SessionEnd.toBuffer evp := by
  rw [gcmSealSession_bind, plainSession_bind, aesGcmEncryptToBufferOpenssl]
  rfl

theorem aesGcmDecryptToBufferOpenssl_eq (evp : Evp W) (buffer ivBuffer ikBuffer : Bytes) :
    aesGcmDecryptToBufferOpenssl evp buffer ivBuffer ikBuffer =
      if toInt buffer.length < 16 then pure none
      else
        gcmOpenSession evp ikBuffer ivBuffer buffer (toInt (buffer.length - 16))
          (buffer.drop (buffer.length - 16)) buffer.length >>=
          SessionEnd.toBuffer evp := by
  rw [gcmOpenSession_bind, aesGcmDecryptToBufferOpenssl]
  rfl

/-! ### Runs of the calls that write into a vector -/

variable {evp : Evp W} {dir : Dir} {alg : Alg} {key iv src data tag : Bytes} {inl : ℤ} {size : ℕ}
  {ctx : Ctx} {w w' : W}

theorem updateInto_of_update (h : evp.update dir ctx (src.take inl.toNat) w = (some data, w'))
    (hinl : 0 ≤ inl) (hfit : data.length ≤ size) :
    updateInto evp dir ctx (List.replicate size 0) src inl w =
      some (some (written size data, data.length), w') := by
  have hwrite := writeOut_written (W := W) (show ([] ++ data).length ≤ size from hfit)
  rw [List.length_nil, List.nil_append, ← replicate_eq_written] at hwrite
  simp [updateInto, not_lt.2 hinl, h, hwrite]

theorem finalInto_of_final {first : Bytes} (h : evp.final dir ctx w = (some data, w'))
    (hfit : (first ++ data).length ≤ size) :
    finalInto evp dir ctx (written size first) first.length w =
      some (some (written size (first ++ data), data.length), w') := by
  simp [finalInto, h, writeOut_written hfit]

theorem getTagInto_of_getTag {first : Bytes} {tag : Tag}
    (h : evp.getTag ctx w = (some tag, w')) (hfit : (first ++ tag.1).length ≤ size) :
    getTagInto evp ctx (written size first) first.length w =
      some (some (written size (first ++ tag.1)), w') := by
  simp [getTagInto, h, writeOut_written hfit]

theorem updateInto_eq_some {out : Bytes} {len : ℕ}
    (h : updateInto evp dir ctx (List.replicate size 0) src inl w = some (some (out, len), w')) :
    0 ≤ inl ∧ ∃ data, evp.update dir ctx (src.take inl.toNat) w = (some data, w') ∧
      out = written size data ∧ len = data.length := by
  rcases lt_or_ge inl 0 with hneg | hinl
  · simp [updateInto, hneg] at h
  rcases hupdate : evp.update dir ctx (src.take inl.toNat) w with ⟨_ | data, w₁⟩
  · simp [updateInto, not_lt.2 hinl, hupdate] at h
  rcases hwrite : writeOut (List.replicate size 0) 0 data w₁ with _ | ⟨v, w₂⟩
  · simp [updateInto, not_lt.2 hinl, hupdate, hwrite] at h
  obtain ⟨⟨rfl, rfl⟩, rfl⟩ : (v = out ∧ data.length = len) ∧ w₂ = w' := by
    simpa [updateInto, not_lt.2 hinl, hupdate, hwrite] using h
  rw [replicate_eq_written] at hwrite
  obtain ⟨hv, rfl⟩ := writeOut_written_eq_some (w := w₁) hwrite
  exact ⟨hinl, data, rfl, hv, rfl⟩

theorem finalInto_eq_some {first out : Bytes} {len : ℕ}
    (h : finalInto evp dir ctx (written size first) first.length w = some (some (out, len), w')) :
    ∃ data, evp.final dir ctx w = (some data, w') ∧ out = written size (first ++ data) ∧
      len = data.length := by
  rcases hfinal : evp.final dir ctx w with ⟨_ | data, w₁⟩
  · simp [finalInto, hfinal] at h
  rcases hwrite : writeOut (written size first) first.length data w₁ with _ | ⟨v, w₂⟩
  · simp [finalInto, hfinal, hwrite] at h
  obtain ⟨⟨rfl, rfl⟩, rfl⟩ : (v = out ∧ data.length = len) ∧ w₂ = w' := by
    simpa [finalInto, hfinal, hwrite] using h
  obtain ⟨hv, rfl⟩ := writeOut_written_eq_some hwrite
  exact ⟨data, rfl, hv, rfl⟩

theorem getTagInto_eq_some {first out : Bytes}
    (h : getTagInto evp ctx (written size first) first.length w = some (some out, w')) :
    ∃ tag, evp.getTag ctx w = (some tag, w') ∧ out = written size (first ++ tag.1) := by
  rcases htag : evp.getTag ctx w with ⟨_ | tag, w₁⟩
  · simp [getTagInto, htag] at h
  rcases hwrite : writeOut (written size first) first.length tag.1 w₁ with _ | ⟨v, w₂⟩
  · simp [getTagInto, htag, hwrite] at h
  obtain ⟨rfl, rfl⟩ : v = out ∧ w₂ = w' := by simpa [getTagInto, htag, hwrite] using h
  obtain ⟨hv, rfl⟩ := writeOut_written_eq_some hwrite
  exact ⟨tag, rfl, hv⟩

/-! ### Runs of the sessions -/

/-- A session without a tag whose calls succeed is done, when its output fits into the vector and
its length is an `int`. -/
theorem plainSession_of_run (r : PlainRun evp dir alg key iv data w)
    (hdata : src.take inl.toNat = data) (hinl : 0 ≤ inl)
    (hfit : (r.first ++ r.last).length ≤ size) (hint : (r.first ++ r.last).length < 2 ^ 31) :
    plainSession evp dir alg key iv src inl size w =
      some (.done r.ctx (written size (r.first ++ r.last)) (r.first ++ r.last).length, r.w₄) := by
  subst hdata
  have hlen := @List.length_append _ r.first r.last
  have hupdate := updateInto_of_update r.update_eq hinl (show _ ≤ size by omega)
  have hfinal := finalInto_of_final r.final_eq hfit
  rw [hlen] at hint ⊢
  simp [plainSession, r.ctxNew_eq, r.init_eq, hupdate, hfinal, addInt_of_lt hint]

/-- The calls of a session without a tag that is done have succeeded, and its output is
theirs. -/
theorem run_of_plainSession {out : Bytes} {total : ℕ}
    (h : plainSession evp dir alg key iv src inl size w = some (.done ctx out total, w')) :
    0 ≤ inl ∧ ∃ r : PlainRun evp dir alg key iv (src.take inl.toNat) w,
      r.ctx = ctx ∧ r.w₄ = w' ∧ out = written size (r.first ++ r.last) ∧
        total = (r.first ++ r.last).length ∧ total < 2 ^ 31 := by
  rcases hnew : evp.ctxNew w with ⟨_ | ctx', w₁⟩
  · simp [plainSession, hnew] at h
  rcases hinit : evp.init dir ctx' alg key iv w₁ with ⟨_ | _, w₂⟩
  · simp [plainSession, hnew, hinit] at h
  rcases hupdate : updateInto evp dir ctx' (List.replicate size 0) src inl w₂ with
    _ | ⟨_ | ⟨out₁, len⟩, w₃⟩
  · simp [plainSession, hnew, hinit, hupdate] at h
  · simp [plainSession, hnew, hinit, hupdate] at h
  obtain ⟨hinl, first, hfirst, rfl, rfl⟩ := updateInto_eq_some hupdate
  rcases hfinal : finalInto evp dir ctx' (written size first) first.length w₃ with
    _ | ⟨_ | ⟨out₂, len⟩, w₄⟩
  · simp [plainSession, hnew, hinit, hupdate, hfinal] at h
  · simp [plainSession, hnew, hinit, hupdate, hfinal] at h
  obtain ⟨last, hlast, rfl, rfl⟩ := finalInto_eq_some hfinal
  rcases hadd : addInt first.length last.length w₄ with _ | ⟨total', w₅⟩
  · simp [plainSession, hnew, hinit, hupdate, hfinal, hadd] at h
  obtain ⟨rfl, hint, rfl⟩ := addInt_eq_some hadd
  obtain ⟨⟨rfl, rfl, rfl⟩, rfl⟩ : (ctx' = ctx ∧ written size (first ++ last) = out ∧
      first.length + last.length = total) ∧ w₅ = w' := by
    simpa [plainSession, hnew, hinit, hupdate, hfinal, hadd] using h
  exact ⟨hinl, ⟨⟨ctx', w₁, w₂, w₃, first, hnew, hinit, hfirst⟩, w₅, last, hlast⟩, rfl, rfl, rfl,
    List.length_append.symm, hint⟩

/-- The same for a GCM encryption, whose output has the tag behind the ciphertext. -/
theorem gcmSealSession_of_run (r : GcmSealRun evp key iv data w)
    (hdata : src.take inl.toNat = data) (hinl : 0 ≤ inl)
    (hfit : (r.first ++ r.last ++ r.tag.1).length ≤ size)
    (hint : (r.first ++ r.last ++ r.tag.1).length < 2 ^ 31) :
    gcmSealSession evp key iv src inl size w =
      some (.done r.ctx (written size (r.first ++ r.last ++ r.tag.1))
        (r.first ++ r.last ++ r.tag.1).length, r.w₅) := by
  have hlen : (r.first ++ r.last ++ r.tag.1).length =
      (r.first ++ r.last).length + 16 := by
    rw [List.length_append, r.tag.2]
  have hplain := plainSession_of_run r.toPlainRun hdata hinl (show _ ≤ size by omega) (by omega)
  have htag := getTagInto_of_getTag r.getTag_eq hfit
  rw [hlen] at hint ⊢
  simp only [gcmSealSession, Prog.bind_apply, hplain, Option.bind_some, htag, addInt_of_lt hint,
    Prog.pure_apply]

theorem run_of_gcmSealSession {out : Bytes} {total : ℕ}
    (h : gcmSealSession evp key iv src inl size w = some (.done ctx out total, w')) :
    0 ≤ inl ∧ ∃ r : GcmSealRun evp key iv (src.take inl.toNat) w,
      r.ctx = ctx ∧ r.w₅ = w' ∧ out = written size (r.first ++ r.last ++ r.tag.1) ∧
        total = (r.first ++ r.last ++ r.tag.1).length ∧ total < 2 ^ 31 := by
  rcases hplain : plainSession evp .encrypt .aes256Gcm key iv src inl size w with
    _ | ⟨_ | _ | ⟨ctx', out₁, total₁⟩, w₁⟩
  · simp [gcmSealSession, hplain] at h
  · simp [gcmSealSession, hplain] at h
  · simp [gcmSealSession, hplain] at h
  obtain ⟨hinl, r, rfl, rfl, rfl, rfl, -⟩ := run_of_plainSession hplain
  rcases htag : getTagInto evp r.ctx (written size (r.first ++ r.last))
    (r.first ++ r.last).length r.w₄ with _ | ⟨_ | out₂, w₂⟩
  · simp [gcmSealSession, hplain, htag, -List.length_append] at h
  · simp [gcmSealSession, hplain, htag, -List.length_append] at h
  obtain ⟨tag, hget, rfl⟩ := getTagInto_eq_some htag
  rcases hadd : addInt (r.first ++ r.last).length 16 w₂ with _ | ⟨total', w₃⟩
  · simp [gcmSealSession, hplain, htag, hadd, -List.length_append] at h
  obtain ⟨rfl, hint, rfl⟩ := addInt_eq_some hadd
  simp only [gcmSealSession, Prog.bind_apply, hplain, Option.bind_some, htag, hadd,
    Prog.pure_apply, Option.some.injEq, Prod.mk.injEq, SessionEnd.done.injEq] at h
  obtain ⟨⟨rfl, rfl, rfl⟩, rfl⟩ := h
  exact ⟨hinl, ⟨r, w₃, tag, hget⟩, rfl, rfl, rfl, by simp only [List.length_append, tag.2],
    hint⟩

/-- The same for a GCM decryption, which sets the tag before it finishes. -/
theorem gcmOpenSession_of_run (r : GcmOpenRun evp key iv data tag w)
    (hdata : src.take inl.toNat = data) (hinl : 0 ≤ inl)
    (hfit : (r.first ++ r.last).length ≤ size) (hint : (r.first ++ r.last).length < 2 ^ 31) :
    gcmOpenSession evp key iv src inl tag size w =
      some (.done r.ctx (written size (r.first ++ r.last)) (r.first ++ r.last).length, r.w₅) := by
  subst hdata
  have hlen := @List.length_append _ r.first r.last
  have hupdate := updateInto_of_update r.update_eq hinl (show _ ≤ size by omega)
  have hfinal := finalInto_of_final r.final_eq hfit
  rw [hlen] at hint ⊢
  simp [gcmOpenSession, r.ctxNew_eq, r.init_eq, hupdate, r.setTag_eq, hfinal, addInt_of_lt hint]

theorem run_of_gcmOpenSession {out : Bytes} {total : ℕ}
    (h : gcmOpenSession evp key iv src inl tag size w = some (.done ctx out total, w')) :
    0 ≤ inl ∧ ∃ r : GcmOpenRun evp key iv (src.take inl.toNat) tag w,
      r.ctx = ctx ∧ r.w₅ = w' ∧ out = written size (r.first ++ r.last) ∧
        total = (r.first ++ r.last).length ∧ total < 2 ^ 31 := by
  rcases hnew : evp.ctxNew w with ⟨_ | ctx', w₁⟩
  · simp [gcmOpenSession, hnew] at h
  rcases hinit : evp.init .decrypt ctx' .aes256Gcm key iv w₁ with ⟨_ | _, w₂⟩
  · simp [gcmOpenSession, hnew, hinit] at h
  rcases hupdate : updateInto evp .decrypt ctx' (List.replicate size 0) src inl w₂ with
    _ | ⟨_ | ⟨out₁, len⟩, w₃⟩
  · simp [gcmOpenSession, hnew, hinit, hupdate] at h
  · simp [gcmOpenSession, hnew, hinit, hupdate] at h
  obtain ⟨hinl, first, hfirst, rfl, rfl⟩ := updateInto_eq_some hupdate
  rcases hset : evp.setTag ctx' tag w₃ with ⟨_ | _, w₄⟩
  · simp [gcmOpenSession, hnew, hinit, hupdate, hset] at h
  rcases hfinal : finalInto evp .decrypt ctx' (written size first) first.length w₄ with
    _ | ⟨_ | ⟨out₂, len⟩, w₅⟩
  · simp [gcmOpenSession, hnew, hinit, hupdate, hset, hfinal] at h
  · simp [gcmOpenSession, hnew, hinit, hupdate, hset, hfinal] at h
  obtain ⟨last, hlast, rfl, rfl⟩ := finalInto_eq_some hfinal
  rcases hadd : addInt first.length last.length w₅ with _ | ⟨total', w₆⟩
  · simp [gcmOpenSession, hnew, hinit, hupdate, hset, hfinal, hadd] at h
  obtain ⟨rfl, hint, rfl⟩ := addInt_eq_some hadd
  obtain ⟨⟨rfl, rfl, rfl⟩, rfl⟩ : (ctx' = ctx ∧ written size (first ++ last) = out ∧
      first.length + last.length = total) ∧ w₆ = w' := by
    simpa [gcmOpenSession, hnew, hinit, hupdate, hset, hfinal, hadd] using h
  exact ⟨hinl, ⟨⟨ctx', w₁, w₂, w₃, first, hnew, hinit, hfirst⟩, w₄, w₆, last, hset, hlast⟩, rfl,
    rfl, rfl, List.length_append.symm, hint⟩

/-- A session without a tag ends before it is done, when not all of its calls can succeed. -/
theorem plainSession_of_no_run
    (hnone : 0 ≤ inl → PlainRun evp dir alg key iv (src.take inl.toNat) w → False)
    (hfirst : 0 ≤ inl → ∀ r : Session evp dir alg key iv (src.take inl.toNat) w,
      r.first.length ≤ size) :
    ∃ e w', plainSession evp dir alg key iv src inl size w = some (e, w') ∧
      ∀ ctx v total, e ≠ .done ctx v total := by
  rcases hnew : evp.ctxNew w with ⟨_ | ctx, w₁⟩
  · exact ⟨.noContext, w₁, by simp [plainSession, hnew], by simp⟩
  rcases hinit : evp.init dir ctx alg key iv w₁ with ⟨_ | _, w₂⟩
  · exact ⟨.failed ctx 1, w₂, by simp [plainSession, hnew, hinit], by simp⟩
  rcases lt_or_ge inl 0 with hneg | hinl
  · exact ⟨.failed ctx 2, w₂, by simp [plainSession, hnew, hinit, updateInto, hneg], by simp⟩
  rcases hupdate : evp.update dir ctx (src.take inl.toNat) w₂ with ⟨_ | first, w₃⟩
  · exact ⟨.failed ctx 2, w₃,
      by simp [plainSession, hnew, hinit, updateInto, not_lt.2 hinl, hupdate], by simp⟩
  let s : Session evp dir alg key iv (src.take inl.toNat) w :=
    ⟨ctx, w₁, w₂, w₃, first, hnew, hinit, hupdate⟩
  have hwrite := updateInto_of_update hupdate hinl (hfirst hinl s)
  rcases hfinal : evp.final dir ctx w₃ with ⟨_ | last, w₄⟩
  · exact ⟨.failed ctx 3, w₄,
      by simp [plainSession, hnew, hinit, hwrite, finalInto, hfinal], by simp⟩
  · exact (hnone hinl ⟨s, w₄, last, hfinal⟩).elim

theorem gcmSealSession_of_no_run
    (hnone : 0 ≤ inl → GcmSealRun evp key iv (src.take inl.toNat) w → False)
    (hfirst : 0 ≤ inl → ∀ r : Session evp .encrypt .aes256Gcm key iv (src.take inl.toNat) w,
      r.first.length ≤ size)
    (hplain : 0 ≤ inl → ∀ r : PlainRun evp .encrypt .aes256Gcm key iv (src.take inl.toNat) w,
      (r.first ++ r.last).length ≤ size ∧ (r.first ++ r.last).length < 2 ^ 31) :
    ∃ e w', gcmSealSession evp key iv src inl size w = some (e, w') ∧
      ∀ ctx v total, e ≠ .done ctx v total := by
  by_cases hrun : 0 ≤ inl ∧
      Nonempty (PlainRun evp .encrypt .aes256Gcm key iv (src.take inl.toNat) w)
  · obtain ⟨hinl, ⟨r⟩⟩ := hrun
    obtain ⟨hfit, hint⟩ := hplain hinl r
    have hdone := plainSession_of_run r rfl hinl hfit hint
    rcases htag : evp.getTag r.ctx r.w₄ with ⟨_ | tag, w₅⟩
    · refine ⟨.failed r.ctx 4, w₅, ?_, by simp⟩
      simp only [gcmSealSession, Prog.bind_apply, hdone, Option.bind_some, getTagInto,
        Prog.call_apply, htag, Prog.pure_apply]
    · exact (hnone hinl ⟨r, w₅, tag, htag⟩).elim
  · obtain ⟨e, w', he, hne⟩ := plainSession_of_no_run (fun hinl r => hrun ⟨hinl, ⟨r⟩⟩) hfirst
    refine ⟨e, w', ?_, hne⟩
    cases e with
    | noContext => simp [gcmSealSession, he]
    | failed ctx step => simp [gcmSealSession, he]
    | done ctx v total => exact (hne ctx v total rfl).elim

/-- A GCM decryption ends before it is done, when not all of its calls can succeed. -/
theorem gcmOpenSession_of_no_run
    (hnone : GcmOpenRun evp key iv (src.take inl.toNat) tag w → False)
    (hfirst : ∀ r : Session evp .decrypt .aes256Gcm key iv (src.take inl.toNat) w,
      r.first.length ≤ size) :
    ∃ e w', gcmOpenSession evp key iv src inl tag size w = some (e, w') ∧
      ∀ ctx v total, e ≠ .done ctx v total := by
  rcases hnew : evp.ctxNew w with ⟨_ | ctx, w₁⟩
  · exact ⟨.noContext, w₁, by simp [gcmOpenSession, hnew], by simp⟩
  rcases hinit : evp.init .decrypt ctx .aes256Gcm key iv w₁ with ⟨_ | _, w₂⟩
  · exact ⟨.failed ctx 1, w₂, by simp [gcmOpenSession, hnew, hinit], by simp⟩
  rcases lt_or_ge inl 0 with hneg | hinl
  · exact ⟨.failed ctx 2, w₂, by simp [gcmOpenSession, hnew, hinit, updateInto, hneg], by simp⟩
  rcases hupdate : evp.update .decrypt ctx (src.take inl.toNat) w₂ with ⟨_ | first, w₃⟩
  · exact ⟨.failed ctx 2, w₃,
      by simp [gcmOpenSession, hnew, hinit, updateInto, not_lt.2 hinl, hupdate], by simp⟩
  let s : Session evp .decrypt .aes256Gcm key iv (src.take inl.toNat) w :=
    ⟨ctx, w₁, w₂, w₃, first, hnew, hinit, hupdate⟩
  have hwrite := updateInto_of_update hupdate hinl (hfirst s)
  rcases hset : evp.setTag ctx tag w₃ with ⟨_ | _, w₄⟩
  · exact ⟨.failed ctx 3, w₄, by simp [gcmOpenSession, hnew, hinit, hwrite, hset], by simp⟩
  rcases hfinal : evp.final .decrypt ctx w₄ with ⟨_ | last, w₅⟩
  · exact ⟨.failed ctx 4, w₅,
      by simp [gcmOpenSession, hnew, hinit, hwrite, hset, finalInto, hfinal], by simp⟩
  · exact (hnone ⟨s, w₄, w₅, last, hset, hfinal⟩).elim

/-! ### Outcomes of sessions whose calls succeed -/

section Outcomes

variable {w₁ : W} {out : Bytes} {off : ℕ} {e : SessionEnd}

theorem of_updateInto {o : Option (Bytes × ℕ)} (hinl : 0 ≤ inl)
    (h : evp.update dir ctx (src.take inl.toNat) w = (some data, w₁))
    (hrun : updateInto evp dir ctx out src inl w = some (o, w')) :
    (∃ v, o = some (v, data.length)) ∧ w' = w₁ := by
  rcases hwrite : writeOut out 0 data w₁ with _ | ⟨v, w₂⟩
  · simp [updateInto, not_lt.2 hinl, h, hwrite] at hrun
  · obtain ⟨rfl, rfl⟩ : some (v, data.length) = o ∧ w₂ = w' := by
      simpa [updateInto, not_lt.2 hinl, h, hwrite] using hrun
    exact ⟨⟨v, rfl⟩, (writeOut_eq_some hwrite).2.2⟩

theorem of_finalInto {o : Option (Bytes × ℕ)} (h : evp.final dir ctx w = (some data, w₁))
    (hrun : finalInto evp dir ctx out off w = some (o, w')) :
    (∃ v, o = some (v, data.length)) ∧ w' = w₁ := by
  rcases hwrite : writeOut out off data w₁ with _ | ⟨v, w₂⟩
  · simp [finalInto, h, hwrite] at hrun
  · obtain ⟨rfl, rfl⟩ : some (v, data.length) = o ∧ w₂ = w' := by
      simpa [finalInto, h, hwrite] using hrun
    exact ⟨⟨v, rfl⟩, (writeOut_eq_some hwrite).2.2⟩

theorem of_getTagInto {o : Option Bytes} {tag : Tag} (h : evp.getTag ctx w = (some tag, w₁))
    (hrun : getTagInto evp ctx out off w = some (o, w')) : (∃ v, o = some v) ∧ w' = w₁ := by
  rcases hwrite : writeOut out off tag.1 w₁ with _ | ⟨v, w₂⟩
  · simp [getTagInto, h, hwrite] at hrun
  · obtain ⟨rfl, rfl⟩ : some v = o ∧ w₂ = w' := by simpa [getTagInto, h, hwrite] using hrun
    exact ⟨⟨v, rfl⟩, (writeOut_eq_some hwrite).2.2⟩

/-- A session without a tag whose calls succeed is done, if it has an outcome at all. -/
theorem done_of_plainRun (r : PlainRun evp dir alg key iv (src.take inl.toNat) w) (hinl : 0 ≤ inl)
    (h : plainSession evp dir alg key iv src inl size w = some (e, w')) :
    (∃ v total, e = .done r.ctx v total) ∧ w' = r.w₄ := by
  simp only [plainSession, Prog.bind_apply, Prog.call_apply, r.ctxNew_eq, r.init_eq,
    Option.bind_some, Bool.not_true, Bool.false_eq_true, if_false, Option.bind_eq_some_iff] at h
  obtain ⟨⟨o, w₃⟩, hupdate, h⟩ := h
  obtain ⟨⟨v, rfl⟩, rfl⟩ := of_updateInto hinl r.update_eq hupdate
  simp only [Prog.bind_apply, Option.bind_eq_some_iff] at h
  obtain ⟨⟨o, w₄⟩, hfinal, h⟩ := h
  obtain ⟨⟨v', rfl⟩, rfl⟩ := of_finalInto r.final_eq hfinal
  simp only [Prog.bind_apply, Option.bind_eq_some_iff] at h
  obtain ⟨⟨total, w₅⟩, hadd, h⟩ := h
  obtain ⟨-, -, rfl⟩ := addInt_eq_some hadd
  obtain ⟨rfl, rfl⟩ : SessionEnd.done r.ctx v' total = e ∧ r.w₄ = w' := by simpa using h
  exact ⟨⟨v', total, rfl⟩, rfl⟩

theorem done_of_gcmSealRun (r : GcmSealRun evp key iv (src.take inl.toNat) w) (hinl : 0 ≤ inl)
    (h : gcmSealSession evp key iv src inl size w = some (e, w')) :
    ∃ v total, e = .done r.ctx v total := by
  obtain ⟨e₁, w₁, hplain, hrest⟩ := Prog.bind_eq_some_iff.1 h
  obtain ⟨⟨v, total, rfl⟩, rfl⟩ := done_of_plainRun r.toPlainRun hinl hplain
  simp only [Prog.bind_apply, Option.bind_eq_some_iff] at hrest
  obtain ⟨⟨o, w₂⟩, htag, hrest⟩ := hrest
  obtain ⟨⟨v', rfl⟩, rfl⟩ := of_getTagInto r.getTag_eq htag
  simp only [Prog.bind_apply, Option.bind_eq_some_iff] at hrest
  obtain ⟨⟨total', w₃⟩, -, hrest⟩ := hrest
  obtain ⟨rfl, -⟩ : SessionEnd.done r.ctx v' total' = e ∧ w₃ = w' := by simpa using hrest
  exact ⟨v', total', rfl⟩

theorem done_of_gcmOpenRun (r : GcmOpenRun evp key iv (src.take inl.toNat) tag w) (hinl : 0 ≤ inl)
    (h : gcmOpenSession evp key iv src inl tag size w = some (e, w')) :
    ∃ v total, e = .done r.ctx v total := by
  simp only [gcmOpenSession, Prog.bind_apply, Prog.call_apply, r.ctxNew_eq, r.init_eq,
    Option.bind_some, Bool.not_true, Bool.false_eq_true, if_false, Option.bind_eq_some_iff] at h
  obtain ⟨⟨o, w₃⟩, hupdate, h⟩ := h
  obtain ⟨⟨v, rfl⟩, rfl⟩ := of_updateInto hinl r.update_eq hupdate
  simp only [Prog.bind_apply, Prog.call_apply, r.setTag_eq, Option.bind_some, Bool.not_true,
    Bool.false_eq_true, if_false, Option.bind_eq_some_iff] at h
  obtain ⟨⟨o, w₄⟩, hfinal, h⟩ := h
  obtain ⟨⟨v', rfl⟩, rfl⟩ := of_finalInto r.final_eq hfinal
  simp only [Prog.bind_apply, Option.bind_eq_some_iff] at h
  obtain ⟨⟨total, w₅⟩, -, h⟩ := h
  obtain ⟨rfl, -⟩ : SessionEnd.done r.ctx v' total = e ∧ w₅ = w' := by simpa using h
  exact ⟨v', total, rfl⟩

end Outcomes

/-! ### The endings -/

variable {x : Prog W SessionEnd} {start : ℕ} {output b : Bytes} {text : Bytes → Bytes}

/-- A string function whose session is done returns 1 and the text of the bytes written. -/
theorem toCode_of_done (h : x w = some (.done ctx (written size b) b.length, w')) :
    (x >>= SessionEnd.toCode evp start output text) w =
      some ((1, text b), (evp.ctxFree ctx w').2) := by
  simp [h, SessionEnd.toCode]

/-- A string function returns 1 only if its session is done. -/
theorem done_of_toCode {out : Bytes}
    (h : (x >>= SessionEnd.toCode evp start output text) w = some ((1, out), w')) :
    ∃ ctx v total w₁, x w = some (.done ctx v total, w₁) ∧ out = text (v.take total) := by
  obtain ⟨e, w₁, hx, he⟩ := Prog.bind_eq_some_iff.1 h
  cases e with
  | noContext =>
    have hcode := congrArg Prod.fst (congrArg Prod.fst (Option.some_inj.1 he))
    simp only at hcode
    omega
  | failed ctx step =>
    have hcode := congrArg Prod.fst (congrArg Prod.fst (Option.some_inj.1 he))
    simp only at hcode
    omega
  | done ctx v total =>
    have hout := congrArg Prod.snd (congrArg Prod.fst (Option.some_inj.1 he))
    exact ⟨ctx, v, total, w₁, hx, hout.symm⟩

/-- A string function whose session ends before it is done returns another code. -/
theorem toCode_of_not_done {e : SessionEnd} (h : x w = some (e, w'))
    (he : ∀ ctx v total, e ≠ .done ctx v total) :
    ∃ code out v, (x >>= SessionEnd.toCode evp start output text) w = some ((code, out), v) ∧
      code ≠ 1 := by
  cases e with
  | noContext => exact ⟨-start, output, w', by simp [h, SessionEnd.toCode], by omega⟩
  | failed ctx step =>
    exact ⟨-(start + step : ℕ), output, (evp.ctxFree ctx w').2, by simp [h, SessionEnd.toCode],
      by omega⟩
  | done ctx v total => exact (he ctx v total rfl).elim

/-- A buffer function whose session is done returns the bytes written. -/
theorem toBuffer_of_done (h : x w = some (.done ctx (written size b) b.length, w')) :
    (x >>= SessionEnd.toBuffer evp) w = some (some b, (evp.ctxFree ctx w').2) := by
  simp [h, SessionEnd.toBuffer]

/-- A buffer function succeeds only if its session is done. -/
theorem done_of_toBuffer (h : (x >>= SessionEnd.toBuffer evp) w = some (some b, w')) :
    ∃ ctx v total w₁, x w = some (.done ctx v total, w₁) ∧ b = resize v total := by
  obtain ⟨e, w₁, hx, he⟩ := Prog.bind_eq_some_iff.1 h
  cases e with
  | noContext => simp [SessionEnd.toBuffer] at he
  | failed ctx step => simp [SessionEnd.toBuffer] at he
  | done ctx v total =>
    have hout := congrArg Prod.fst (Option.some_inj.1 he)
    exact ⟨ctx, v, total, w₁, hx, (Option.some_inj.1 hout).symm⟩

/-- A buffer function whose session ends before it is done returns at an error exit. -/
theorem toBuffer_of_not_done {e : SessionEnd} (h : x w = some (e, w'))
    (he : ∀ ctx v total, e ≠ .done ctx v total) :
    ∃ v, (x >>= SessionEnd.toBuffer evp) w = some (none, v) := by
  cases e with
  | noContext => exact ⟨w', by simp [h, SessionEnd.toBuffer]⟩
  | failed ctx step => exact ⟨w', by simp [h, SessionEnd.toBuffer]⟩
  | done ctx v total => exact (he ctx v total rfl).elim

end Behh
