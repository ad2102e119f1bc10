import Behh.Cryptography.CallTrace
import Behh.Openssl.Reference
import Behh.Utility.Base64Openssl

/-!
# Lengths that are narrowed to `int`

The AES functions of `src/cryptography.cc` and `base64encode_openssl` of `src/utility.cc` hand a
`size_t` to OpenSSL as an `int`. A size that becomes negative makes the call fail, which
`base64encode_openssl` does not notice. A size from 2^32 on may become a small number that passes
every check, and then only so many bytes are processed.

What a function does with its bytes is seen in the record of the calls: the data of the update, and
the length given to `BIO_write`.

## Main definitions

* `updates`: the data that the updates of a trace were given.
* `cipherBytes`, `inputBytes`: the bytes that a function is to process.
* `KeepsStringLength`, `KeepsBufferLength`, `KeepsBase64Length`: a success means that every byte
  was processed.
* `Evp.agreeable`: calls that all succeed.

## Main results

* `updates_of_stringCiphers`, `updates_of_ciphers`: what is processed when a function succeeds.
* `base64encodeOpenssl_take`: what is processed by `base64encode_openssl`.
* `keepsLengths_iff`: the sizes for which nothing is lost.
-/

namespace Behh

/-! ### What an update is given -/

/-- The data that an update is given. -/
def EvpEvent.updated? : EvpEvent → Option Bytes
  | .update _ data => some data
  | _ => none

/-- The data that the updates of a trace were given. -/
def updates (trace : List EvpEvent) : List Bytes := trace.filterMap EvpEvent.updated?

/-- The bytes in front of the tag are processed by a GCM decryption, all bytes otherwise. -/
def cipherBytes : Dir → Alg → Bytes → Bytes
  | .decrypt, .aes256Gcm, b => b.take (b.length - 16)
  | _, _, b => b

/-- The bytes behind the text that a string function is given. -/
def inputBytes : Dir → Bytes → Bytes
  | .encrypt, input => input
  | .decrypt, input => stringFromCustomBase36Openssl input

/-- The size, as an `int`, from which on a function does not refuse its bytes. -/
def leastSize : Dir → Alg → ℤ
  | .decrypt, .aes256Gcm => 16
  | _, _ => 0

variable {W : Type} {evp : Evp W} {dir : Dir} {alg : Alg} {key iv ik data tag b : Bytes}
  {s s' : W × List EvpEvent}

theorem Session.updates_eq (r : Session evp.traced dir alg key iv data s) :
    updates r.w₃.2 = updates s.2 ++ [data] := by
  have hnew : updates r.w₁.2 = updates s.2 :=
    keeps_ctxNew (fun _ => rfl) _ _ _ rfl (congrArg some r.ctxNew_eq)
  have hinit : updates r.w₂.2 = updates r.w₁.2 :=
    keeps_init (fun _ _ _ _ => rfl) _ _ _ rfl (congrArg some r.init_eq)
  have hupdate : r.w₃ = _ := (congrArg Prod.snd r.update_eq).symm
  rw [hupdate, ← hnew, ← hinit]
  exact filterMap_append_of_some (g := EvpEvent.updated?) rfl r.w₂.2

theorem PlainRun.updates_eq (r : PlainRun evp.traced dir alg key iv data s) :
    updates r.w₄.2 = updates s.2 ++ [data] := by
  have hfinal : r.w₄ = _ := (congrArg Prod.snd r.final_eq).symm
  rw [hfinal]
  exact r.toSession.updates_eq

theorem GcmSealRun.updates_eq (r : GcmSealRun evp.traced key iv data s) :
    updates r.w₅.2 = updates s.2 ++ [data] := by
  have htag : r.w₅ = _ := (congrArg Prod.snd r.getTag_eq).symm
  rw [htag]
  exact r.toPlainRun.updates_eq

theorem GcmOpenRun.updates_eq (r : GcmOpenRun evp.traced key iv data tag s) :
    updates r.w₅.2 = updates s.2 ++ [data] := by
  have hset : r.w₄ = _ := (congrArg Prod.snd r.setTag_eq).symm
  have hfinal : r.w₅ = _ := (congrArg Prod.snd r.final_eq).symm
  rw [hfinal, hset]
  exact r.toSession.updates_eq

/-! ### The endings -/

section Endings

variable {x : Prog (W × List EvpEvent) SessionEnd} {src out output : Bytes} {inl : ℤ}
  {size start : ℕ} {text : Bytes → Bytes}

/-- When the session is done, `inl` was not negative, and so many bytes of `src` were processed. -/
def HandsOver (src : Bytes) (inl : ℤ) (s : W × List EvpEvent)
    (x : Prog (W × List EvpEvent) SessionEnd) : Prop :=
  ∀ ctx v total s₁, x s = some (.done ctx v total, s₁) →
    0 ≤ inl ∧ updates s₁.2 = updates s.2 ++ [src.take inl.toNat]

theorem handsOver_plainSession (s : W × List EvpEvent) :
    HandsOver src inl s (plainSession evp.traced dir alg key iv src inl size) := by
  intro ctx v total s₁ h
  obtain ⟨hinl, r, -, rfl, -⟩ := run_of_plainSession h
  exact ⟨hinl, r.updates_eq⟩

theorem handsOver_gcmSealSession (s : W × List EvpEvent) :
    HandsOver src inl s (gcmSealSession evp.traced key iv src inl size) := by
  intro ctx v total s₁ h
  obtain ⟨hinl, r, -, rfl, -⟩ := run_of_gcmSealSession h
  exact ⟨hinl, r.updates_eq⟩

theorem handsOver_gcmOpenSession (s : W × List EvpEvent) :
    HandsOver src inl s (gcmOpenSession evp.traced key iv src inl tag size) := by
  intro ctx v total s₁ h
  obtain ⟨hinl, r, -, rfl, -⟩ := run_of_gcmOpenSession h
  exact ⟨hinl, r.updates_eq⟩

theorem updates_ctxFree (ctx : Ctx) (s : W × List EvpEvent) :
    updates (evp.traced.ctxFree ctx s).2.2 = updates s.2 :=
  filterMap_append_of_none (g := EvpEvent.updated?) rfl s.2

/-- An ending that frees the context adds no update. -/
theorem HandsOver.freed {β : Type} {finish : SessionEnd → Prog (W × List EvpEvent) β}
    (hfinish : ∀ ctx v total s₁, (finish (.done ctx v total) s₁).map Prod.snd =
      some (evp.traced.ctxFree ctx s₁).2)
    (hx : HandsOver src inl s x) {ctx : Ctx} {v : Bytes} {total : ℕ} {s₁ : W × List EvpEvent}
    (hdone : x s = some (.done ctx v total, s₁)) {r : β} (h : (x >>= finish) s = some (r, s')) :
    0 ≤ inl ∧ updates s'.2 = updates s.2 ++ [src.take inl.toNat] := by
  obtain ⟨hinl, hhanded⟩ := hx ctx v total s₁ hdone
  rw [Prog.bind_apply, hdone, Option.bind_some] at h
  have hmap := hfinish ctx v total s₁
  rw [h] at hmap
  have hfree : s' = (evp.traced.ctxFree ctx s₁).2 := Option.some_inj.1 hmap
  exact ⟨hinl, by rw [hfree, updates_ctxFree, hhanded]⟩

theorem HandsOver.toCode (hx : HandsOver src inl s x)
    (h : (x >>= SessionEnd.toCode evp.traced start output text) s = some ((1, out), s')) :
    0 ≤ inl ∧ updates s'.2 = updates s.2 ++ [src.take inl.toNat] := by
  obtain ⟨ctx, v, total, s₁, hdone, -⟩ := done_of_toCode h
  exact hx.freed (fun _ _ _ _ => rfl) hdone h

theorem HandsOver.toBuffer (hx : HandsOver src inl s x)
    (h : (x >>= SessionEnd.toBuffer evp.traced) s = some (some b, s')) :
    0 ≤ inl ∧ updates s'.2 = updates s.2 ++ [src.take inl.toNat] := by
  obtain ⟨ctx, v, total, s₁, hdone, -⟩ := done_of_toBuffer h
  exact hx.freed (fun _ _ _ _ => rfl) hdone h

end Endings

/-! ### What the AES functions process -/

/-- A size that GCM decryption does not refuse is not negative without its tag. -/
theorem toInt_sub_nonneg {n : ℕ} (h : 16 ≤ toInt n) : 0 ≤ toInt (n - 16) := by
  have hmod := toInt_nonneg_iff.1 (show 0 ≤ toInt n by omega)
  have hnat := toNat_toInt (show 0 ≤ toInt n by omega)
  exact toInt_nonneg_iff.2 (by omega)

/-- The part of the bytes that is processed, when the size is not refused. -/
def processedBytes (dir : Dir) (alg : Alg) (b : Bytes) : Bytes :=
  (cipherBytes dir alg b).take (toInt (cipherBytes dir alg b).length).toNat

/-- The bytes that are handed over are taken from the front of the string. -/
theorem take_cStr_toNat (b : Bytes) : (cStr b).take (toInt b.length).toNat =
    b.take (toInt b.length).toNat := take_cStr (toInt_toNat_le _)

theorem processedBytes_gcmOpen (b : Bytes) :
    processedBytes .decrypt .aes256Gcm b = b.take (toInt (b.length - 16)).toNat := by
  have hlen : (b.take (b.length - 16)).length = b.length - 16 := by
    rw [List.length_take]
    omega
  have hle := toInt_toNat_le (b.length - 16)
  rw [processedBytes, cipherBytes, hlen, List.take_take, Nat.min_eq_left hle]

/-- **A string function that returns 1** was given a size that it does not refuse, and has processed
what is left of the bytes by the narrowing. -/
theorem updates_of_stringCiphers {input output out : Bytes} {w : W}
    (h : evp.traced.stringCiphers dir alg input output iv ik (w, []) = some ((1, out), s')) :
    leastSize dir alg ≤ toInt (inputBytes dir input).length ∧
      updates s'.2 = [processedBytes dir alg (inputBytes dir input)] := by
  cases dir with
  | encrypt =>
    cases alg with
    | aes256Cbc =>
      rw [Evp.stringCiphers, aesCbcEncryptOpenssl_eq] at h
      obtain ⟨hinl, hhanded⟩ := (handsOver_plainSession _).toCode h
      rw [take_cStr_toNat] at hhanded
      exact ⟨hinl, hhanded⟩
    | aes256Gcm =>
      rw [Evp.stringCiphers, aesGcmEncryptOpenssl_eq] at h
      obtain ⟨hinl, hhanded⟩ := (handsOver_gcmSealSession _).toCode h
      rw [take_cStr_toNat] at hhanded
      exact ⟨hinl, hhanded⟩
  | decrypt =>
    cases alg with
    | aes256Cbc =>
      rw [Evp.stringCiphers, aesCbcDecryptOpenssl_eq] at h
      obtain ⟨hinl, hhanded⟩ := (handsOver_plainSession _).toCode h
      rw [take_cStr_toNat] at hhanded
      exact ⟨hinl, hhanded⟩
    | aes256Gcm =>
      rw [Evp.stringCiphers, aesGcmDecryptOpenssl_eq] at h
      split_ifs at h with hshort
      · have hcode : (-1 : ℤ) = 1 := congrArg (fun r => r.1.1) (Option.some_inj.1 h)
        exact absurd hcode (by decide)
      · obtain ⟨-, hhanded⟩ := (handsOver_gcmOpenSession _).toCode h
        have hle := toInt_toNat_le ((stringFromCustomBase36Openssl input).length - 16)
        rw [take_cStr (by omega), ← processedBytes_gcmOpen] at hhanded
        exact ⟨not_lt.1 hshort, hhanded⟩

/-- **A buffer function that does not take an error exit**, in the same way. -/
theorem updates_of_ciphers {buffer : Bytes} {w : W}
    (h : evp.traced.ciphers dir alg buffer iv ik (w, []) = some (some b, s')) :
    leastSize dir alg ≤ toInt buffer.length ∧
      updates s'.2 = [processedBytes dir alg buffer] := by
  cases dir with
  | encrypt =>
    cases alg with
    | aes256Cbc =>
      rw [Evp.ciphers, aesCbcEncryptToBufferOpenssl_eq] at h
      exact (handsOver_plainSession _).toBuffer h
    | aes256Gcm =>
      rw [Evp.ciphers, aesGcmEncryptToBufferOpenssl_eq] at h
      exact (handsOver_gcmSealSession _).toBuffer h
  | decrypt =>
    cases alg with
    | aes256Cbc =>
      rw [Evp.ciphers, aesCbcDecryptToBufferOpenssl_eq] at h
      exact (handsOver_plainSession _).toBuffer h
    | aes256Gcm =>
      rw [Evp.ciphers, aesGcmDecryptToBufferOpenssl_eq] at h
      split_ifs at h with hshort
      · exact absurd (congrArg Prod.fst (Option.some_inj.1 h)) (by simp)
      · obtain ⟨-, hhanded⟩ := (handsOver_gcmOpenSession _).toBuffer h
        rw [← processedBytes_gcmOpen] at hhanded
        exact ⟨not_lt.1 hshort, hhanded⟩

/-- A size that is not refused is kept when it is an `int`. -/
theorem processedBytes_eq_iff (h : leastSize dir alg ≤ toInt b.length) :
    processedBytes dir alg b = cipherBytes dir alg b ↔ b.length < 2 ^ 31 := by
  have htake : ∀ c : Bytes, c.take (toInt c.length).toNat = c ↔
      c.length ≤ (toInt c.length).toNat := fun c => List.take_eq_self_iff c
  have hplain : (0 : ℤ) ≤ toInt b.length →
      (b.length ≤ (toInt b.length).toNat ↔ b.length < 2 ^ 31) := fun hnonneg => by
    have hlt := toInt_lt b.length
    exact ⟨fun hle => by omega, fun hlt => by rw [toInt_of_lt hlt]; exact le_rfl⟩
  rw [processedBytes, htake]
  cases dir with
  | encrypt =>
    cases alg with
    | aes256Cbc => exact hplain h
    | aes256Gcm => exact hplain h
  | decrypt =>
    cases alg with
    | aes256Cbc => exact hplain h
    | aes256Gcm =>
      have hlen : (cipherBytes .decrypt .aes256Gcm b).length = b.length - 16 := by
        rw [cipherBytes, List.length_take]
        omega
      rw [leastSize] at h
      rw [hlen]
      have hmod := toInt_nonneg_iff.1 (show 0 ≤ toInt b.length by omega)
      have hnat := toNat_toInt (show 0 ≤ toInt b.length by omega)
      have hlt := toInt_lt (b.length - 16)
      constructor
      · intro hle
        omega
      · intro hsmall
        rw [toInt_of_lt (by omega)]
        exact le_rfl

/-! ### When nothing is lost -/

/-- Whatever OpenSSL does: when the string function returns 1, every byte was processed. -/
def KeepsStringLength (dir : Dir) (alg : Alg) (input : Bytes) : Prop :=
  ∀ (W : Type) (evp : Evp W) (output iv ik : Bytes) (w : W) (out : Bytes) s,
    evp.traced.stringCiphers dir alg input output iv ik (w, []) = some ((1, out), s) →
      updates s.2 = [cipherBytes dir alg (inputBytes dir input)]

/-- Whatever OpenSSL does: when the buffer function returns a buffer that is not empty, every byte
was processed. -/
def KeepsBufferLength (dir : Dir) (alg : Alg) (buffer : Bytes) : Prop :=
  ∀ (W : Type) (evp : Evp W) (iv ik : Bytes) (w : W) (b : Bytes) s,
    evp.traced.ciphers dir alg buffer iv ik (w, []) = some (some b, s) → b ≠ [] →
      updates s.2 = [cipherBytes dir alg buffer]

/-- Calls that all succeed. What is written is one byte, by the last call, and the tag. -/
def Evp.agreeable : Evp Unit where
  ctxNew w := (some 0, w)
  ctxFree _ w := ((), w)
  init _ _ _ _ _ w := (true, w)
  update _ _ _ w := (some [], w)
  final _ _ w := (some [0], w)
  getTag _ w := (some ⟨List.replicate 16 0, rfl⟩, w)
  setTag _ _ w := (true, w)

section Agreeable

variable {src : Bytes} {inl : ℤ} {size n : ℕ}

/-- A vector of at least one byte, with the byte written. -/
def oneByte : Bytes := [0]

theorem agreeable_plainSession (hinl : 0 ≤ inl) (hsize : 1 ≤ size) :
    ∃ s, plainSession Evp.agreeable.traced dir alg key iv src inl size ((), []) =
      some (.done 0 (written size oneByte) oneByte.length, s) := by
  let r : PlainRun Evp.agreeable dir alg key iv (src.take inl.toNat) () :=
    ⟨⟨0, (), (), (), [], rfl, rfl, rfl⟩, (), oneByte, rfl⟩
  exact ⟨_, plainSession_of_run (r.traced []) rfl hinl hsize (show 1 < 2 ^ 31 by decide)⟩

theorem agreeable_gcmOpenSession (hinl : 0 ≤ inl) (hsize : 1 ≤ size) :
    ∃ s, gcmOpenSession Evp.agreeable.traced key iv src inl tag size ((), []) =
      some (.done 0 (written size oneByte) oneByte.length, s) := by
  let r : GcmOpenRun Evp.agreeable key iv (src.take inl.toNat) tag () :=
    ⟨⟨0, (), (), (), [], rfl, rfl, rfl⟩, (), (), oneByte, rfl, rfl⟩
  exact ⟨_, gcmOpenSession_of_run (r.traced []) rfl hinl hsize (show 1 < 2 ^ 31 by decide)⟩

theorem agreeable_gcmSealSession (hinl : 0 ≤ inl) (hsize : 17 ≤ size) :
    ∃ v s, v ≠ [] ∧ gcmSealSession Evp.agreeable.traced key iv src inl size ((), []) =
      some (.done 0 (written size v) v.length, s) := by
  let r : GcmSealRun Evp.agreeable key iv (src.take inl.toNat) () :=
    ⟨⟨⟨0, (), (), (), [], rfl, rfl, rfl⟩, (), oneByte, rfl⟩, (), ⟨List.replicate 16 0, rfl⟩, rfl⟩
  refine ⟨_, _, ?_, gcmSealSession_of_run (r.traced []) rfl hinl hsize (show 17 < 2 ^ 31 by decide)⟩
  exact List.cons_ne_nil _ _

/-- With such calls a string function returns 1 unless it refuses the size. -/
theorem agreeable_stringCiphers {input : Bytes}
    (h : leastSize dir alg ≤ toInt (inputBytes dir input).length)
    (hpos : 17 ≤ (inputBytes dir input).length) (output iv ik : Bytes) :
    ∃ out s, Evp.agreeable.traced.stringCiphers dir alg input output iv ik ((), []) =
      some ((1, out), s) := by
  cases dir with
  | encrypt =>
    rw [inputBytes] at h hpos
    cases alg with
    | aes256Cbc =>
      obtain ⟨s, hdone⟩ := @agreeable_plainSession .encrypt .aes256Cbc (cStr ik) (cStr iv)
        (cStr input) _ (input.length + 16) h (by omega)
      rw [Evp.stringCiphers, aesCbcEncryptOpenssl_eq, toCode_of_done hdone]
      exact ⟨_, _, rfl⟩
    | aes256Gcm =>
      obtain ⟨v, s, -, hdone⟩ := @agreeable_gcmSealSession (cStr ik) (cStr iv)
        (cStr input) _ (input.length + 16) h (by omega)
      rw [Evp.stringCiphers, aesGcmEncryptOpenssl_eq, toCode_of_done hdone]
      exact ⟨_, _, rfl⟩
  | decrypt =>
    rw [inputBytes] at h hpos
    cases alg with
    | aes256Cbc =>
      rw [Evp.stringCiphers, aesCbcDecryptOpenssl_eq]
      generalize stringFromCustomBase36Openssl input = b at h hpos ⊢
      obtain ⟨s, hdone⟩ := @agreeable_plainSession .decrypt .aes256Cbc (cStr ik) (cStr iv)
        (cStr b) _ (b.length + 16) h (by omega)
      rw [toCode_of_done hdone]
      exact ⟨_, _, rfl⟩
    | aes256Gcm =>
      rw [Evp.stringCiphers, aesGcmDecryptOpenssl_eq]
      generalize stringFromCustomBase36Openssl input = b at h hpos ⊢
      have h16 : 16 ≤ toInt b.length := h
      obtain ⟨s, hdone⟩ := @agreeable_gcmOpenSession (cStr ik) (cStr iv)
        (b.drop (b.length - 16)) (cStr b) _ (b.length + 16) (toInt_sub_nonneg h16) (by omega)
      rw [if_neg (not_lt.2 h16), toCode_of_done hdone]
      exact ⟨_, _, rfl⟩

/-- A buffer function returns a buffer then, which is not empty. -/
theorem agreeable_ciphers {buffer : Bytes} (h : leastSize dir alg ≤ toInt buffer.length)
    (hpos : 17 ≤ buffer.length) (iv ik : Bytes) :
    ∃ b s, b ≠ [] ∧ Evp.agreeable.traced.ciphers dir alg buffer iv ik ((), []) =
      some (some b, s) := by
  have hone : oneByte ≠ [] := List.cons_ne_nil _ _
  cases dir with
  | encrypt =>
    cases alg with
    | aes256Cbc =>
      obtain ⟨s, hdone⟩ := @agreeable_plainSession .encrypt .aes256Cbc ik iv buffer _
        (buffer.length + 16) h (by omega)
      rw [Evp.ciphers, aesCbcEncryptToBufferOpenssl_eq, toBuffer_of_done hdone]
      exact ⟨_, _, hone, rfl⟩
    | aes256Gcm =>
      obtain ⟨v, s, hv, hdone⟩ := @agreeable_gcmSealSession ik iv buffer _
        (buffer.length + 16) h (by omega)
      rw [Evp.ciphers, aesGcmEncryptToBufferOpenssl_eq, toBuffer_of_done hdone]
      exact ⟨_, _, hv, rfl⟩
  | decrypt =>
    cases alg with
    | aes256Cbc =>
      obtain ⟨s, hdone⟩ := @agreeable_plainSession .decrypt .aes256Cbc ik iv buffer _
        buffer.length h (by omega)
      rw [Evp.ciphers, aesCbcDecryptToBufferOpenssl_eq, toBuffer_of_done hdone]
      exact ⟨_, _, hone, rfl⟩
    | aes256Gcm =>
      have h16 : 16 ≤ toInt buffer.length := h
      obtain ⟨s, hdone⟩ := @agreeable_gcmOpenSession ik iv (buffer.drop (buffer.length - 16))
        buffer _ buffer.length (toInt_sub_nonneg h16) (by omega)
      rw [Evp.ciphers, aesGcmDecryptToBufferOpenssl_eq, if_neg (not_lt.2 h16),
        toBuffer_of_done hdone]
      exact ⟨_, _, hone, rfl⟩

end Agreeable

theorem keepsStringLength_iff (dir : Dir) (alg : Alg) (input : Bytes) :
    KeepsStringLength dir alg input ↔
      toInt (inputBytes dir input).length < leastSize dir alg ∨
        (inputBytes dir input).length < 2 ^ 31 := by
  constructor
  · intro hkeeps
    by_contra hnot
    rw [not_or, not_lt, not_lt] at hnot
    obtain ⟨out, s, hrun⟩ := agreeable_stringCiphers hnot.1 (by omega) [] [] []
    have hall := hkeeps Unit Evp.agreeable [] [] [] () out s hrun
    rw [(updates_of_stringCiphers hrun).2] at hall
    have hsize := (processedBytes_eq_iff hnot.1).1 (List.singleton_injective hall)
    omega
  · intro hsize W evp output iv ik w out s hrun
    obtain ⟨hleast, hhanded⟩ := updates_of_stringCiphers hrun
    rw [hhanded, (processedBytes_eq_iff hleast).2 (hsize.resolve_left (not_lt.2 hleast))]

theorem keepsBufferLength_iff (dir : Dir) (alg : Alg) (buffer : Bytes) :
    KeepsBufferLength dir alg buffer ↔
      toInt buffer.length < leastSize dir alg ∨ buffer.length < 2 ^ 31 := by
  constructor
  · intro hkeeps
    by_contra hnot
    rw [not_or, not_lt, not_lt] at hnot
    obtain ⟨b, s, hne, hrun⟩ := agreeable_ciphers hnot.1 (by omega) [] []
    have hall := hkeeps Unit Evp.agreeable [] [] () b s hrun hne
    rw [(updates_of_ciphers hrun).2] at hall
    have hsize := (processedBytes_eq_iff hnot.1).1 (List.singleton_injective hall)
    omega
  · intro hsize W evp iv ik w b s hrun _
    obtain ⟨hleast, hhanded⟩ := updates_of_ciphers hrun
    rw [hhanded, (processedBytes_eq_iff hleast).2 (hsize.resolve_left (not_lt.2 hleast))]

/-! ### `base64encode_openssl` -/

/-- The same calls, with the lengths given to `BIO_write` in the state. -/
def Bio.recorded (bio : Bio W) : Bio (W × List ℤ) where
  new m s := ((bio.new m s.1).1, (bio.new m s.1).2, s.2)
  setFlags b g s := ((), (bio.setFlags b g s.1).2, s.2)
  push b m s := ((bio.push b m s.1).1, (bio.push b m s.1).2, s.2)
  write b buf n s := ((bio.write b buf n s.1).1, (bio.write b buf n s.1).2, s.2 ++ [n])
  flush b s := ((bio.flush b s.1).1, (bio.flush b s.1).2, s.2)
  getMemPtr b s := ((bio.getMemPtr b s.1).1, (bio.getMemPtr b s.1).2, s.2)
  freeAll b s := ((), (bio.freeAll b s.1).2, s.2)

/-- `BIO_write` fails when the length is negative, and nothing is written. -/
def Bio.RefusesNegative (bio : Bio W) (holds : W → BioPtr → BioState → Prop) : Prop :=
  ∀ w b f t (buf : Bytes) (n : ℤ), n < 0 → holds w b (.chain f t) →
    holds (bio.write b buf n w).2 b (.chain f t)

theorem Bio.write_toInt {bio : Bio W} {holds : W → BioPtr → BioState → Prop}
    (h : bio.Documented holds) (hneg : bio.RefusesNegative holds) {w : W} {b : BioPtr} {f : ℕ}
    (hchain : holds w b (.chain f [])) (input : Bytes) :
    holds (bio.write b (cStr input) (toInt input.length) w).2 b
      (.chain f (input.take (toInt input.length).toNat)) := by
  rcases lt_or_ge (toInt input.length) 0 with hlt | hge
  · rw [Int.toNat_of_nonpos hlt.le, List.take_zero]
    exact hneg w b f [] (cStr input) _ hlt hchain
  · have hle : (toInt input.length).toNat ≤ (cStr input).length := by
      have hnat := toInt_toNat_le input.length
      rw [length_cStr]
      omega
    have hwrite := h.write w b f [] (cStr input) _ hle hchain
    rwa [take_cStr_toNat, List.nil_append, Int.toNat_of_nonneg hge] at hwrite

/-- What `base64encode_openssl` encodes, and the length it has given for it. -/
theorem base64encodeOpenssl_take {bio : Bio W} {holds : W → BioPtr → BioState → Prop}
    (h : bio.Documented holds) (hneg : bio.RefusesNegative holds) (input : Bytes) (w : W) :
    ∃ w', base64encodeOpenssl bio.recorded input (w, []) =
      some (rfcEncode (input.take (toInt input.length).toNat), w', [toInt input.length]) := by
  have h₁ := h.new_base64 w
  have h₂ := h.set_flags _ _ _ bioFlagsBase64NoNl h₁
  rw [Nat.zero_or] at h₂
  have h₃ := h.new_frame .mem _ _ _ h₂
  have h₄ := h.push _ _ _ _ h₃ (h.new_mem _)
  have h₅ := Bio.write_toInt h hneg h₄ input
  have h₆ := h.get_mem_ptr _ _ _ (h.flush _ _ _ _ h₅)
  exact ⟨_, by rw [← h₆]; rfl⟩

/-- Whatever OpenSSL does within its documentation: `BIO_write` was given the length of the input,
and the text encodes all of it. The function has no way to report an error: every text that it
returns, the empty one too, stands for the encoding of the input. -/
def KeepsBase64Length (input : Bytes) : Prop :=
  ∀ (W : Type) (bio : Bio W) (holds : W → BioPtr → BioState → Prop), bio.Documented holds →
    bio.RefusesNegative holds → ∀ (w : W) (text : Bytes) s,
      base64encodeOpenssl bio.recorded input (w, []) = some (text, s) →
        s.2 = [(input.length : ℤ)] ∧ text = rfcEncode input

theorem Bio.refusesNegative_heap : heap.RefusesNegative fun w b st => w[b]? = some st := by
  intro w b f t buf n hn h
  have hnone : n.toNat = 0 := Int.toNat_of_nonpos hn.le
  simp [heap, h, hnone]

theorem keepsBase64Length_iff (input : Bytes) :
    KeepsBase64Length input ↔ input.length < 2 ^ 31 := by
  constructor
  · intro hkeeps
    obtain ⟨w', hrun⟩ := base64encodeOpenssl_take Bio.documented_heap Bio.refusesNegative_heap
      input []
    obtain ⟨hlength, -⟩ := hkeeps _ Bio.heap _ Bio.documented_heap Bio.refusesNegative_heap [] _ _
      hrun
    have hsame : toInt input.length = input.length := List.singleton_injective hlength
    have hlt := toInt_lt input.length
    omega
  · intro hlt W bio holds hbio hneg w text s hrun
    obtain ⟨w', htake⟩ := base64encodeOpenssl_take hbio hneg input w
    obtain ⟨rfl, rfl⟩ := Prod.mk.inj (Option.some_inj.1 (htake.symm.trans hrun))
    rw [take_toInt hlt, toInt_of_lt hlt]
    exact ⟨rfl, rfl⟩

/-- **The sizes that survive.** For every input of any size: a string function and a buffer function
have processed every byte whenever they succeed exactly when the number of bytes is below 2^31, or
is refused as an `int`. `base64encode_openssl` refuses nothing, and has processed every byte exactly
when there are fewer than 2^31. -/
theorem keepsLengths_iff (dir : Dir) (alg : Alg) (input : Bytes) :
    (KeepsStringLength dir alg input ↔
        toInt (inputBytes dir input).length < leastSize dir alg ∨
          (inputBytes dir input).length < 2 ^ 31) ∧
      (KeepsBufferLength dir alg input ↔
        toInt input.length < leastSize dir alg ∨ input.length < 2 ^ 31) ∧
      (KeepsBase64Length input ↔ input.length < 2 ^ 31) :=
  ⟨keepsStringLength_iff dir alg input, keepsBufferLength_iff dir alg input,
    keepsBase64Length_iff input⟩

/-- One byte more than 2^32. -/
def wrappingText : Bytes := List.replicate (2 ^ 32 + 1) 0x61

theorem toInt_length_wrappingText : toInt wrappingText.length = 1 := by
  rw [wrappingText, List.length_replicate]
  decide

/-- A text whose size becomes 1, and which begins with an `a`: only this letter is encrypted. -/
theorem aesGcmEncryptOpenssl_of_toInt_eq_one {input : Bytes} (hlen : toInt input.length = 1)
    (hfirst : input.take 1 = str "a") (output : Bytes) (w : Slot) :
    ∃ w', aesGcmEncryptOpenssl (Evp.ofSealing knownSealing) input output (str "1111111111111111")
      (str "00000000000000000000000000000000") w =
        some ((1, stringToCustomBase36Openssl (knownCiphertext .aes256Gcm)), w') := by
  have hevp := inverts_knownSealing.gcm (cStr (str "00000000000000000000000000000000"))
    (cStr (str "1111111111111111")) (by decide) (by decide)
  have hdata : (cStr input).take (toInt input.length).toNat = str "a" := by
    rw [take_cStr_toNat, hlen]
    exact hfirst
  have hpos : 1 ≤ input.length := by
    have hnat := toInt_toNat_le input.length
    omega
  obtain ⟨r, hr⟩ := hevp.seals (str "a") w (by decide)
  rw [enc_knownSealing] at hr
  have hcipher : (knownCiphertext .aes256Gcm).length = 17 := rfl
  have hdone := gcmSealSession_of_run r hdata (by rw [hlen]; decide)
    (show _ ≤ input.length + 16 by rw [hr, hcipher]; omega) (by rw [hr, hcipher]; decide)
  rw [aesGcmEncryptOpenssl_eq, toCode_of_done hdone, hr]
  exact ⟨_, rfl⟩

/-- The encryption of 2^32 + 1 letters returns 1 with the ciphertext of one letter. -/
theorem not_keepsStringLength_wrappingText :
    ¬ KeepsStringLength .encrypt .aes256Gcm wrappingText ∧
      ∃ w', aesGcmEncryptOpenssl (Evp.ofSealing knownSealing) wrappingText []
        (str "1111111111111111") (str "00000000000000000000000000000000")
        ⟨.aes256Gcm, [], [], [], []⟩ =
          some ((1, stringToCustomBase36Openssl (knownCiphertext .aes256Gcm)), w') := by
  constructor
  · intro hkeeps
    rcases (keepsStringLength_iff _ _ _).1 hkeeps with hrefused | hsmall
    · have hneg : toInt wrappingText.length < 0 := hrefused
      rw [toInt_length_wrappingText] at hneg
      omega
    · have hlen : wrappingText.length < 2 ^ 31 := hsmall
      rw [wrappingText, List.length_replicate] at hlen
      omega
  · refine aesGcmEncryptOpenssl_of_toInt_eq_one toInt_length_wrappingText ?_ [] _
    rw [wrappingText, List.take_replicate, Nat.min_eq_left (by decide)]
    rfl

end Behh
