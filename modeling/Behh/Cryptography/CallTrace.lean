import Behh.Cryptography.BufferCipher

/-!
# What the calls leave in a trace

The traced EVP interface appends at most one event for a call. When events of that kind are not
among those that a function `g` selects, the call leaves the selected events as they are; the
calls that write into a vector do so with the writing included.

## Main definitions

* `Selects`: the selected events of a trace.
* `Evp.stringCiphers`: the four string functions by direction and mode.
* `IsSession`: the sessions that they run.

## Main results

* `stringCiphers_cases`, `ciphers_cases`: a function refuses its bytes, or runs a session.
* `keeps_ctxNew`, `keeps_ctxFree`, `keeps_init`, `keeps_updateInto`: calls with an event.
* `keeps_setTag`, `keeps_finalInto`, `keeps_getTagInto`: calls without one.
-/

namespace Behh

variable {W β : Type}

/-- The string functions of the repository. -/
def Evp.stringCiphers (evp : Evp W) :
    Dir → Alg → Bytes → Bytes → Bytes → Bytes → Prog W (ℤ × Bytes)
  | .encrypt, .aes256Cbc => aesCbcEncryptOpenssl evp
  | .encrypt, .aes256Gcm => aesGcmEncryptOpenssl evp
  | .decrypt, .aes256Cbc => aesCbcDecryptOpenssl evp
  | .decrypt, .aes256Gcm => aesGcmDecryptOpenssl evp

/-! ### The functions and their sessions -/

/-- The sessions with a key and an IV in one of the modes. -/
inductive IsSession (evp : Evp W) (key iv : Bytes) : Alg → Prog W SessionEnd → Prop
  | plain (dir : Dir) (alg : Alg) (src : Bytes) (inl : ℤ) (size : ℕ) :
    IsSession evp key iv alg (plainSession evp dir alg key iv src inl size)
  | gcmSeal (src : Bytes) (inl : ℤ) (size : ℕ) :
    IsSession evp key iv .aes256Gcm (gcmSealSession evp key iv src inl size)
  | gcmOpen (src : Bytes) (inl : ℤ) (tag : Bytes) (size : ℕ) :
    IsSession evp key iv .aes256Gcm (gcmOpenSession evp key iv src inl tag size)

/-- **A string function** refuses its text, or runs a session. -/
theorem stringCiphers_cases (evp : Evp W) (dir : Dir) (alg : Alg) (input output iv ik : Bytes) :
    evp.stringCiphers dir alg input output iv ik = pure (-1, output) ∨
      ∃ x start text, IsSession evp (cStr ik) (cStr iv) alg x ∧
        evp.stringCiphers dir alg input output iv ik =
          x >>= SessionEnd.toCode evp start output text := by
  cases dir with
  | encrypt =>
    cases alg with
    | aes256Cbc =>
      exact Or.inr ⟨_, _, _, .plain .., aesCbcEncryptOpenssl_eq evp input output iv ik⟩
    | aes256Gcm =>
      exact Or.inr ⟨_, _, _, .gcmSeal .., aesGcmEncryptOpenssl_eq evp input output iv ik⟩
  | decrypt =>
    cases alg with
    | aes256Cbc =>
      exact Or.inr ⟨_, _, _, .plain .., aesCbcDecryptOpenssl_eq evp input output iv ik⟩
    | aes256Gcm =>
      rw [Evp.stringCiphers, aesGcmDecryptOpenssl_eq]
      split
      · exact Or.inl rfl
      · exact Or.inr ⟨_, _, _, .gcmOpen .., rfl⟩

/-- **A buffer function**, in the same way. -/
theorem ciphers_cases (evp : Evp W) (dir : Dir) (alg : Alg) (buffer ivBuffer ikBuffer : Bytes) :
    evp.ciphers dir alg buffer ivBuffer ikBuffer = pure none ∨
      ∃ x, IsSession evp ikBuffer ivBuffer alg x ∧
        evp.ciphers dir alg buffer ivBuffer ikBuffer = x >>= SessionEnd.toBuffer evp := by
  cases dir with
  | encrypt =>
    cases alg with
    | aes256Cbc =>
      exact Or.inr ⟨_, .plain .., aesCbcEncryptToBufferOpenssl_eq evp buffer ivBuffer ikBuffer⟩
    | aes256Gcm =>
      exact Or.inr ⟨_, .gcmSeal .., aesGcmEncryptToBufferOpenssl_eq evp buffer ivBuffer ikBuffer⟩
  | decrypt =>
    cases alg with
    | aes256Cbc =>
      exact Or.inr ⟨_, .plain .., aesCbcDecryptToBufferOpenssl_eq evp buffer ivBuffer ikBuffer⟩
    | aes256Gcm =>
      rw [Evp.ciphers, aesGcmDecryptToBufferOpenssl_eq]
      split
      · exact Or.inl rfl
      · exact Or.inr ⟨_, .gcmOpen .., rfl⟩

/-! ### The trace -/

/-- The events that `g` selects from the trace are `l`. -/
def Selects (g : EvpEvent → Option β) (l : List β) (s : W × List EvpEvent) : Prop :=
  s.2.filterMap g = l

variable {evp : Evp W} {dir : Dir} {alg : Alg} {key iv src tag out : Bytes} {inl : ℤ} {off : ℕ}
  {ctx : Ctx} {g : EvpEvent → Option β} {l : List β}

theorem filterMap_append_of_none {e : EvpEvent} (h : g e = none) (trace : List EvpEvent) :
    (trace ++ [e]).filterMap g = trace.filterMap g := by
  rw [List.filterMap_append, List.filterMap_cons_none h, List.filterMap_nil, List.append_nil]

theorem filterMap_append_of_some {e : EvpEvent} {b : β} (h : g e = some b)
    (trace : List EvpEvent) : (trace ++ [e]).filterMap g = trace.filterMap g ++ [b] := by
  rw [List.filterMap_append, List.filterMap_cons_some h, List.filterMap_nil]

theorem keeps_ctxNew (hg : ∀ ctx, g (.created ctx) = none) :
    Prog.Keeps (Selects g l) (Prog.call evp.traced.ctxNew) := by
  refine Prog.keeps_call fun s hs => ?_
  rcases hnew : evp.ctxNew s.1 with ⟨_ | ctx, w'⟩
  · simpa only [Selects, Evp.traced, hnew] using hs
  · have hcreated := filterMap_append_of_none (hg ctx) s.2
    simpa only [Selects, Evp.traced, hnew] using hcreated.trans hs

theorem keeps_ctxFree (hg : ∀ ctx, g (.freed ctx) = none) :
    Prog.Keeps (Selects g l) (Prog.call (evp.traced.ctxFree ctx)) :=
  Prog.keeps_call fun _ hs => (filterMap_append_of_none (hg ctx) _).trans hs

theorem keeps_init (hg : ∀ dir alg key iv, g (.init dir alg key iv) = none) :
    Prog.Keeps (Selects g l) (Prog.call (evp.traced.init dir ctx alg key iv)) :=
  Prog.keeps_call fun _ hs => (filterMap_append_of_none (hg dir alg key iv) _).trans hs

theorem keeps_setTag : Prog.Keeps (Selects g l) (Prog.call (evp.traced.setTag ctx tag)) :=
  Prog.keeps_call fun _ hs => hs

theorem keeps_updateInto (hg : ∀ dir data, g (.update dir data) = none) :
    Prog.Keeps (Selects g l) (updateInto evp.traced dir ctx out src inl) :=
  Prog.keeps_ite (Prog.keeps_pure _) <|
    Prog.keeps_bind
      (Prog.keeps_call fun _ hs => (filterMap_append_of_none (hg dir _) _).trans hs) fun
      | none => Prog.keeps_pure _
      | some _ => Prog.keeps_bind (keeps_writeOut _ _ _) fun _ => Prog.keeps_pure _

theorem keeps_finalInto : Prog.Keeps (Selects g l) (finalInto evp.traced dir ctx out off) :=
  Prog.keeps_bind (Prog.keeps_call fun _ hs => hs) fun
    | none => Prog.keeps_pure _
    | some _ => Prog.keeps_bind (keeps_writeOut _ _ _) fun _ => Prog.keeps_pure _

theorem keeps_getTagInto : Prog.Keeps (Selects g l) (getTagInto evp.traced ctx out off) :=
  Prog.keeps_bind (Prog.keeps_call fun _ hs => hs) fun
    | none => Prog.keeps_pure _
    | some _ => Prog.keeps_bind (keeps_writeOut _ _ _) fun _ => Prog.keeps_pure _

end Behh
