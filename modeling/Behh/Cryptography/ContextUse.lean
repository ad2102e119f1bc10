import Behh.Cryptography.CallTrace
import Behh.Library.Runs
import Behh.Openssl.Reference
import Mathlib.Data.List.Perm.Basic

/-!
# Cipher contexts and their release

Every one of the eight AES functions asks for at most one context, and its session ends with that
context still in hand. A string function frees it whatever the end is; a buffer function frees it
when the session is done and leaves it behind when a call has failed.

A sequence of calls of the eight functions therefore leaves no context behind exactly when the
buffer functions among them meet no failure of EVP once they have a context
(`noneLive_iff_completes`). Runs without outcome (a write past the end of a vector, an overflow)
say nothing and are left out.

## Main definitions

* `created`, `freed`, `Released`: the contexts of a trace.
* `AesCall`, `AesCall.run`, `aesStep`: sequences of calls.
* `AesCall.Completes`: EVP fails no call after it has handed out a context.

## Main results

* `opensOnce_plainSession`, `opensOnce_gcmSealSession`, `opensOnce_gcmOpenSession`: what a session
  does with its context.
* `AesCall.released_iff`: one call.
* `noneLive_iff_completes`: sequences of calls.
-/

namespace Behh

/-- The context that an event creates. -/
def EvpEvent.created? : EvpEvent → Option Ctx
  | .created ctx => some ctx
  | _ => none

/-- The context that an event frees. -/
def EvpEvent.freed? : EvpEvent → Option Ctx
  | .freed ctx => some ctx
  | _ => none

/-- The contexts created in a trace. -/
def created (trace : List EvpEvent) : List Ctx := trace.filterMap EvpEvent.created?

/-- The contexts freed in a trace. -/
def freed (trace : List EvpEvent) : List Ctx := trace.filterMap EvpEvent.freed?

/-- Every context was freed as often as it was created: none is live. -/
def Released (trace : List EvpEvent) : Prop := (freed trace).Perm (created trace)

variable {W α β : Type}

/-! ### Programs that neither create nor free a context -/

/-- The program leaves the contexts of the trace as they are. -/
def Quiet (x : Prog (W × List EvpEvent) α) : Prop :=
  ∀ s a s', x s = some (a, s') → created s'.2 = created s.2 ∧ freed s'.2 = freed s.2

theorem quiet_of_keeps {x : Prog (W × List EvpEvent) α}
    (hcreated : ∀ l, Prog.Keeps (Selects EvpEvent.created? l) x)
    (hfreed : ∀ l, Prog.Keeps (Selects EvpEvent.freed? l) x) : Quiet x :=
  fun s a s' h => ⟨hcreated _ s a s' rfl h, hfreed _ s a s' rfl h⟩

variable {evp : Evp W} {dir : Dir} {alg : Alg} {key iv src tag out : Bytes} {inl : ℤ}
  {size off : ℕ} {ctx : Ctx}

theorem quiet_init : Quiet (Prog.call (evp.traced.init dir ctx alg key iv)) :=
  quiet_of_keeps (fun _ => keeps_init fun _ _ _ _ => rfl) fun _ => keeps_init fun _ _ _ _ => rfl

theorem quiet_setTag : Quiet (Prog.call (evp.traced.setTag ctx tag)) :=
  quiet_of_keeps (fun _ => keeps_setTag) fun _ => keeps_setTag

theorem quiet_updateInto : Quiet (updateInto evp.traced dir ctx out src inl) :=
  quiet_of_keeps (fun _ => keeps_updateInto fun _ _ => rfl) fun _ => keeps_updateInto fun _ _ => rfl

theorem quiet_finalInto : Quiet (finalInto evp.traced dir ctx out off) :=
  quiet_of_keeps (fun _ => keeps_finalInto) fun _ => keeps_finalInto

theorem quiet_getTagInto : Quiet (getTagInto evp.traced ctx out off) :=
  quiet_of_keeps (fun _ => keeps_getTagInto) fun _ => keeps_getTagInto

theorem quiet_addInt (a b : ℕ) : Quiet (addInt a b : Prog (W × List EvpEvent) ℕ) :=
  quiet_of_keeps (fun _ => keeps_addInt a b) fun _ => keeps_addInt a b

/-! ### What a session does with its context -/

/-- The context that a session ends with. -/
def SessionEnd.ctx? : SessionEnd → Option Ctx
  | noContext => none
  | failed ctx _ => some ctx
  | done ctx _ _ => some ctx

/-- The program holds the context `ctx` when it ends, and does not touch the contexts. -/
def Holds (ctx : Ctx) (x : Prog (W × List EvpEvent) SessionEnd) : Prop :=
  ∀ s e s', x s = some (e, s') →
    e.ctx? = some ctx ∧ created s'.2 = created s.2 ∧ freed s'.2 = freed s.2

theorem holds_pure {e : SessionEnd} (he : e.ctx? = some ctx) :
    Holds ctx (pure e : Prog (W × List EvpEvent) SessionEnd) := by
  intro s e' s' h
  obtain ⟨rfl, rfl⟩ : e = e' ∧ s = s' := by simpa using h
  exact ⟨he, rfl, rfl⟩

theorem holds_bind {x : Prog (W × List EvpEvent) α} (hx : Quiet x)
    {f : α → Prog (W × List EvpEvent) SessionEnd} (hf : ∀ a, Holds ctx (f a)) :
    Holds ctx (x >>= f) := by
  intro s e s' h
  obtain ⟨a, s₁, h₁, h₂⟩ := Prog.bind_eq_some_iff.1 h
  obtain ⟨hctx, hcreated, hfreed⟩ := hf a s₁ e s' h₂
  obtain ⟨hcreated₁, hfreed₁⟩ := hx s a s₁ h₁
  exact ⟨hctx, hcreated.trans hcreated₁, hfreed.trans hfreed₁⟩

theorem holds_ite {c : Prop} [Decidable c] {x y : Prog (W × List EvpEvent) SessionEnd}
    (hx : Holds ctx x) (hy : Holds ctx y) : Holds ctx (if c then x else y) := by
  split
  · exact hx
  · exact hy

/-- The session ends with the context that EVP hands out, if any; it creates no other one and
frees none. -/
def OpensOnce (evp : Evp W) (x : Prog (W × List EvpEvent) SessionEnd) : Prop :=
  ∀ s e s', x s = some (e, s') →
    e.ctx? = (evp.ctxNew s.1).1 ∧
      created s'.2 = created s.2 ++ e.ctx?.toList ∧ freed s'.2 = freed s.2

theorem opensOnce_of_holds {f : Option Ctx → Prog (W × List EvpEvent) SessionEnd}
    (hnone : f none = pure .noContext) (hsome : ∀ ctx, Holds ctx (f (some ctx))) :
    OpensOnce evp (Prog.call evp.traced.ctxNew >>= f) := by
  intro s e s' h
  obtain ⟨o, s₁, hnew, h⟩ := Prog.bind_eq_some_iff.1 h
  have hfreed₁ : freed s₁.2 = freed s.2 := keeps_ctxNew (fun _ => rfl) _ _ _ rfl hnew
  rcases hctx : evp.ctxNew s.1 with ⟨_ | ctx, w'⟩
  · obtain ⟨rfl, rfl⟩ : none = o ∧ (w', s.2) = s₁ := by simpa [Evp.traced, hctx] using hnew
    rw [hnone] at h
    obtain ⟨rfl, rfl⟩ : SessionEnd.noContext = e ∧ (w', s.2) = s' := by simpa using h
    exact ⟨rfl, (List.append_nil _).symm, rfl⟩
  · obtain ⟨rfl, rfl⟩ : some ctx = o ∧ (w', s.2 ++ [.created ctx]) = s₁ := by
      simpa [Evp.traced, hctx] using hnew
    obtain ⟨he, hcreated, hfreed⟩ := hsome ctx _ e s' h
    refine ⟨he, ?_, hfreed.trans hfreed₁⟩
    rw [hcreated, he]
    exact filterMap_append_of_some (g := EvpEvent.created?) rfl s.2

theorem opensOnce_plainSession :
    OpensOnce evp (plainSession evp.traced dir alg key iv src inl size) :=
  opensOnce_of_holds rfl fun _ => holds_bind quiet_init fun _ =>
    holds_ite (holds_pure rfl) <| holds_bind quiet_updateInto fun
      | none => holds_pure rfl
      | some _ => holds_bind quiet_finalInto fun
        | none => holds_pure rfl
        | some _ => holds_bind (quiet_addInt _ _) fun _ => holds_pure rfl

theorem opensOnce_gcmOpenSession :
    OpensOnce evp (gcmOpenSession evp.traced key iv src inl tag size) :=
  opensOnce_of_holds rfl fun _ => holds_bind quiet_init fun _ =>
    holds_ite (holds_pure rfl) <| holds_bind quiet_updateInto fun
      | none => holds_pure rfl
      | some _ => holds_bind quiet_setTag fun _ =>
        holds_ite (holds_pure rfl) <| holds_bind quiet_finalInto fun
          | none => holds_pure rfl
          | some _ => holds_bind (quiet_addInt _ _) fun _ => holds_pure rfl

theorem opensOnce_gcmSealSession :
    OpensOnce evp (gcmSealSession evp.traced key iv src inl size) := by
  intro s e' s' h
  obtain ⟨e, s₁, hplain, hrest⟩ := Prog.bind_eq_some_iff.1 h
  obtain ⟨hctx, hcreated, hfreed⟩ := opensOnce_plainSession s e s₁ hplain
  cases e with
  | noContext =>
    obtain ⟨rfl, rfl⟩ : SessionEnd.noContext = e' ∧ s₁ = s' := by simpa using hrest
    exact ⟨hctx, hcreated, hfreed⟩
  | failed ctx step =>
    obtain ⟨rfl, rfl⟩ : SessionEnd.failed ctx step = e' ∧ s₁ = s' := by simpa using hrest
    exact ⟨hctx, hcreated, hfreed⟩
  | done ctx out total =>
    obtain ⟨tag, s₂, htag, hend⟩ := Prog.bind_eq_some_iff.1 hrest
    obtain ⟨hcreated₂, hfreed₂⟩ := quiet_getTagInto s₁ tag s₂ htag
    obtain ⟨he, hcreated', hfreed'⟩ : e'.ctx? = some ctx ∧ created s'.2 = created s₂.2 ∧
        freed s'.2 = freed s₂.2 := by
      cases tag with
      | none => exact holds_pure rfl s₂ e' s' hend
      | some _ => exact holds_bind (quiet_addInt _ _) (fun _ => holds_pure rfl) s₂ e' s' hend
    rw [he, hcreated', hfreed', hcreated₂, hfreed₂]
    exact ⟨hctx, hcreated, hfreed⟩

theorem opensOnce_session {x : Prog (W × List EvpEvent) SessionEnd}
    (hx : IsSession evp.traced key iv alg x) : OpensOnce evp x := by
  cases hx with
  | plain => exact opensOnce_plainSession
  | gcmSeal => exact opensOnce_gcmSealSession
  | gcmOpen => exact opensOnce_gcmOpenSession

/-! ### When a session fails -/

/-- A session fails when it has a context and not all its calls succeed. -/
theorem failed_iff {e : SessionEnd} {o : Option Ctx} {run : Prop} (hctx : e.ctx? = o)
    (hdone : run → ∃ ctx v total, e = .done ctx v total)
    (hrun : ∀ ctx v total, e = .done ctx v total → run) :
    (∃ ctx step, e = .failed ctx step) ↔ ¬(o = none ∨ run) := by
  subst hctx
  rw [not_or]
  cases e with
  | noContext => simp [SessionEnd.ctx?]
  | failed ctx step =>
    refine iff_of_true ⟨ctx, step, rfl⟩ ⟨by simp [SessionEnd.ctx?], fun h => ?_⟩
    obtain ⟨ctx', v, total, he⟩ := hdone h
    cases he
  | done ctx v total => simp [hrun ctx v total rfl]

/-! ### The endings -/

section Endings

variable {x : Prog (W × List EvpEvent) SessionEnd} {s s' : W × List EvpEvent}

theorem created_ctxFree (ctx : Ctx) (s : W × List EvpEvent) :
    created (evp.traced.ctxFree ctx s).2.2 = created s.2 :=
  filterMap_append_of_none (g := EvpEvent.created?) rfl s.2

theorem freed_ctxFree (ctx : Ctx) (s : W × List EvpEvent) :
    freed (evp.traced.ctxFree ctx s).2.2 = freed s.2 ++ [ctx] :=
  filterMap_append_of_some (g := EvpEvent.freed?) rfl s.2

theorem released_ctxFree {s₁ : W × List EvpEvent} (hs : Released s.2)
    (hcreated : created s₁.2 = created s.2 ++ [ctx]) (hfreed : freed s₁.2 = freed s.2) :
    Released (evp.traced.ctxFree ctx s₁).2.2 := by
  rw [Released, created_ctxFree, freed_ctxFree, hcreated, hfreed]
  exact hs.append_right _

theorem not_released {s₁ : W × List EvpEvent} (hs : Released s.2)
    (hcreated : created s₁.2 = created s.2 ++ [ctx]) (hfreed : freed s₁.2 = freed s.2) :
    ¬ Released s₁.2 := by
  intro h
  have hlen := h.length_eq
  have hlen' := hs.length_eq
  rw [hcreated, hfreed, List.length_append, List.length_singleton] at hlen
  omega

/-- **The ending of a string function** frees the context, whatever the session came to. -/
theorem released_toCode (hx : OpensOnce evp x) {start : ℕ} {output : Bytes} {text : Bytes → Bytes}
    {r : ℤ × Bytes} (hs : Released s.2)
    (h : (x >>= SessionEnd.toCode evp.traced start output text) s = some (r, s')) :
    Released s'.2 := by
  obtain ⟨e, s₁, hsession, hend⟩ := Prog.bind_eq_some_iff.1 h
  obtain ⟨-, hcreated, hfreed⟩ := hx s e s₁ hsession
  cases e with
  | noContext =>
    obtain ⟨-, rfl⟩ : (-(start : ℤ), output) = r ∧ s₁ = s' := by
      simpa [SessionEnd.toCode] using hend
    rw [Released, hcreated, hfreed]
    exact hs.trans (by rw [SessionEnd.ctx?, Option.toList_none, List.append_nil])
  | failed ctx step =>
    obtain rfl : (evp.traced.ctxFree ctx s₁).2 = s' := congrArg Prod.snd (Option.some_inj.1 hend)
    exact released_ctxFree hs hcreated hfreed
  | done ctx v total =>
    obtain rfl : (evp.traced.ctxFree ctx s₁).2 = s' := congrArg Prod.snd (Option.some_inj.1 hend)
    exact released_ctxFree hs hcreated hfreed

/-- **The ending of a buffer function** frees the context unless the session has failed. -/
theorem released_toBuffer_iff (hx : OpensOnce evp x) {r : Option Bytes} (hs : Released s.2)
    {ok : Prop} (hok : ∀ e s₁, x s = some (e, s₁) → ((∃ ctx step, e = .failed ctx step) ↔ ¬ ok))
    (h : (x >>= SessionEnd.toBuffer evp.traced) s = some (r, s')) : Released s'.2 ↔ ok := by
  obtain ⟨e, s₁, hsession, hend⟩ := Prog.bind_eq_some_iff.1 h
  obtain ⟨-, hcreated, hfreed⟩ := hx s e s₁ hsession
  have hfailed := hok e s₁ hsession
  cases e with
  | noContext =>
    obtain ⟨-, rfl⟩ : none = r ∧ s₁ = s' := by simpa [SessionEnd.toBuffer] using hend
    refine iff_of_true ?_ (not_not.1 fun h => by simpa using hfailed.2 h)
    rw [Released, hcreated, hfreed]
    exact hs.trans (by rw [SessionEnd.ctx?, Option.toList_none, List.append_nil])
  | failed ctx step =>
    obtain ⟨-, rfl⟩ : none = r ∧ s₁ = s' := by simpa [SessionEnd.toBuffer] using hend
    exact iff_of_false (not_released hs hcreated hfreed) (hfailed.1 ⟨ctx, step, rfl⟩)
  | done ctx v total =>
    obtain rfl : (evp.traced.ctxFree ctx s₁).2 = s' := congrArg Prod.snd (Option.some_inj.1 hend)
    exact iff_of_true (released_ctxFree hs hcreated hfreed)
      (not_not.1 fun h => by simpa using hfailed.2 h)

end Endings

/-! ### Sequences of calls -/

/-- A call of one of the eight functions. -/
inductive AesCall where
  /-- A string function with its four strings. -/
  | string (dir : Dir) (alg : Alg) (input output iv ik : Bytes)
  /-- A buffer function with its buffer and its two pointers. -/
  | buffer (dir : Dir) (alg : Alg) (buffer ivBuffer ikBuffer : Bytes)

namespace AesCall

/-- The call, without what it returns. -/
def run (evp : Evp W) : AesCall → Prog W Unit
  | string dir alg input output iv ik => do
    let _ ← evp.stringCiphers dir alg input output iv ik
    return
  | buffer dir alg data ivBuffer ikBuffer => do
    let _ ← evp.ciphers dir alg data ivBuffer ikBuffer
    return

/-- EVP fails no call of a buffer function that has got a context from it; a GCM decryption of
fewer than 16 bytes asks for none. The string functions need no such condition. -/
def Completes (evp : Evp W) (w : W) : AesCall → Prop
  | string .. => True
  | buffer dir .aes256Cbc data iv ik =>
    (evp.ctxNew w).1 = none ∨ 0 ≤ toInt data.length ∧
      Nonempty (PlainRun evp dir .aes256Cbc ik iv (data.take (toInt data.length).toNat) w)
  | buffer .encrypt .aes256Gcm data iv ik =>
    (evp.ctxNew w).1 = none ∨ 0 ≤ toInt data.length ∧
      Nonempty (GcmSealRun evp ik iv (data.take (toInt data.length).toNat) w)
  | buffer .decrypt .aes256Gcm data iv ik =>
    toInt data.length < 16 ∨ (evp.ctxNew w).1 = none ∨ 0 ≤ toInt (data.length - 16) ∧
      Nonempty (GcmOpenRun evp ik iv (data.take (toInt (data.length - 16)).toNat)
        (data.drop (data.length - 16)) w)

variable {s s' : W × List EvpEvent}

theorem fst_ctxNew_traced (evp : Evp W) (s : W × List EvpEvent) :
    (evp.traced.ctxNew s).1 = (evp.ctxNew s.1).1 := by
  rcases h : evp.ctxNew s.1 with ⟨_ | ctx, w'⟩ <;> simp [Evp.traced, h]

theorem released_string {input output iv ik : Bytes} {r : ℤ × Bytes} (hs : Released s.2)
    (h : evp.traced.stringCiphers dir alg input output iv ik s = some (r, s')) :
    Released s'.2 := by
  obtain hrefused | ⟨x, start, text, hx, hsession⟩ :=
    stringCiphers_cases evp.traced dir alg input output iv ik
  · rw [hrefused] at h
    obtain ⟨-, rfl⟩ : (-1, output) = r ∧ s = s' := by simpa using h
    exact hs
  · rw [hsession] at h
    exact released_toCode (opensOnce_session hx) hs h

/-- **The ending of a buffer function**, for a session that is done exactly when all its calls
succeed. -/
theorem released_session_iff {x : Prog (W × List EvpEvent) SessionEnd} (hx : OpensOnce evp x)
    {r : Option Bytes} (hs : Released s.2) {run : Prop}
    (hdone : ∀ e s₁, x s = some (e, s₁) → run → ∃ ctx v total, e = .done ctx v total)
    (hrun : ∀ ctx v total s₁, x s = some (.done ctx v total, s₁) → run)
    (h : (x >>= SessionEnd.toBuffer evp.traced) s = some (r, s')) :
    Released s'.2 ↔ (evp.traced.ctxNew s).1 = none ∨ run := by
  refine released_toBuffer_iff hx hs (fun e s₁ hsession => ?_) h
  rw [fst_ctxNew_traced]
  refine failed_iff (hx s e s₁ hsession).1 (hdone e s₁ hsession) ?_
  rintro ctx v total rfl
  exact hrun ctx v total s₁ hsession

theorem released_plain_iff {r : Option Bytes} (hs : Released s.2)
    (h : (plainSession evp.traced dir alg key iv src inl size >>=
      SessionEnd.toBuffer evp.traced) s = some (r, s')) :
    Released s'.2 ↔ (evp.traced.ctxNew s).1 = none ∨ 0 ≤ inl ∧
      Nonempty (PlainRun evp.traced dir alg key iv (src.take inl.toNat) s) := by
  refine released_session_iff opensOnce_plainSession hs ?_ ?_ h
  · rintro e s₁ hsession ⟨hinl, ⟨run⟩⟩
    obtain ⟨⟨v, total, he⟩, -⟩ := done_of_plainRun run hinl hsession
    exact ⟨_, v, total, he⟩
  · intro ctx v total s₁ hsession
    obtain ⟨hinl, run, -⟩ := run_of_plainSession hsession
    exact ⟨hinl, ⟨run⟩⟩

theorem released_seal_iff {r : Option Bytes} (hs : Released s.2)
    (h : (gcmSealSession evp.traced key iv src inl size >>=
      SessionEnd.toBuffer evp.traced) s = some (r, s')) :
    Released s'.2 ↔ (evp.traced.ctxNew s).1 = none ∨ 0 ≤ inl ∧
      Nonempty (GcmSealRun evp.traced key iv (src.take inl.toNat) s) := by
  refine released_session_iff opensOnce_gcmSealSession hs ?_ ?_ h
  · rintro e s₁ hsession ⟨hinl, ⟨run⟩⟩
    exact ⟨_, done_of_gcmSealRun run hinl hsession⟩
  · intro ctx v total s₁ hsession
    obtain ⟨hinl, run, -⟩ := run_of_gcmSealSession hsession
    exact ⟨hinl, ⟨run⟩⟩

theorem released_open_iff {r : Option Bytes} (hs : Released s.2)
    (h : (gcmOpenSession evp.traced key iv src inl tag size >>=
      SessionEnd.toBuffer evp.traced) s = some (r, s')) :
    Released s'.2 ↔ (evp.traced.ctxNew s).1 = none ∨ 0 ≤ inl ∧
      Nonempty (GcmOpenRun evp.traced key iv (src.take inl.toNat) tag s) := by
  refine released_session_iff opensOnce_gcmOpenSession hs ?_ ?_ h
  · rintro e s₁ hsession ⟨hinl, ⟨run⟩⟩
    exact ⟨_, done_of_gcmOpenRun run hinl hsession⟩
  · intro ctx v total s₁ hsession
    obtain ⟨hinl, run, -⟩ := run_of_gcmOpenSession hsession
    exact ⟨hinl, ⟨run⟩⟩

/-- **One call.** It leaves no context behind exactly when it completes. -/
theorem released_iff (call : AesCall) (hs : Released s.2)
    (h : call.run evp.traced s = some ((), s')) :
    Released s'.2 ↔ call.Completes evp.traced s := by
  cases call with
  | string dir alg input output iv ik =>
    obtain ⟨r, s₁, hcall, hret⟩ := Prog.bind_eq_some_iff.1 h
    obtain rfl : s₁ = s' := by simpa using hret
    exact iff_of_true (released_string hs hcall) trivial
  | buffer dir alg data iv ik =>
    obtain ⟨r, s₁, hcall, hret⟩ := Prog.bind_eq_some_iff.1 h
    obtain rfl : s₁ = s' := by simpa using hret
    cases dir with
    | encrypt =>
      cases alg with
      | aes256Cbc =>
        rw [Evp.ciphers, aesCbcEncryptToBufferOpenssl_eq] at hcall
        exact released_plain_iff hs hcall
      | aes256Gcm =>
        rw [Evp.ciphers, aesGcmEncryptToBufferOpenssl_eq] at hcall
        exact released_seal_iff hs hcall
    | decrypt =>
      cases alg with
      | aes256Cbc =>
        rw [Evp.ciphers, aesCbcDecryptToBufferOpenssl_eq] at hcall
        exact released_plain_iff hs hcall
      | aes256Gcm =>
        rw [Evp.ciphers, aesGcmDecryptToBufferOpenssl_eq] at hcall
        by_cases hshort : toInt data.length < 16
        · rw [if_pos hshort] at hcall
          obtain ⟨-, rfl⟩ : none = r ∧ s = s₁ := by simpa using hcall
          exact iff_of_true hs (Or.inl hshort)
        · rw [if_neg hshort] at hcall
          rw [released_open_iff hs hcall, Completes, or_iff_right hshort]

end AesCall

/-- One call from a state of the library with its trace; `none` is a run without outcome. -/
def aesStep (evp : Evp W) (o : Option (W × List EvpEvent)) (call : AesCall) :
    Option (W × List EvpEvent) :=
  o.bind fun s => (call.run evp.traced s).map Prod.snd

/-- No context is live. -/
def NoneLive (o : Option (W × List EvpEvent)) : Prop := ∀ s, o = some s → Released s.2

/-- A call that returns completes. -/
def CallCompletes (evp : Evp W) (o : Option (W × List EvpEvent)) (call : AesCall) : Prop :=
  ∀ s, o = some s → (call.run evp.traced s).isSome → call.Completes evp.traced s

theorem noneLive_aesStep_iff (o : Option (W × List EvpEvent)) (call : AesCall)
    (ho : NoneLive o) : NoneLive (aesStep evp o call) ↔ CallCompletes evp o call := by
  cases o with
  | none => simp [NoneLive, CallCompletes, aesStep]
  | some s =>
    have hs : Released s.2 := ho s rfl
    rcases hrun : call.run evp.traced s with _ | ⟨u, s'⟩
    · simp [NoneLive, CallCompletes, aesStep, hrun]
    · simpa [NoneLive, CallCompletes, aesStep, hrun] using AesCall.released_iff call hs hrun

/-- **Cipher contexts over sequences of calls.** Between the calls no context is live exactly when
every call of a buffer function completes: the string functions free their context on every path,
the buffer functions only on the path without a failure. -/
theorem noneLive_iff_completes (evp : Evp W) (calls : List AesCall) (w : W) :
    AllStates (aesStep evp) NoneLive (some (w, [])) calls ↔
      AllSteps (aesStep evp) (CallCompletes evp) (some (w, [])) calls := by
  refine allStates_iff_allSteps (fun o call ho => noneLive_aesStep_iff o call ho) ?_ calls
  rintro s h
  obtain rfl : (w, []) = s := by simpa using h
  exact List.Perm.refl []

/-- A GCM decryption of sixteen bytes that encryption makes of nothing, with a sealing that opens
only what it has sealed. -/
def corruptCall : AesCall :=
  .buffer .decrypt .aes256Gcm (List.replicate 16 0) (List.replicate 16 0x31)
    (List.replicate 32 0x30)

/-- The context of a decryption that fails its tag check stays behind. -/
theorem not_noneLive_corruptCall :
    ¬ AllStates (aesStep (Evp.ofSealing (markedSealing 0))) NoneLive
      (some (⟨.aes256Cbc, [], [], [], []⟩, [])) [corruptCall] := by
  intro h
  have htrace : (aesStep (Evp.ofSealing (markedSealing 0))
      (some (⟨.aes256Cbc, [], [], [], []⟩, [])) corruptCall).map Prod.snd =
      some [.created 0, .init .decrypt .aes256Gcm (List.replicate 32 0x30)
        (List.replicate 16 0x31), .update .decrypt []] := by
    decide +kernel
  obtain ⟨s, hs, htrace⟩ := Option.map_eq_some_iff.1 htrace
  have hreleased : Released s.2 := h.2 s hs
  rw [htrace] at hreleased
  exact absurd hreleased (by unfold Released; decide)

end Behh
