import Behh.Cryptography.ContextUse
import Mathlib.Logic.Function.Basic

/-!
# The order of the EVP calls

OpenSSL lays down in which order the calls on a cipher context come: it is created, initialised for
one direction and one cipher, updated and finished in that direction, and freed. The tag of a GCM
decryption is set before the decryption is finished, and the tag of a GCM encryption is read after
the encryption is finished. After a call that has failed the context can only be freed, and a
context that is not there is not even freed.

The monitored interface makes the same calls and keeps beside the state of the library how far each
context has been taken. Whatever the calls return, the eight AES functions, one after the other in
any order, make every call in its order, and return what they return without the monitor.

## Main definitions

* `CtxPhase`, `CtxCall`, `CtxPhase.next`: how far a context has been taken, and what a call does.
* `EvpMonitor`, `Evp.monitored`: the calls with a monitor.

## Main results

* `plainSession_inOrder`, `gcmSealSession_inOrder`, `gcmOpenSession_inOrder`: the sessions.
* `AesCall.run_inOrder`: one function.
* `aesCalls_inOrder`: sequences of functions.
-/

namespace Behh

/-! ### The monitor -/

/-- How far a context has been taken. -/
inductive CtxPhase where
  /-- It is not there. -/
  | absent
  | fresh
  /-- It is initialised; the tag of a decryption is set or not. -/
  | active (dir : Dir) (alg : Alg) (tagged : Bool)
  | finished (dir : Dir) (alg : Alg)
  /-- A call has failed. -/
  | failed
  deriving DecidableEq

/-- A call on a context. -/
inductive CtxCall where
  | init (dir : Dir) (alg : Alg)
  | update (dir : Dir)
  | setTag (length : ℕ)
  | final (dir : Dir)
  | getTag
  | free

/-- The context after a call that succeeds or fails; nothing when the call is out of order. -/
def CtxPhase.next (ok : Bool) : CtxPhase → CtxCall → Option CtxPhase
  | fresh, .init dir alg => some (if ok then active dir alg false else failed)
  | active dir alg tagged, .update dir' =>
    if dir' = dir then some (if ok then active dir alg tagged else failed) else none
  | active dir alg _, .setTag length =>
    if dir = .decrypt ∧ alg = .aes256Gcm ∧ length = 16 then
      some (if ok then active dir alg true else failed)
    else none
  | active dir alg tagged, .final dir' =>
    if dir' = dir ∧ (dir = .decrypt → alg = .aes256Gcm → tagged = true) then
      some (if ok then finished dir alg else failed)
    else none
  | finished dir alg, .getTag =>
    if dir = .encrypt ∧ alg = .aes256Gcm then some (if ok then finished dir alg else failed)
    else none
  | absent, .free => none
  | _, .free => some absent
  | _, _ => none

/-- The contexts, and whether every call so far was in its order. -/
structure EvpMonitor where
  /-- How far each context has been taken. -/
  phase : Ctx → CtxPhase
  /-- No call was out of order. -/
  inOrder : Bool

/-- A context is handed out. -/
def EvpMonitor.create (m : EvpMonitor) (ctx : Ctx) : EvpMonitor :=
  { m with phase := Function.update m.phase ctx .fresh }

/-- A call on a context is made. -/
def EvpMonitor.call (m : EvpMonitor) (ctx : Ctx) (c : CtxCall) (ok : Bool) : EvpMonitor :=
  match (m.phase ctx).next ok c with
  | some p => { m with phase := Function.update m.phase ctx p }
  | none => { m with inOrder := false }

variable {W : Type}

/-- The same calls, with a monitor beside the state of the library. -/
def Evp.monitored (evp : Evp W) : Evp (W × EvpMonitor) where
  ctxNew s :=
    let r := evp.ctxNew s.1
    (r.1, r.2, r.1.elim s.2 s.2.create)
  ctxFree ctx s := ((), (evp.ctxFree ctx s.1).2, s.2.call ctx .free true)
  init dir ctx alg key iv s :=
    let r := evp.init dir ctx alg key iv s.1
    (r.1, r.2, s.2.call ctx (.init dir alg) r.1)
  update dir ctx data s :=
    let r := evp.update dir ctx data s.1
    (r.1, r.2, s.2.call ctx (.update dir) r.1.isSome)
  final dir ctx s :=
    let r := evp.final dir ctx s.1
    (r.1, r.2, s.2.call ctx (.final dir) r.1.isSome)
  getTag ctx s :=
    let r := evp.getTag ctx s.1
    (r.1, r.2, s.2.call ctx .getTag r.1.isSome)
  setTag ctx tag s :=
    let r := evp.setTag ctx tag s.1
    (r.1, r.2, s.2.call ctx (.setTag tag.length) r.1)

/-! ### One call -/

variable {m : Ctx → CtxPhase} {ctx : Ctx} {p : CtxPhase} {evp : Evp W} {dir : Dir} {alg : Alg}
  {key iv src tag out : Bytes} {inl : ℤ} {off size : ℕ} {α : Type}

/-- Every call so far was in its order, and one context has been taken to `p`. -/
def At (m : Ctx → CtxPhase) (ctx : Ctx) (p : CtxPhase) (s : W × EvpMonitor) : Prop :=
  s.2 = ⟨Function.update m ctx p, true⟩

/-- **A call in its order**, which takes the context from `p` to `q` unless it fails. -/
theorem simulates_ctxCall {f : W → α × W} (ok : α → Bool) (c : CtxCall) {q : CtxPhase}
    (hnext : ∀ a, p.next (ok a) c = some (if ok a then q else .failed)) :
    Prog.Simulates Prod.fst (At m ctx p) (fun a => At m ctx (if ok a then q else .failed))
      (Prog.call fun s : W × EvpMonitor => ((f s.1).1, (f s.1).2, s.2.call ctx c (ok (f s.1).1)))
      (Prog.call f) := by
  refine Prog.simulates_call (fun s => ⟨rfl, rfl⟩) ?_
  rintro ⟨w, _⟩ rfl
  simp only [At, EvpMonitor.call, Function.update_self, hnext, Function.update_idem]

theorem simulates_writeOut {P : W × EvpMonitor → Prop} (v : Bytes) (off : ℕ) (data : Bytes) :
    Prog.Simulates Prod.fst P (fun _ => P) (writeOut v off data) (writeOut v off data) :=
  Prog.simulates_ite (fun _ => Prog.simulates_pure fun _ => id) fun _ => Prog.simulates_failure

theorem simulates_addInt {P : W × EvpMonitor → Prop} (a b : ℕ) :
    Prog.Simulates Prod.fst P (fun _ => P) (addInt a b) (addInt a b) :=
  Prog.simulates_ite (fun _ => Prog.simulates_pure fun _ => id) fun _ => Prog.simulates_failure

/-- A context after a call that may fail: nothing that was to be written stands for a failure. -/
def AtOrFailed (m : Ctx → CtxPhase) (ctx : Ctx) (p : CtxPhase) :
    Option α → W × EvpMonitor → Prop
  | none, s => ∃ p, p ≠ .absent ∧ At m ctx p s
  | some _, s => At m ctx p s

theorem simulates_failed :
    Prog.Simulates Prod.fst (At m ctx .failed) (AtOrFailed m ctx p)
      (pure none : Prog (W × EvpMonitor) (Option α)) (pure none) :=
  Prog.simulates_pure fun _ hs => ⟨.failed, by simp, hs⟩

theorem updateInto_inOrder {tagged : Bool} :
    Prog.Simulates Prod.fst (At m ctx (.active dir alg tagged))
      (AtOrFailed m ctx (.active dir alg tagged))
      (updateInto evp.monitored dir ctx out src inl) (updateInto evp dir ctx out src inl) := by
  refine Prog.simulates_ite
    (fun _ => Prog.simulates_pure fun _ hs => ⟨.active dir alg tagged, by simp, hs⟩) fun _ => ?_
  refine Prog.Simulates.bind (simulates_ctxCall Option.isSome (.update dir)
    fun _ => if_pos rfl) fun o => ?_
  cases o with
  | none => exact simulates_failed
  | some data =>
    exact (simulates_writeOut _ _ _).bind fun _ => Prog.simulates_pure fun _ hs => hs

theorem finalInto_inOrder {tagged : Bool}
    (htag : dir = .decrypt → alg = .aes256Gcm → tagged = true) :
    Prog.Simulates Prod.fst (At m ctx (.active dir alg tagged))
      (AtOrFailed m ctx (.finished dir alg))
      (finalInto evp.monitored dir ctx out off) (finalInto evp dir ctx out off) := by
  refine Prog.Simulates.bind (simulates_ctxCall Option.isSome (.final dir)
    fun _ => if_pos ⟨rfl, htag⟩) fun o => ?_
  cases o with
  | none => exact simulates_failed
  | some data =>
    exact (simulates_writeOut _ _ _).bind fun _ => Prog.simulates_pure fun _ hs => hs

theorem getTagInto_inOrder :
    Prog.Simulates Prod.fst (At m ctx (.finished .encrypt .aes256Gcm))
      (AtOrFailed m ctx (.finished .encrypt .aes256Gcm))
      (getTagInto evp.monitored ctx out off) (getTagInto evp ctx out off) := by
  refine Prog.Simulates.bind (simulates_ctxCall Option.isSome .getTag fun _ => rfl) fun o => ?_
  cases o with
  | none => exact simulates_failed
  | some data =>
    exact (simulates_writeOut _ _ _).bind fun _ => Prog.simulates_pure fun _ hs => hs

/-! ### Sessions -/

/-- The context that a session ends with: it is there, and has been taken to `p` when the session
is done. -/
def EndsWith (m : Ctx → CtxPhase) (p : CtxPhase) : SessionEnd → W × EvpMonitor → Prop
  | .noContext, s => s.2 = ⟨m, true⟩
  | .failed ctx _, s => ∃ p, p ≠ .absent ∧ At m ctx p s
  | .done ctx _ _, s => At m ctx p s

/-- No context is handed out, or one that has not been used. -/
def Created (m : Ctx → CtxPhase) : Option Ctx → W × EvpMonitor → Prop
  | none, s => s.2 = ⟨m, true⟩
  | some ctx, s => At m ctx .fresh s

theorem ctxNew_inOrder :
    Prog.Simulates Prod.fst (fun s : W × EvpMonitor => s.2 = ⟨m, true⟩) (Created m)
      (Prog.call evp.monitored.ctxNew) (Prog.call evp.ctxNew) := by
  refine Prog.simulates_call (fun _ => ⟨rfl, rfl⟩) ?_
  rintro ⟨w, _⟩ rfl
  simp only [Evp.monitored]
  cases (evp.ctxNew w).1 <;> rfl

theorem init_inOrder :
    Prog.Simulates Prod.fst (At m ctx .fresh)
      (fun ok => At m ctx (if ok then .active dir alg false else .failed))
      (Prog.call (evp.monitored.init dir ctx alg key iv))
      (Prog.call (evp.init dir ctx alg key iv)) :=
  simulates_ctxCall id (.init dir alg) fun _ => rfl

theorem setTag_inOrder (htag : tag.length = 16) {tagged : Bool} :
    Prog.Simulates Prod.fst (At m ctx (.active .decrypt .aes256Gcm tagged))
      (fun ok => At m ctx (if ok then .active .decrypt .aes256Gcm true else .failed))
      (Prog.call (evp.monitored.setTag ctx tag)) (Prog.call (evp.setTag ctx tag)) :=
  simulates_ctxCall id (.setTag tag.length) fun _ => if_pos ⟨rfl, rfl, htag⟩

theorem plainSession_inOrder (hplain : dir = .decrypt → alg ≠ .aes256Gcm) :
    Prog.Simulates Prod.fst (fun s : W × EvpMonitor => s.2 = ⟨m, true⟩)
      (EndsWith m (.finished dir alg)) (plainSession evp.monitored dir alg key iv src inl size)
      (plainSession evp dir alg key iv src inl size) := by
  refine ctxNew_inOrder.bind fun o => ?_
  cases o with
  | none => exact Prog.simulates_pure fun _ hs => hs
  | some ctx =>
    refine init_inOrder.bind fun ok => ?_
    cases ok with
    | false => exact Prog.simulates_pure fun _ hs => ⟨.failed, by simp, hs⟩
    | true =>
      refine updateInto_inOrder.bind fun o => ?_
      cases o with
      | none => exact Prog.simulates_pure fun _ hs => hs
      | some r =>
        refine (finalInto_inOrder fun hdir halg => absurd halg (hplain hdir)).bind fun o => ?_
        cases o with
        | none => exact Prog.simulates_pure fun _ hs => hs
        | some r => exact (simulates_addInt _ _).bind fun _ => Prog.simulates_pure fun _ hs => hs

theorem gcmSealSession_inOrder :
    Prog.Simulates Prod.fst (fun s : W × EvpMonitor => s.2 = ⟨m, true⟩)
      (EndsWith m (.finished .encrypt .aes256Gcm))
      (gcmSealSession evp.monitored key iv src inl size)
      (gcmSealSession evp key iv src inl size) := by
  refine Prog.Simulates.bind (plainSession_inOrder (by simp)) fun e => ?_
  cases e with
  | noContext => exact Prog.simulates_pure fun _ hs => hs
  | failed ctx step => exact Prog.simulates_pure fun _ hs => hs
  | done ctx v total =>
    refine getTagInto_inOrder.bind fun o => ?_
    cases o with
    | none => exact Prog.simulates_pure fun _ hs => hs
    | some r => exact (simulates_addInt _ _).bind fun _ => Prog.simulates_pure fun _ hs => hs

theorem gcmOpenSession_inOrder (htag : tag.length = 16) :
    Prog.Simulates Prod.fst (fun s : W × EvpMonitor => s.2 = ⟨m, true⟩)
      (EndsWith m (.finished .decrypt .aes256Gcm))
      (gcmOpenSession evp.monitored key iv src inl tag size)
      (gcmOpenSession evp key iv src inl tag size) := by
  refine ctxNew_inOrder.bind fun o => ?_
  cases o with
  | none => exact Prog.simulates_pure fun _ hs => hs
  | some ctx =>
    refine init_inOrder.bind fun ok => ?_
    cases ok with
    | false => exact Prog.simulates_pure fun _ hs => ⟨.failed, by simp, hs⟩
    | true =>
      refine updateInto_inOrder.bind fun o => ?_
      cases o with
      | none => exact Prog.simulates_pure fun _ hs => hs
      | some r =>
        refine (setTag_inOrder htag).bind fun ok => ?_
        cases ok with
        | false => exact Prog.simulates_pure fun _ hs => ⟨.failed, by simp, hs⟩
        | true =>
          refine (finalInto_inOrder fun _ _ => rfl).bind fun o => ?_
          cases o with
          | none => exact Prog.simulates_pure fun _ hs => hs
          | some r => exact (simulates_addInt _ _).bind fun _ => Prog.simulates_pure fun _ hs => hs

/-! ### The functions -/

/-- Every call so far was in its order. -/
def InOrder (s : W × EvpMonitor) : Prop := s.2.inOrder = true

theorem At.inOrder {s : W × EvpMonitor} (h : At m ctx p s) : InOrder s := by
  rw [InOrder, show s.2 = _ from h]

theorem ctxFree_inOrder (hp : p ≠ .absent) :
    Prog.Simulates Prod.fst (At m ctx p) (fun _ s => InOrder s)
      (Prog.call (evp.monitored.ctxFree ctx)) (Prog.call (evp.ctxFree ctx)) := by
  have hnext : p.next true .free = some .absent := by
    cases p with
    | absent => exact absurd rfl hp
    | _ => rfl
  exact (simulates_ctxCall (f := evp.ctxFree ctx) (fun _ => true) .free
    fun _ => hnext).mono (fun _ => id) fun _ _ => At.inOrder

theorem toCode_inOrder {start : ℕ} {output : Bytes} {text : Bytes → Bytes} {q : CtxPhase}
    (hq : q ≠ .absent) (e : SessionEnd) :
    Prog.Simulates Prod.fst (EndsWith m q e) (fun _ s => InOrder s)
      (e.toCode evp.monitored start output text) (e.toCode evp start output text) := by
  cases e with
  | noContext => exact Prog.simulates_pure fun s hs => congrArg EvpMonitor.inOrder hs
  | failed ctx step =>
    rintro s ⟨p, hp, hs⟩
    have hfreed : Prog.Simulates Prod.fst (At m ctx p) (fun _ s => InOrder s)
        ((SessionEnd.failed ctx step).toCode evp.monitored start output text)
        ((SessionEnd.failed ctx step).toCode evp start output text) :=
      (ctxFree_inOrder hp).bind fun _ => Prog.simulates_pure fun _ hs => hs
    exact hfreed s hs
  | done ctx v total =>
    exact (ctxFree_inOrder hq).bind fun _ => Prog.simulates_pure fun _ hs => hs

theorem toBuffer_inOrder {q : CtxPhase} (hq : q ≠ .absent) (e : SessionEnd) :
    Prog.Simulates Prod.fst (EndsWith m q e) (fun _ s => InOrder s)
      (e.toBuffer evp.monitored) (e.toBuffer evp) := by
  cases e with
  | noContext => exact Prog.simulates_pure fun s hs => congrArg EvpMonitor.inOrder hs
  | failed ctx step =>
    exact Prog.simulates_pure fun s hs => let ⟨_, _, hs⟩ := hs; hs.inOrder
  | done ctx v total =>
    exact (ctxFree_inOrder hq).bind fun _ => Prog.simulates_pure fun _ hs => hs

theorem session_inOrder {x : Prog (W × EvpMonitor) SessionEnd} {y : Prog W SessionEnd}
    {f : SessionEnd → Prog (W × EvpMonitor) α} {g : SessionEnd → Prog W α} {q : CtxPhase}
    (hx : ∀ m, Prog.Simulates Prod.fst (fun s : W × EvpMonitor => s.2 = ⟨m, true⟩) (EndsWith m q)
      x y)
    (hf : ∀ m e, Prog.Simulates Prod.fst (EndsWith m q e) (fun _ s => InOrder s) (f e) (g e)) :
    Prog.Refines Prod.fst InOrder (x >>= f) (y >>= g) := by
  rintro ⟨w, phase, _⟩ rfl
  exact ((hx phase).bind (hf phase)) _ rfl

theorem length_tag {data : Bytes} (h : ¬ toInt data.length < 16) :
    (data.drop (data.length - 16)).length = 16 := by
  have hle := toInt_toNat_le data.length
  rw [List.length_drop]
  omega

theorem stringCiphers_inOrder (evp : Evp W) (dir : Dir) (alg : Alg)
    (input output iv ik : Bytes) :
    Prog.Refines Prod.fst InOrder (evp.monitored.stringCiphers dir alg input output iv ik)
      (evp.stringCiphers dir alg input output iv ik) := by
  cases dir with
  | encrypt =>
    cases alg with
    | aes256Cbc =>
      simp only [Evp.stringCiphers, aesCbcEncryptOpenssl_eq]
      exact session_inOrder (fun _ => plainSession_inOrder (by simp))
        fun _ => toCode_inOrder (by simp)
    | aes256Gcm =>
      simp only [Evp.stringCiphers, aesGcmEncryptOpenssl_eq]
      exact session_inOrder (fun _ => gcmSealSession_inOrder) fun _ => toCode_inOrder (by simp)
  | decrypt =>
    cases alg with
    | aes256Cbc =>
      simp only [Evp.stringCiphers, aesCbcDecryptOpenssl_eq]
      exact session_inOrder (fun _ => plainSession_inOrder (by simp))
        fun _ => toCode_inOrder (by simp)
    | aes256Gcm =>
      simp only [Evp.stringCiphers, aesGcmDecryptOpenssl_eq]
      split
      · exact Prog.refines_pure _
      · rename_i hlong
        exact session_inOrder (fun _ => gcmOpenSession_inOrder (length_tag hlong))
          fun _ => toCode_inOrder (by simp)

theorem ciphers_inOrder (evp : Evp W) (dir : Dir) (alg : Alg)
    (buffer ivBuffer ikBuffer : Bytes) :
    Prog.Refines Prod.fst InOrder (evp.monitored.ciphers dir alg buffer ivBuffer ikBuffer)
      (evp.ciphers dir alg buffer ivBuffer ikBuffer) := by
  cases dir with
  | encrypt =>
    cases alg with
    | aes256Cbc =>
      simp only [Evp.ciphers, aesCbcEncryptToBufferOpenssl_eq]
      exact session_inOrder (fun _ => plainSession_inOrder (by simp))
        fun _ => toBuffer_inOrder (by simp)
    | aes256Gcm =>
      simp only [Evp.ciphers, aesGcmEncryptToBufferOpenssl_eq]
      exact session_inOrder (fun _ => gcmSealSession_inOrder) fun _ => toBuffer_inOrder (by simp)
  | decrypt =>
    cases alg with
    | aes256Cbc =>
      simp only [Evp.ciphers, aesCbcDecryptToBufferOpenssl_eq]
      exact session_inOrder (fun _ => plainSession_inOrder (by simp))
        fun _ => toBuffer_inOrder (by simp)
    | aes256Gcm =>
      simp only [Evp.ciphers, aesGcmDecryptToBufferOpenssl_eq]
      split
      · exact Prog.refines_pure _
      · rename_i hlong
        exact session_inOrder (fun _ => gcmOpenSession_inOrder (length_tag hlong))
          fun _ => toBuffer_inOrder (by simp)

/-- **One function.** -/
theorem AesCall.run_inOrder (evp : Evp W) (call : AesCall) :
    Prog.Refines Prod.fst InOrder (call.run evp.monitored) (call.run evp) := by
  cases call with
  | string dir alg input output iv ik =>
    exact (stringCiphers_inOrder evp dir alg input output iv ik).bind fun _ =>
      Prog.refines_pure ()
  | buffer dir alg data iv ik =>
    exact (ciphers_inOrder evp dir alg data iv ik).bind fun _ => Prog.refines_pure ()

/-! ### Sequences of functions -/

/-- **The order of the EVP calls.** Whatever EVP does, in every sequence of calls of the eight
functions, with any arguments and from any contexts that are already there: the monitored calls have
the outcome that the calls have without the monitor, and no call is out of order. -/
theorem aesCalls_inOrder (evp : Evp W) (calls : List AesCall) (w : W) (phase : Ctx → CtxPhase) :
    (calls.mapM (AesCall.run evp.monitored) (w, ⟨phase, true⟩)).map (fun r => r.2.1) =
        (calls.mapM (AesCall.run evp) w).map Prod.snd ∧
      ∀ r, calls.mapM (AesCall.run evp.monitored) (w, ⟨phase, true⟩) = some r →
        r.2.2.inOrder = true := by
  obtain ⟨hsame, hinOrder⟩ :=
    Prog.Refines.mapM (AesCall.run_inOrder evp) calls (w, ⟨phase, true⟩) rfl
  refine ⟨?_, hinOrder⟩
  rw [← hsame, Option.map_map]
  rfl

/-- A GCM decryption that is finished without its tag is out of order. -/
example : ((plainSession (Evp.ofSealing (markedSealing 0)).monitored .decrypt .aes256Gcm [] [] [] 0
    16 (⟨.aes256Cbc, [], [], [], []⟩, ⟨fun _ => .absent, true⟩)).map fun r => r.2.2.inOrder) =
    some false := by decide

end Behh
