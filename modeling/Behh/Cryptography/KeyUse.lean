import Behh.Cryptography.CallTrace

/-!
# The key material that a cipher is given

Every AES function initialises its context once, with the pointers that it was called with, and
does not even do that when it gets no context. The statements are about the traced EVP interface:
the trace that a run leaves behind has one initialisation more, or it reports a failure and has
as many as before.

## Main definitions

* `KeyUse`, `keyUses`: the initialisations of a trace.
* `InitsOnce`: one initialisation, or a failure without one.

## Main results

* `initsOnce_ciphers`: the buffer functions.
* `initsOnce_stringCiphers`: the string functions.
-/

namespace Behh

/-- An initialisation, with the objects that its key pointer and its IV pointer point into. -/
structure KeyUse where
  /-- The cipher. -/
  alg : Alg
  /-- The object behind the key pointer. -/
  key : Bytes
  /-- The object behind the IV pointer. -/
  iv : Bytes
  deriving DecidableEq

/-- The initialisation that an event is. -/
def EvpEvent.keyUse? : EvpEvent → Option KeyUse
  | .init _ alg key iv => some ⟨alg, key, iv⟩
  | _ => none

/-- The initialisations of a trace. -/
def keyUses (trace : List EvpEvent) : List KeyUse := trace.filterMap EvpEvent.keyUse?

variable {W α β : Type}

/-- Every run of `x` adds the initialisation `use` to the trace, or it has a result without
`done` and adds none. -/
def InitsOnce (use : KeyUse) (done : α → Prop) (x : Prog (W × List EvpEvent) α) : Prop :=
  ∀ s a s', x s = some (a, s') →
    keyUses s'.2 = keyUses s.2 ++ [use] ∨ (keyUses s'.2 = keyUses s.2 ∧ ¬ done a)

/-- The initialisations so far are `uses`. -/
def Used (uses : List KeyUse) (s : W × List EvpEvent) : Prop := keyUses s.2 = uses

variable {evp : Evp W} {dir : Dir} {alg : Alg} {key iv src tag out : Bytes} {inl : ℤ} {size off : ℕ}
  {ctx : Ctx} {use : KeyUse} {uses : List KeyUse} {done : α → Prop}

/-! ### Composition -/

/-- A context is asked for and initialised, and no other initialisation follows. -/
theorem initsOnce_init {f : Option Ctx → Prog (W × List EvpEvent) α} {a : α} (ha : ¬ done a)
    (hnone : f none = pure a) {rest : Ctx → Bool → Prog (W × List EvpEvent) α}
    (hsome : ∀ ctx, f (some ctx) = Prog.call (evp.traced.init dir ctx alg key iv) >>= rest ctx)
    (hrest : ∀ ctx b uses, Prog.Keeps (Used uses) (rest ctx b)) :
    InitsOnce ⟨alg, key, iv⟩ done (Prog.call evp.traced.ctxNew >>= f) := by
  intro s r s' h
  obtain ⟨o, s₁, hnew, h⟩ := Prog.bind_eq_some_iff.1 h
  have hs₁ : keyUses s₁.2 = keyUses s.2 := keeps_ctxNew (fun _ => rfl) _ _ _ rfl hnew
  cases o with
  | none =>
    rw [hnone] at h
    obtain ⟨rfl, rfl⟩ : a = r ∧ s₁ = s' := by simpa using h
    exact Or.inr ⟨hs₁, ha⟩
  | some ctx =>
    rw [hsome] at h
    obtain ⟨b, s₂, hinit, h⟩ := Prog.bind_eq_some_iff.1 h
    have hs₂ : keyUses s₂.2 = keyUses s₁.2 ++ [⟨alg, key, iv⟩] := by
      obtain rfl : _ = s₂ := congrArg Prod.snd (Option.some_inj.1 hinit)
      exact filterMap_append_of_some (g := EvpEvent.keyUse?) rfl s₁.2
    refine Or.inl ((hrest ctx b _ _ _ _ rfl h).trans ?_)
    rw [hs₂, hs₁]

/-- What follows adds no initialisation and makes no success of a failure. -/
theorem InitsOnce.bind {x : Prog (W × List EvpEvent) α} (hx : InitsOnce use done x)
    {done' : β → Prop} {f : α → Prog (W × List EvpEvent) β}
    (hf : ∀ a uses, Prog.Keeps (Used uses) (f a))
    (hdone : ∀ a s b s', ¬ done a → f a s = some (b, s') → ¬ done' b) :
    InitsOnce use done' (x >>= f) := by
  intro s b s' h
  obtain ⟨a, s₁, ha, hb⟩ := Prog.bind_eq_some_iff.1 h
  have hkeep : keyUses s'.2 = keyUses s₁.2 := hf a _ _ _ _ rfl hb
  rw [hkeep]
  exact (hx s a s₁ ha).imp_right fun h => ⟨h.1, hdone a s₁ b s' h.2 hb⟩

theorem InitsOnce.keyUses_eq {x : Prog (W × List EvpEvent) α} (hx : InitsOnce use done x)
    {s s' : W × List EvpEvent} {a : α} (h : x s = some (a, s')) (ha : done a) :
    keyUses s'.2 = keyUses s.2 ++ [use] :=
  (hx s a s' h).resolve_right fun hnot => hnot.2 ha

/-- What holds of the one initialisation holds of all of them, if it did before. -/
theorem InitsOnce.keeps {x : Prog (W × List EvpEvent) α} (hx : InitsOnce use done x)
    {P : KeyUse → Prop} (hP : P use) :
    Prog.Keeps (fun s : W × List EvpEvent => ∀ u ∈ keyUses s.2, P u) x := by
  intro s a s' hs h u hu
  rcases hx s a s' h with hadd | ⟨hsame, -⟩
  · rw [hadd, List.mem_append, List.mem_singleton] at hu
    rcases hu with hu | rfl
    · exact hs u hu
    · exact hP
  · rw [hsame] at hu
    exact hs u hu

/-! ### The sessions -/

theorem initsOnce_plainSession :
    InitsOnce ⟨alg, key, iv⟩ (fun e => e ≠ .noContext)
      (plainSession evp.traced dir alg key iv src inl size) := by
  refine initsOnce_init (a := SessionEnd.noContext) (fun h => h rfl) rfl (fun _ => rfl)
    fun _ _ _ => ?_
  exact Prog.keeps_ite (Prog.keeps_pure _) <| Prog.keeps_bind (keeps_updateInto fun _ _ => rfl) fun
    | none => Prog.keeps_pure _
    | some _ => Prog.keeps_bind keeps_finalInto fun
      | none => Prog.keeps_pure _
      | some _ => Prog.keeps_bind (keeps_addInt _ _) fun _ => Prog.keeps_pure _

theorem initsOnce_gcmOpenSession :
    InitsOnce ⟨.aes256Gcm, key, iv⟩ (fun e => e ≠ .noContext)
      (gcmOpenSession evp.traced key iv src inl tag size) := by
  refine initsOnce_init (a := SessionEnd.noContext) (fun h => h rfl) rfl (fun _ => rfl)
    fun _ _ _ => ?_
  exact Prog.keeps_ite (Prog.keeps_pure _) <| Prog.keeps_bind (keeps_updateInto fun _ _ => rfl) fun
    | none => Prog.keeps_pure _
    | some _ => Prog.keeps_bind keeps_setTag fun _ =>
      Prog.keeps_ite (Prog.keeps_pure _) <| Prog.keeps_bind keeps_finalInto fun
        | none => Prog.keeps_pure _
        | some _ => Prog.keeps_bind (keeps_addInt _ _) fun _ => Prog.keeps_pure _

theorem initsOnce_gcmSealSession :
    InitsOnce ⟨.aes256Gcm, key, iv⟩ (fun e => e ≠ .noContext)
      (gcmSealSession evp.traced key iv src inl size) := by
  refine initsOnce_plainSession.bind (fun e uses => ?_) fun e s e' s' he h => ?_
  · cases e with
    | noContext => exact Prog.keeps_pure _
    | failed ctx step => exact Prog.keeps_pure _
    | done ctx out total =>
      exact Prog.keeps_bind keeps_getTagInto fun
        | none => Prog.keeps_pure _
        | some _ => Prog.keeps_bind (keeps_addInt _ _) fun _ => Prog.keeps_pure _
  · obtain rfl := not_not.1 he
    obtain ⟨rfl, -⟩ : SessionEnd.noContext = e' ∧ s = s' := by simpa using h
    exact he

theorem initsOnce_session {x : Prog (W × List EvpEvent) SessionEnd}
    (hx : IsSession evp.traced key iv alg x) :
    InitsOnce ⟨alg, key, iv⟩ (fun e => e ≠ .noContext) x := by
  cases hx with
  | plain => exact initsOnce_plainSession
  | gcmSeal => exact initsOnce_gcmSealSession
  | gcmOpen => exact initsOnce_gcmOpenSession

/-! ### The functions -/

theorem InitsOnce.toCode {x : Prog (W × List EvpEvent) SessionEnd}
    (hx : InitsOnce use (fun e => e ≠ .noContext) x) {start : ℕ} {output : Bytes}
    {text : Bytes → Bytes} :
    InitsOnce use (fun r => r.1 = 1) (x >>= SessionEnd.toCode evp.traced start output text) := by
  refine hx.bind (fun e uses => ?_) fun e s r s' he h => ?_
  · cases e with
    | noContext => exact Prog.keeps_pure _
    | failed ctx step =>
      exact Prog.keeps_bind (keeps_ctxFree fun _ => rfl) fun _ => Prog.keeps_pure _
    | done ctx out total =>
      exact Prog.keeps_bind (keeps_ctxFree fun _ => rfl) fun _ => Prog.keeps_pure _
  · obtain rfl := not_not.1 he
    obtain ⟨rfl, -⟩ : (-(start : ℤ), output) = r ∧ s = s' := by
      simpa [SessionEnd.toCode] using h
    simp only
    omega

theorem InitsOnce.toBuffer {x : Prog (W × List EvpEvent) SessionEnd}
    (hx : InitsOnce use (fun e => e ≠ .noContext) x) :
    InitsOnce use (fun o => o ≠ none) (x >>= SessionEnd.toBuffer evp.traced) := by
  refine hx.bind (fun e uses => ?_) fun e s r s' he h => ?_
  · cases e with
    | noContext => exact Prog.keeps_pure _
    | failed ctx step => exact Prog.keeps_pure _
    | done ctx out total =>
      exact Prog.keeps_bind (keeps_ctxFree fun _ => rfl) fun _ => Prog.keeps_pure _
  · obtain rfl := not_not.1 he
    obtain ⟨rfl, -⟩ : none = r ∧ s = s' := by simpa [SessionEnd.toBuffer] using h
    exact not_not.2 rfl

theorem initsOnce_pure {a : α} (ha : ¬ done a) :
    InitsOnce use done (pure a : Prog (W × List EvpEvent) α) := by
  intro s b s' h
  obtain ⟨rfl, rfl⟩ : a = b ∧ s = s' := by simpa using h
  exact Or.inr ⟨rfl, ha⟩

/-- **The buffer functions** give the pointers they were called with to one initialisation. -/
theorem initsOnce_ciphers (evp : Evp W) (dir : Dir) (alg : Alg) (buffer ivBuffer ikBuffer : Bytes) :
    InitsOnce ⟨alg, ikBuffer, ivBuffer⟩ (fun o => o ≠ none)
      (evp.traced.ciphers dir alg buffer ivBuffer ikBuffer) := by
  obtain hrefused | ⟨x, hx, hsession⟩ :=
    ciphers_cases evp.traced dir alg buffer ivBuffer ikBuffer
  · rw [hrefused]
    exact initsOnce_pure fun h => h rfl
  · rw [hsession]
    exact (initsOnce_session hx).toBuffer

/-- **The string functions** give the pointers of their strings to one initialisation. -/
theorem initsOnce_stringCiphers (evp : Evp W) (dir : Dir) (alg : Alg)
    (input output iv ik : Bytes) :
    InitsOnce ⟨alg, cStr ik, cStr iv⟩ (fun r => r.1 = 1)
      (evp.traced.stringCiphers dir alg input output iv ik) := by
  obtain hrefused | ⟨x, start, text, hx, hsession⟩ :=
    stringCiphers_cases evp.traced dir alg input output iv ik
  · rw [hrefused]
    exact initsOnce_pure (show ¬ (-1 : ℤ) = 1 by decide)
  · rw [hsession]
    exact (initsOnce_session hx).toCode

end Behh
