import Behh.Utility.KeyMaterial

/-!
# Nonces

File encryption passes the same key buffer and the same IV buffer to every chunk, so that a GCM
run repeats its nonce as soon as there are two chunks. The string function uses the first 12
bytes of the IV it is given, and nothing of what follows them.

## Main definitions

* `CipherCall.keyNonce`, `KeyUse.nonce`: what EVP reads at a call and at an initialisation.
* `GcmCall`, `encryptEach`: a sequence of calls of `aes_gcm_encrypt_openssl`.

## Main results

* `nodup_keyNonces_iff`: the pairs of key and nonce in a run of file encryption.
* `keyUses_encryptEach`: the initialisations in a sequence of calls.
* `gcmNonces_nodup`: both together.
-/

namespace Behh

/-- The key and the nonce that EVP reads at a call of a per-chunk cipher. -/
def CipherCall.keyNonce (c : CipherCall) : Bytes × Bytes :=
  (c.ik.take c.alg.keyLength, c.iv.take c.alg.ivLength)

/-- The nonce that EVP reads at an initialisation. -/
def KeyUse.nonce (u : KeyUse) : Bytes := u.iv.take u.alg.ivLength

variable {W : Type} {alg : Alg} {n : ℕ} {fileInput fileOutput : Path} {iv ik : Bytes}

/-! ### File encryption -/

section File

variable {ciphers : Ciphers W} {dir : Dir} {d : Disk} {w : W} {code : Except Unit ℤ}
  {s' : Sys (W × List CipherCall)}

theorem keyNonces_eq_replicate {ivBuffer ikBuffer : Bytes} {cs : List Bytes}
    {outs : List (Option Bytes)} (hlen : outs.length = cs.length) :
    (cs.zipWith (fun c o => CipherCall.mk dir alg c ivBuffer ikBuffer o) outs).map
        CipherCall.keyNonce =
      List.replicate cs.length (ikBuffer.take alg.keyLength, ivBuffer.take alg.ivLength) := by
  induction cs generalizing outs with
  | nil => rw [List.zipWith_nil_left, List.map_nil, List.length_nil, List.replicate_zero]
  | cons c cs ih =>
    cases outs with
    | nil => simp at hlen
    | cons o outs =>
      rw [List.zipWith_cons_cons, List.map_cons, ih (by simpa using hlen), List.length_cons,
        List.replicate_succ]
      rfl

/-- The pairs of key and nonce of a run are distinct exactly when what it reads, if it reads
anything, is one chunk at most. -/
theorem nodup_keyNonces_iff (hn : 0 < n)
    (hrun : crypt (recorded ciphers dir) alg.mode fileInput fileOutput iv ik n ⟨d, (w, [])⟩ =
      some (code, s')) :
    (s'.lib.2.map CipherCall.keyNonce).Nodup ↔
      (n < 2 ^ 63 → (IfStream.new fileInput d).1.good = true →
        (seenContent d fileInput fileOutput).length ≤ n) := by
  rcases Nat.lt_or_ge n (2 ^ 63) with hlt | hle
  · by_cases hgood : (IfStream.new fileInput d).1.good = true
    · obtain ⟨outs, w', hall, -, rfl⟩ := (crypt_recorded_eq_some ⟨hn, hlt⟩ hgood).1 hrun
      rw [keyNonces_eq_replicate (length_of_cipherAll hall), List.nodup_replicate,
        List.length_chunks_le_one_iff hn]
      exact ⟨fun h _ _ => h, fun h => h hlt hgood⟩
    · rw [crypt_of_not_good hlt (by simpa using hgood)] at hrun
      obtain ⟨-, rfl⟩ := Prod.mk.inj (Option.some_inj.1 hrun)
      exact ⟨fun _ _ h => absurd h hgood, fun _ => List.nodup_nil⟩
  · rw [crypt_of_le hle] at hrun
    obtain ⟨-, rfl⟩ := Prod.mk.inj (Option.some_inj.1 hrun)
    exact ⟨fun _ hlt => absurd hle (Nat.not_le.2 hlt), fun _ => List.nodup_nil⟩

end File

/-! ### String encryption -/

/-- A call of `aes_gcm_encrypt_openssl`, without its key. -/
structure GcmCall where
  /-- The message. -/
  input : Bytes
  /-- The output parameter before the call. -/
  output : Bytes
  /-- The IV. -/
  iv : Bytes

/-- Calls of `aes_gcm_encrypt_openssl` with one key, one after the other. -/
def encryptEach (evp : Evp W) (ik : Bytes) (calls : List GcmCall) : Prog W (List (ℤ × Bytes)) :=
  calls.mapM fun c => aesGcmEncryptOpenssl evp c.input c.output c.iv ik

theorem encryptEach_cons_eq_some {evp : Evp W} {c : GcmCall} {calls : List GcmCall} {w w' : W}
    {rs : List (ℤ × Bytes)} :
    encryptEach evp ik (c :: calls) w = some (rs, w') ↔
      ∃ r w₁ rest, aesGcmEncryptOpenssl evp c.input c.output c.iv ik w = some (r, w₁) ∧
        encryptEach evp ik calls w₁ = some (rest, w') ∧ rs = r :: rest := by
  rw [encryptEach, List.mapM_cons, Prog.bind_eq_some_iff]
  constructor
  · rintro ⟨r, w₁, hr, h⟩
    obtain ⟨rest, w₂, hrest, hpure⟩ := Prog.bind_eq_some_iff.1 h
    obtain ⟨rfl, rfl⟩ : r :: rest = rs ∧ w₂ = w' := by simpa using hpure
    exact ⟨r, w₁, rest, hr, hrest, rfl⟩
  · rintro ⟨r, w₁, rest, hr, hrest, rfl⟩
    exact ⟨r, w₁, hr, Prog.bind_eq_some_iff.2 ⟨rest, w', hrest, rfl⟩⟩

/-- The initialisations in a sequence of calls: one for each call with the pointers to its
strings, but for calls that fail before. -/
theorem keyUses_encryptEach {evp : Evp W} {calls : List GcmCall} {s s' : W × List EvpEvent}
    {rs : List (ℤ × Bytes)} (h : encryptEach evp.traced ik calls s = some (rs, s')) :
    ∃ uses, keyUses s'.2 = keyUses s.2 ++ uses ∧
      uses.Sublist (calls.map fun c => ⟨.aes256Gcm, cStr ik, cStr c.iv⟩) ∧
      ((∀ r ∈ rs, r.1 = 1) → uses = calls.map fun c => ⟨.aes256Gcm, cStr ik, cStr c.iv⟩) := by
  induction calls generalizing s rs with
  | nil =>
    obtain ⟨-, rfl⟩ : [] = rs ∧ s = s' := by simpa [encryptEach] using h
    exact ⟨[], (List.append_nil _).symm, List.nil_sublist _, fun _ => rfl⟩
  | cons c calls ih =>
    obtain ⟨r, s₁, rest, hcall, hrest, rfl⟩ := encryptEach_cons_eq_some.1 h
    obtain ⟨uses, huses, hsub, hall⟩ := ih hrest
    rcases initsOnce_stringCiphers evp .encrypt .aes256Gcm _ _ _ _ _ _ _ hcall with
      hadd | ⟨hsame, hfailed⟩
    · refine ⟨_ :: uses, ?_, hsub.cons_cons _, fun hok => ?_⟩
      · rw [huses, hadd, List.append_assoc, List.singleton_append]
      · rw [hall fun r' hr' => hok r' (List.mem_cons_of_mem _ hr'), List.map_cons]
    · refine ⟨uses, by rw [huses, hsame], hsub.cons _, fun hok => ?_⟩
      exact absurd (hok r (List.mem_cons_self ..)) hfailed

/-- The nonces of the calls are the first 12 bytes of their IVs. -/
theorem nonces_map_calls {calls : List GcmCall} (hiv : ∀ c ∈ calls, 12 ≤ c.iv.length) :
    (calls.map fun c => KeyUse.mk .aes256Gcm (cStr ik) (cStr c.iv)).map KeyUse.nonce =
      calls.map fun c => c.iv.take 12 := by
  rw [List.map_map]
  exact List.map_congr_left fun c hc => take_cStr (hiv c hc)

/-- The nonces of a sequence of calls are distinct when the IVs differ in their first 12 bytes,
and only then if all calls succeed. -/
theorem nodup_nonces_encryptEach {evp : Evp W} {calls : List GcmCall} {w : W}
    {s' : W × List EvpEvent} {rs : List (ℤ × Bytes)} (hiv : ∀ c ∈ calls, 12 ≤ c.iv.length)
    (h : encryptEach evp.traced ik calls (w, []) = some (rs, s')) :
    ((calls.map fun c => c.iv.take 12).Nodup → ((keyUses s'.2).map KeyUse.nonce).Nodup) ∧
    ((∀ r ∈ rs, r.1 = 1) →
      (keyUses s'.2).map KeyUse.nonce = calls.map fun c => c.iv.take 12) := by
  obtain ⟨uses, huses, hsub, hall⟩ := keyUses_encryptEach h
  have huses' : keyUses s'.2 = uses := huses
  rw [huses', ← @nonces_map_calls ik calls hiv]
  exact ⟨fun hnodup => hnodup.sublist (hsub.map _), fun hok => by rw [hall hok]⟩

/-! ### Both together -/

/-- **Nonces.** In a run of `file::encrypt` in GCM mode the pairs of key and nonce are distinct
exactly when what it reads, if it reads anything, is one chunk at most. In a sequence of calls of
`aes_gcm_encrypt_openssl` with one key and IVs of at least 12 bytes, the nonces are distinct when
the IVs differ in their first 12 bytes, and only then if all calls succeed. -/
theorem gcmNonces_nodup {evp : Evp W} (hn : 1 ≤ n) {d : Disk} {w : W} {code : Except Unit ℤ}
    {s : Sys (W × List CipherCall)}
    (hrun : encrypt (recorded evp.ciphers) Alg.aes256Gcm.mode fileInput fileOutput iv ik n
      ⟨d, (w, [])⟩ = some (code, s))
    {calls : List GcmCall} (hiv : ∀ c ∈ calls, 12 ≤ c.iv.length) {ik' : Bytes} {v : W}
    {rs : List (ℤ × Bytes)} {t : W × List EvpEvent}
    (hcalls : encryptEach evp.traced ik' calls (v, []) = some (rs, t)) :
    ((s.lib.2.map CipherCall.keyNonce).Nodup ↔
      (n < 2 ^ 63 → (IfStream.new fileInput d).1.good = true →
        (seenContent d fileInput fileOutput).length ≤ n)) ∧
    ((calls.map fun c => c.iv.take 12).Nodup → ((keyUses t.2).map KeyUse.nonce).Nodup) ∧
    ((∀ r ∈ rs, r.1 = 1) →
      (((keyUses t.2).map KeyUse.nonce).Nodup ↔ (calls.map fun c => c.iv.take 12).Nodup)) := by
  obtain ⟨hdistinct, hexact⟩ := nodup_nonces_encryptEach hiv hcalls
  exact ⟨nodup_keyNonces_iff hn hrun, hdistinct, fun hok => by rw [hexact hok]⟩

theorem exists_encrypt_run (alg : Alg) (iv ik f : Bytes) (hn : 0 < n) (hlen : n + 16 < 2 ^ 31) :
    ∃ code s, encrypt (recorded (Evp.ofSealing (markedSealing 0)).ciphers) alg.mode (str "in")
      (str "out") iv ik n ⟨Disk.single (str "in") f, (.initial, [])⟩ = some (code, s) := by
  have hcall : ∀ cs : List Bytes, (∀ c ∈ cs, c.length ≤ n) → ∀ w, ∃ outs w',
      cipherAll ((Evp.ofSealing (markedSealing 0)).ciphers .encrypt alg) (toBuffer iv 16)
        (toBuffer ik 16) cs w = some (outs, w') := by
    intro cs hcs
    induction cs with
    | nil => exact fun w => ⟨[], w, cipherAll_nil w⟩
    | cons c cs ih =>
      intro w
      have hle := alg.sealedLength_le c.length
      have hc := hcs c (List.mem_cons_self ..)
      obtain ⟨w₁, ho⟩ := ciphers_encrypt_of_inverts
        (invertsAt_markedSealing 0 alg (toBuffer ik 16) (toBuffer iv 16)) (m := c) (by omega) w
      obtain ⟨os, w', hos⟩ := ih (fun c' hc' => hcs c' (List.mem_cons_of_mem _ hc')) w₁
      exact ⟨_, w', cipherAll_cons_eq_some.2 ⟨_, w₁, os, ho, hos, rfl⟩⟩
  have hd := Disk.faultless_single (str "in") f
  have hf := Disk.single_files (str "in") f
  obtain ⟨outs, w', hall⟩ := hcall (f.chunks n)
    (fun c hc => List.length_le_of_mem_chunks hn hc) .initial
  refine ⟨_, _, (crypt_recorded_eq_some ⟨hn, by omega⟩ (IfStream.good_new hd hf)).2
    ⟨outs, w', ?_, rfl, rfl⟩⟩
  rwa [seenContent_of_ne (by decide) hf]

/-- A sequence of calls with small messages has an outcome, and all calls succeed. -/
theorem exists_encryptEach_run (ik : Bytes) (calls : List GcmCall)
    (hlen : ∀ c ∈ calls, c.input.length + 16 < 2 ^ 31) (s : Slot × List EvpEvent) :
    ∃ rs t, encryptEach (Evp.ofSealing (markedSealing 0)).traced ik calls s = some (rs, t) ∧
      ∀ r ∈ rs, r.1 = 1 := by
  induction calls generalizing s with
  | nil => exact ⟨[], s, rfl, by simp⟩
  | cons c calls ih =>
    obtain ⟨s₁, hcall⟩ := aesGcmEncryptOpenssl_of_inverts
      (invertsAt_markedSealing 0 .aes256Gcm (cStr ik) (cStr c.iv)).traced
      (hlen c (List.mem_cons_self ..)) c.output s
    obtain ⟨rs, t, hrest, hok⟩ := ih (fun c' hc' => hlen c' (List.mem_cons_of_mem _ hc')) s₁
    refine ⟨_, t, encryptEach_cons_eq_some.2 ⟨_, s₁, rs, hcall, hrest, rfl⟩, fun r hr => ?_⟩
    rcases List.mem_cons.1 hr with rfl | hr
    · rfl
    · exact hok r hr

/-- A file of three bytes in chunks of 32 bytes, and two messages under IVs that differ in their
first byte. -/
theorem gcmNonces_nodup_abc :
    ∃ code s rs t,
      encrypt (recorded (Evp.ofSealing (markedSealing 0)).ciphers) Alg.aes256Gcm.mode (str "in")
        (str "out") (str "abcdefghijklmnop") (str "abcdefghijklmnopqrstuvwxyz012345") 32
        ⟨Disk.single (str "in") (str "abc"), (.initial, [])⟩ = some (code, s) ∧
      encryptEach (Evp.ofSealing (markedSealing 0)).traced (str "abcdefghijklmnopqrstuvwxyz012345")
        [⟨str "x", [], str "1bcdefghijkl"⟩, ⟨str "y", [], str "2bcdefghijkl"⟩] (.initial, []) =
          some (rs, t) ∧
      (s.lib.2.map CipherCall.keyNonce).Nodup ∧ ((keyUses t.2).map KeyUse.nonce).Nodup := by
  obtain ⟨code, s, hrun⟩ := @exists_encrypt_run 32 .aes256Gcm (str "abcdefghijklmnop")
    (str "abcdefghijklmnopqrstuvwxyz012345") (str "abc") (by decide) (by decide)
  obtain ⟨rs, t, hcalls, -⟩ := exists_encryptEach_run (str "abcdefghijklmnopqrstuvwxyz012345")
    [⟨str "x", [], str "1bcdefghijkl"⟩, ⟨str "y", [], str "2bcdefghijkl"⟩] (by decide)
    (.initial, [])
  obtain ⟨hfile, hdistinct, -⟩ := gcmNonces_nodup (by decide) hrun (by decide) hcalls
  refine ⟨code, s, rs, t, hrun, hcalls, hfile.2 fun _ _ => ?_, hdistinct (by decide)⟩
  rw [seenContent_of_ne (by decide) (Disk.single_files _ _)]
  decide

/-- A file of two bytes in chunks of one byte repeats its nonce, and so do two messages under IVs
that differ in their 13th byte. -/
theorem repeated_nonces :
    (∃ code s,
      encrypt (recorded (Evp.ofSealing (markedSealing 0)).ciphers) Alg.aes256Gcm.mode (str "in")
        (str "out") (str "abcdefghijklmnop") (str "abcdefghijklmnopqrstuvwxyz012345") 1
        ⟨Disk.single (str "in") (str "ab"), (.initial, [])⟩ = some (code, s) ∧
      ¬ (s.lib.2.map CipherCall.keyNonce).Nodup) ∧
    ∃ rs t,
      encryptEach (Evp.ofSealing (markedSealing 0)).traced (str "abcdefghijklmnopqrstuvwxyz012345")
        [⟨str "x", [], str "abcdefghijkl1"⟩, ⟨str "y", [], str "abcdefghijkl2"⟩] (.initial, []) =
          some (rs, t) ∧
      ¬ ((keyUses t.2).map KeyUse.nonce).Nodup := by
  obtain ⟨code, s, hrun⟩ := @exists_encrypt_run 1 .aes256Gcm (str "abcdefghijklmnop")
    (str "abcdefghijklmnopqrstuvwxyz012345") (str "ab") (by decide) (by decide)
  obtain ⟨rs, t, hcalls, hok⟩ := exists_encryptEach_run (str "abcdefghijklmnopqrstuvwxyz012345")
    [⟨str "x", [], str "abcdefghijkl1"⟩, ⟨str "y", [], str "abcdefghijkl2"⟩] (by decide)
    (.initial, [])
  refine ⟨⟨code, s, hrun, fun hnodup => ?_⟩, rs, t, hcalls, ?_⟩
  · have hlen := (nodup_keyNonces_iff (by decide) hrun).1 hnodup (by decide)
      (IfStream.good_new (Disk.faultless_single _ _) (Disk.single_files _ _))
    rw [seenContent_of_ne (by decide) (Disk.single_files _ _)] at hlen
    exact absurd hlen (by decide)
  · rw [(nodup_nonces_encryptEach (by decide) hcalls).2 hok]
    decide

end Behh
