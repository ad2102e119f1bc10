import Behh.Cryptography.CallTrace
import Behh.Openssl.Reference

/-!
# The string functions against the buffer functions

A string function and the buffer function of the same direction and mode run the same session.
They differ in the pointers they give to it, in the sizes of their vectors and in their endings.
When EVP sees the same key and IV behind the pointers and writes no more than it documents, the
vectors are long enough on both sides, and the two sessions come to the same bytes or fail both.

## Main definitions

* `Evp.WriteBounds`: EVP writes no more than it documents.
* `Evp.SameMaterial`: two pairs of pointers lead to the same key and IV.
* `SameEnd`: two sessions come to the same bytes, or fail both.
* `EncryptionsAgree`, `DecryptionsAgree`: what is to be shown.

## Main results

* `sameEnd_plain`, `sameEnd_seal`, `sameEnd_open`: the sessions.
* `stringCiphers_agree`: the functions.
-/

namespace Behh

variable {W : Type}

/-! ### What EVP documents -/

/-- By how many bytes update and finish together may write more than they were given. -/
def writeRoom : Dir → Alg → ℕ
  | .encrypt, .aes256Cbc => 16
  | _, _ => 0

/-- The documented bounds on what is written: for `n` bytes at most `n + 16` by a CBC encryption,
and at most `n` by a decryption and by GCM, whose tag is read separately. -/
structure Evp.WriteBounds (evp : Evp W) : Prop where
  first_le : ∀ dir alg key iv data w, ∀ s : Session evp dir alg key iv data w,
    s.first.length ≤ data.length + writeRoom dir alg
  plain_le : ∀ dir alg key iv data w, ∀ r : PlainRun evp dir alg key iv data w,
    (r.first ++ r.last).length ≤ data.length + writeRoom dir alg
  open_le : ∀ key iv data tag w, tag.length = 16 → ∀ r : GcmOpenRun evp key iv data tag w,
    (r.first ++ r.last).length ≤ data.length

/-- EVP sees the same key and the same IV behind two pairs of pointers. -/
def Evp.SameMaterial (evp : Evp W) (alg : Alg) (key iv key' iv' : Bytes) : Prop :=
  ∀ dir ctx w, evp.init dir ctx alg key iv w = evp.init dir ctx alg key' iv' w

variable {evp : Evp W} {dir : Dir} {alg : Alg} {key iv key' iv' src src' data tag : Bytes}
  {inl : ℤ} {size size' : ℕ} {w : W}

theorem Evp.SameMaterial.symm (h : evp.SameMaterial alg key iv key' iv') :
    evp.SameMaterial alg key' iv' key iv := fun dir ctx w => (h dir ctx w).symm

/-- The same session with the other pointers. -/
def Session.rekey (h : evp.SameMaterial alg key iv key' iv')
    (s : Session evp dir alg key iv data w) : Session evp dir alg key' iv' data w :=
  { s with init_eq := (h dir s.ctx s.w₁).symm.trans s.init_eq }

def PlainRun.rekey (h : evp.SameMaterial alg key iv key' iv')
    (r : PlainRun evp dir alg key iv data w) : PlainRun evp dir alg key' iv' data w :=
  { r with toSession := r.toSession.rekey h }

def GcmSealRun.rekey (h : evp.SameMaterial .aes256Gcm key iv key' iv')
    (r : GcmSealRun evp key iv data w) : GcmSealRun evp key' iv' data w :=
  { r with toPlainRun := r.toPlainRun.rekey h }

def GcmOpenRun.rekey (h : evp.SameMaterial .aes256Gcm key iv key' iv')
    (r : GcmOpenRun evp key iv data tag w) : GcmOpenRun evp key' iv' data tag w :=
  { r with toSession := r.toSession.rekey h }

/-- An implementation on top of authentic sealings with the lengths of AES keeps the bounds. -/
theorem Evp.writeBounds_ofSealing {S : Alg → Bytes → Bytes → Sealing UInt8}
    (hlen : ∀ alg key iv m, ((S alg key iv).enc m).length = alg.sealedLength m.length)
    (hauth : ∀ alg key iv, (S alg key iv).Authentic) : (Evp.ofSealing S).WriteBounds where
  first_le dir alg key iv data w s := by
    obtain ⟨ctx, w₁, w₂, w₃, first, hnew, hinit, hupdate⟩ := s
    obtain rfl : [] = first := Option.some_inj.1 (Prod.mk.inj hupdate).1
    exact Nat.zero_le _
  plain_le dir alg key iv data w r := by
    obtain ⟨⟨ctx, w₁, w₂, w₃, first, hnew, hinit, hupdate⟩, w₄, last, hfinal⟩ := r
    obtain ⟨-, rfl⟩ := Prod.mk.inj hinit
    obtain ⟨hfirst, rfl⟩ := Prod.mk.inj hupdate
    obtain rfl := Option.some_inj.1 hfirst
    cases dir with
    | encrypt =>
      cases alg with
      | aes256Cbc =>
        obtain rfl := Option.some_inj.1 (Prod.mk.inj hfinal).1
        have hle := Alg.aes256Cbc.sealedLength_le data.length
        simpa [writeRoom, hlen] using hle
      | aes256Gcm =>
        obtain rfl := Option.some_inj.1 (Prod.mk.inj hfinal).1
        simp [writeRoom]
    | decrypt =>
      have henc := hauth _ _ _ _ _ (Prod.mk.inj hfinal).1
      have hlast := congrArg List.length henc
      have hlt := alg.lt_sealedLength last.length
      simp only [hlen, List.nil_append, List.append_nil] at hlast ⊢
      omega
  open_le key iv data tag w htag r := by
    have hdec := Evp.dec_of_gcmOpenRun r
    have hlast := congrArg List.length (hauth _ _ _ _ _ hdec)
    rw [hlen, Alg.sealedLength, @List.length_append _ data tag, htag] at hlast
    omega

/-! ### The sessions -/

/-- Two sessions from one state are both done, with the same bytes, or neither is. -/
def SameEnd (x y : Prog W SessionEnd) (w : W) : Prop :=
  (∃ b ctx size w₁ ctx' size' w₂, x w = some (.done ctx (written size b) b.length, w₁) ∧
    y w = some (.done ctx' (written size' b) b.length, w₂)) ∨
  ∃ e w₁ e' w₂, x w = some (e, w₁) ∧ y w = some (e', w₂) ∧
    (∀ ctx v total, e ≠ .done ctx v total) ∧ ∀ ctx v total, e' ≠ .done ctx v total

theorem sameEnd_plain (hbounds : evp.WriteBounds) (hsame : evp.SameMaterial alg key iv key' iv')
    (hsrc : src.take inl.toNat = src'.take inl.toNat)
    (hsize : (src.take inl.toNat).length + writeRoom dir alg ≤ size)
    (hsize' : (src.take inl.toNat).length + writeRoom dir alg ≤ size')
    (hint : (src.take inl.toNat).length + writeRoom dir alg < 2 ^ 31) :
    SameEnd (plainSession evp dir alg key iv src inl size)
      (plainSession evp dir alg key' iv' src' inl size') w := by
  by_cases hrun : 0 ≤ inl ∧ Nonempty (PlainRun evp dir alg key iv (src.take inl.toNat) w)
  · obtain ⟨hinl, ⟨r⟩⟩ := hrun
    have hle := hbounds.plain_le _ _ _ _ _ _ r
    exact Or.inl ⟨_, _, _, _, _, _, _,
      plainSession_of_run r rfl hinl (hle.trans hsize) (hle.trans_lt hint),
      plainSession_of_run (r.rekey hsame) hsrc.symm hinl (hle.trans hsize') (hle.trans_lt hint)⟩
  · obtain ⟨e, w₁, he, hne⟩ := plainSession_of_no_run (fun hinl r => hrun ⟨hinl, ⟨r⟩⟩)
      fun _ s => (hbounds.first_le _ _ _ _ _ _ s).trans hsize
    obtain ⟨e', w₂, he', hne'⟩ := plainSession_of_no_run
      (fun hinl r => hrun ⟨hinl, ⟨PlainRun.rekey hsame.symm (hsrc ▸ r)⟩⟩)
      fun _ s => (hbounds.first_le _ _ _ _ _ _ s).trans (hsrc ▸ hsize')
    exact Or.inr ⟨e, w₁, e', w₂, he, he', hne, hne'⟩

theorem sameEnd_seal (hbounds : evp.WriteBounds)
    (hsame : evp.SameMaterial .aes256Gcm key iv key' iv')
    (hsrc : src.take inl.toNat = src'.take inl.toNat)
    (hsize : (src.take inl.toNat).length + 16 ≤ size)
    (hsize' : (src.take inl.toNat).length + 16 ≤ size')
    (hint : (src.take inl.toNat).length + 16 < 2 ^ 31) :
    SameEnd (gcmSealSession evp key iv src inl size)
      (gcmSealSession evp key' iv' src' inl size') w := by
  have hroom : writeRoom .encrypt .aes256Gcm = 0 := rfl
  by_cases hrun : 0 ≤ inl ∧ Nonempty (GcmSealRun evp key iv (src.take inl.toNat) w)
  · obtain ⟨hinl, ⟨r⟩⟩ := hrun
    have hle : (r.first ++ r.last ++ r.tag.1).length ≤ (src.take inl.toNat).length + 16 := by
      have hplain := hbounds.plain_le _ _ _ _ _ _ r.toPlainRun
      rw [List.length_append, r.tag.2]
      omega
    exact Or.inl ⟨_, _, _, _, _, _, _,
      gcmSealSession_of_run r rfl hinl (hle.trans hsize) (hle.trans_lt hint),
      gcmSealSession_of_run (r.rekey hsame) hsrc.symm hinl (hle.trans hsize') (hle.trans_lt hint)⟩
  · obtain ⟨e, w₁, he, hne⟩ := gcmSealSession_of_no_run (fun hinl r => hrun ⟨hinl, ⟨r⟩⟩)
      (fun _ s => (hbounds.first_le _ _ _ _ _ _ s).trans (show _ ≤ size by omega)) fun _ r => by
        have hle := hbounds.plain_le _ _ _ _ _ _ r
        exact ⟨by omega, by omega⟩
    rw [hsrc] at hsize hsize' hint
    obtain ⟨e', w₂, he', hne'⟩ := gcmSealSession_of_no_run
      (fun hinl r => hrun ⟨hinl, ⟨GcmSealRun.rekey hsame.symm (hsrc ▸ r)⟩⟩)
      (fun _ s => (hbounds.first_le _ _ _ _ _ _ s).trans (show _ ≤ size' by omega)) fun _ r => by
        have hle := hbounds.plain_le _ _ _ _ _ _ r
        exact ⟨by omega, by omega⟩
    exact Or.inr ⟨e, w₁, e', w₂, he, he', hne, hne'⟩

theorem sameEnd_open (hbounds : evp.WriteBounds)
    (hsame : evp.SameMaterial .aes256Gcm key iv key' iv')
    (hsrc : src.take inl.toNat = src'.take inl.toNat) (hinl : 0 ≤ inl) (htag : tag.length = 16)
    (hsize : (src.take inl.toNat).length ≤ size) (hsize' : (src.take inl.toNat).length ≤ size')
    (hint : (src.take inl.toNat).length < 2 ^ 31) :
    SameEnd (gcmOpenSession evp key iv src inl tag size)
      (gcmOpenSession evp key' iv' src' inl tag size') w := by
  have hroom : writeRoom .decrypt .aes256Gcm = 0 := rfl
  by_cases hrun : Nonempty (GcmOpenRun evp key iv (src.take inl.toNat) tag w)
  · obtain ⟨r⟩ := hrun
    have hle := hbounds.open_le _ _ _ _ _ htag r
    exact Or.inl ⟨_, _, _, _, _, _, _,
      gcmOpenSession_of_run r rfl hinl (hle.trans hsize) (hle.trans_lt hint),
      gcmOpenSession_of_run (r.rekey hsame) hsrc.symm hinl (hle.trans hsize') (hle.trans_lt hint)⟩
  · obtain ⟨e, w₁, he, hne⟩ := gcmOpenSession_of_no_run (fun r => hrun ⟨r⟩)
      fun s => (hbounds.first_le _ _ _ _ _ _ s).trans (show _ ≤ size by omega)
    obtain ⟨e', w₂, he', hne'⟩ := gcmOpenSession_of_no_run
      (fun r => hrun ⟨GcmOpenRun.rekey hsame.symm (hsrc ▸ r)⟩)
      fun s => (hbounds.first_le _ _ _ _ _ _ s).trans (show _ ≤ size' by rw [← hsrc]; omega)
    exact Or.inr ⟨e, w₁, e', w₂, he, he', hne, hne'⟩

/-! ### The functions -/

/-- A string function returns 1 exactly when the buffer function succeeds, and then its output is
the text of that buffer. -/
def Agree (text : Bytes → Bytes) (x : Prog W (ℤ × Bytes)) (y : Prog W (Option Bytes)) (w : W) :
    Prop :=
  ∃ code out w₁ o w₂, x w = some ((code, out), w₁) ∧ y w = some (o, w₂) ∧
    (code = 1 ↔ o.isSome) ∧ ∀ b, o = some b → out = text b

variable {x y : Prog W SessionEnd} {start : ℕ} {output : Bytes} {text : Bytes → Bytes}

/-- Sessions with the same end, with the two endings. -/
theorem SameEnd.agree (h : SameEnd x y w) :
    Agree text (x >>= SessionEnd.toCode evp start output text)
      (y >>= SessionEnd.toBuffer evp) w := by
  obtain ⟨b, ctx, size, w₁, ctx', size', w₂, hx, hy⟩ | ⟨e, w₁, e', w₂, hx, hy, he, he'⟩ := h
  · refine ⟨1, text b, _, some b, _, toCode_of_done hx, toBuffer_of_done hy, by simp, ?_⟩
    intro b' hb'
    rw [Option.some_inj.1 hb']
  · obtain ⟨code, out, v, hcode, hne⟩ := toCode_of_not_done hx he
    obtain ⟨v', hbuffer⟩ := toBuffer_of_not_done hy he'
    exact ⟨code, out, v, none, v', hcode, hbuffer, by simp [hne], by simp⟩

theorem agree_ite {c : Prop} [Decidable c] {x : Prog W (ℤ × Bytes)} {y : Prog W (Option Bytes)}
    {code : ℤ} (hcode : code ≠ 1) (h : ¬ c → Agree text x y w) :
    Agree text (if c then pure (code, output) else x) (if c then pure none else y) w := by
  by_cases hc : c
  · rw [if_pos hc, if_pos hc]
    exact ⟨code, output, w, none, w, rfl, rfl, by simp [hcode], by simp⟩
  · rw [if_neg hc, if_neg hc]
    exact h hc

/-- The encryptions agree on the message `m`, whatever the output parameter holds before. -/
def EncryptionsAgree (evp : Evp W) (alg : Alg) (iv ik ivBuffer ikBuffer m : Bytes) (w : W) : Prop :=
  ∀ output, Agree stringToCustomBase36Openssl (evp.stringCiphers .encrypt alg m output iv ik)
    (evp.ciphers .encrypt alg m ivBuffer ikBuffer) w

/-- The decryptions agree on the text `t`. -/
def DecryptionsAgree (evp : Evp W) (alg : Alg) (iv ik ivBuffer ikBuffer t : Bytes) (w : W) : Prop :=
  ∀ output, ∃ code out w₁ o w₂,
    evp.stringCiphers .decrypt alg t output iv ik w = some ((code, out), w₁) ∧
    evp.ciphers .decrypt alg (stringFromCustomBase36Openssl t) ivBuffer ikBuffer w =
      some (o, w₂) ∧ ∀ m, code = 1 ∧ out = m ↔ o = some m

variable {iv ik ivBuffer ikBuffer : Bytes}

/-- A part of the bytes is the same in the text made of them, and as long as it is to be. -/
theorem take_toInt_cStr {d : Bytes} {k : ℕ} (hk : k ≤ d.length) :
    (cStr d).take (toInt k).toNat = d.take (toInt k).toNat ∧
      ((cStr d).take (toInt k).toNat).length = (toInt k).toNat := by
  have hle := toInt_toNat_le k
  have htake : (cStr d).take (toInt k).toNat = d.take (toInt k).toNat := take_cStr (by omega)
  refine ⟨htake, ?_⟩
  rw [htake, List.length_take]
  omega

theorem encryptionsAgree (hbounds : evp.WriteBounds)
    (hsame : evp.SameMaterial alg (cStr ik) (cStr iv) ikBuffer ivBuffer) (m : Bytes)
    (hm : m.length < 2 ^ 31 - 16) (w : W) :
    EncryptionsAgree evp alg iv ik ivBuffer ikBuffer m w := by
  intro output
  obtain ⟨hsrc, hlen⟩ := take_toInt_cStr (Nat.le_refl m.length)
  have hle := toInt_toNat_le m.length
  cases alg with
  | aes256Cbc =>
    rw [Evp.stringCiphers, Evp.ciphers, aesCbcEncryptOpenssl_eq, aesCbcEncryptToBufferOpenssl_eq]
    have hroom : writeRoom .encrypt .aes256Cbc = 16 := rfl
    exact (sameEnd_plain hbounds hsame hsrc (by omega) (by omega) (by omega)).agree
  | aes256Gcm =>
    rw [Evp.stringCiphers, Evp.ciphers, aesGcmEncryptOpenssl_eq, aesGcmEncryptToBufferOpenssl_eq]
    exact (sameEnd_seal hbounds hsame hsrc (by omega) (by omega) (by omega)).agree

/-- The decryptions come to the same bytes, or fail both. -/
theorem agree_decrypt (hbounds : evp.WriteBounds)
    (hsame : evp.SameMaterial alg (cStr ik) (cStr iv) ikBuffer ivBuffer) (t output : Bytes)
    (w : W) : Agree id (evp.stringCiphers .decrypt alg t output iv ik)
      (evp.ciphers .decrypt alg (stringFromCustomBase36Openssl t) ivBuffer ikBuffer) w := by
  cases alg with
  | aes256Cbc =>
    rw [Evp.stringCiphers, Evp.ciphers, aesCbcDecryptOpenssl_eq, aesCbcDecryptToBufferOpenssl_eq]
    generalize stringFromCustomBase36Openssl t = d
    obtain ⟨hsrc, hlen⟩ := take_toInt_cStr (Nat.le_refl d.length)
    have hle := toInt_toNat_le d.length
    have hlt := toInt_lt d.length
    have hroom : writeRoom .decrypt .aes256Cbc = 0 := rfl
    exact (sameEnd_plain hbounds hsame hsrc (by omega) (by omega) (by omega)).agree
  | aes256Gcm =>
    rw [Evp.stringCiphers, Evp.ciphers, aesGcmDecryptOpenssl_eq, aesGcmDecryptToBufferOpenssl_eq]
    generalize stringFromCustomBase36Openssl t = d
    refine agree_ite (by decide) fun hshort => ?_
    have hinl : 0 ≤ toInt (d.length - 16) := by
      rw [toInt] at hshort ⊢
      omega
    have htag : (d.drop (d.length - 16)).length = 16 := by
      rw [toInt] at hshort
      rw [List.length_drop]
      omega
    obtain ⟨hsrc, hlen⟩ := take_toInt_cStr (Nat.sub_le d.length 16)
    have hle := toInt_toNat_le (d.length - 16)
    have hlt := toInt_lt (d.length - 16)
    exact (sameEnd_open hbounds hsame hsrc hinl htag (by omega) (by omega) (by omega)).agree

theorem decryptionsAgree (hbounds : evp.WriteBounds)
    (hsame : evp.SameMaterial alg (cStr ik) (cStr iv) ikBuffer ivBuffer) (t : Bytes) (w : W) :
    DecryptionsAgree evp alg iv ik ivBuffer ikBuffer t w := by
  intro output
  obtain ⟨code, out, w₁, o, w₂, hstring, hbuffer, hcode, hout⟩ :=
    agree_decrypt hbounds hsame t output w
  refine ⟨code, out, w₁, o, w₂, hstring, hbuffer, fun m => ?_⟩
  constructor
  · rintro ⟨h1, rfl⟩
    obtain ⟨b, rfl⟩ := Option.isSome_iff_exists.1 (hcode.1 h1)
    rw [hout b rfl, id]
  · rintro rfl
    exact ⟨hcode.2 rfl, hout m rfl⟩

/-- **String and buffer ciphers agree**, in both modes and whatever the EVP calls come to. -/
theorem stringCiphers_agree (hbounds : evp.WriteBounds) (alg : Alg)
    (hsame : evp.SameMaterial alg (cStr ik) (cStr iv) ikBuffer ivBuffer) (w : W) :
    (∀ m, m.length < 2 ^ 31 - 16 → EncryptionsAgree evp alg iv ik ivBuffer ikBuffer m w) ∧
      ∀ t, DecryptionsAgree evp alg iv ik ivBuffer ikBuffer t w :=
  ⟨fun m hm => encryptionsAgree hbounds hsame m hm w,
    fun t => decryptionsAgree hbounds hsame t w⟩

theorem stringCiphers_agree_marked :
    (∀ m, m.length < 2 ^ 31 - 16 →
      EncryptionsAgree (Evp.ofSealing (markedSealing 0)) .aes256Gcm (str "iv") (str "ik")
        (cStr (str "iv")) (cStr (str "ik")) m ⟨.aes256Cbc, [], [], [], []⟩) ∧
      ∀ t, DecryptionsAgree (Evp.ofSealing (markedSealing 0)) .aes256Gcm (str "iv") (str "ik")
        (cStr (str "iv")) (cStr (str "ik")) t ⟨.aes256Cbc, [], [], [], []⟩ :=
  stringCiphers_agree
    (Evp.writeBounds_ofSealing (length_enc_markedSealing 0) (authentic_markedSealing 0)) .aes256Gcm
    (fun _ _ _ => rfl) ⟨.aes256Cbc, [], [], [], []⟩

end Behh
