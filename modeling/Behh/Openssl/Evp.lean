import Behh.Library.Sealing
import Behh.Std.Bytes

/-!
# The OpenSSL cipher interface

The EVP functions that `src/cryptography.cc` calls, as functions on a state `W` of the library
that the model leaves open (`Evp W`). Each call can succeed or fail. The functions of the
repository are modelled over an arbitrary `Evp W`; what a result assumes of OpenSSL is a
hypothesis on it.

A session is what the repository does with a context: create it, initialise it, update it once
with all the data, finish it, and move the authentication tag in GCM mode. `PlainRun`,
`GcmSealRun` and `GcmOpenRun` record the sessions in which every call succeeds. `Evp.Inverts`
says that encrypting sessions can be undone by decrypting ones, `Evp.TagIdeal` that the tag check
accepts only what an encrypting session makes.

EVP reads 32 bytes through the key pointer and 16 or 12 through the IV pointer. The calls take
the whole object that a pointer points into, and the hypotheses speak of objects that are long
enough; what an `Evp W` does with shorter ones is left open.

## Main definitions

* `Alg`: AES-256 in CBC and in GCM mode.
* `Evp`: the calls.
* `PlainRun`, `GcmSealRun`, `GcmOpenRun`: completed sessions.
* `Evp.Inverts`, `Evp.TagIdeal`: assumptions on OpenSSL.
* `Evp.traced`: the same calls with a record of them in the state.
* `Evp.ofSealing`: an implementation, from a sealing for each key and nonce.

## Main results

* `Evp.InvertsAt.traced`: a record of the calls does not disturb the assumptions.
* `Evp.inverts_ofSealing`, `Evp.tagIdeal_ofSealing`: the implementation satisfies them.
-/

namespace Behh

/-- `AES_BLOCK_SIZE`, also the length of a GCM tag here. -/
abbrev aesBlockSize : ℕ := 16

/-- `EVP_aes_256_cbc()` and `EVP_aes_256_gcm()`. -/
inductive Alg where
  | aes256Cbc
  | aes256Gcm
  deriving DecidableEq

namespace Alg

/-- The number of bytes read through the key pointer. -/
def keyLength : Alg → ℕ
  | aes256Cbc => 32
  | aes256Gcm => 32

/-- The number of bytes read through the IV pointer; for GCM it is the default, which the
repository does not change. -/
def ivLength : Alg → ℕ
  | aes256Cbc => 16
  | aes256Gcm => 12

/-- The length of what encryption makes of `n` bytes: whole blocks with at least one byte of
padding for CBC, the same length and a tag for GCM. -/
def sealedLength : Alg → ℕ → ℕ
  | aes256Cbc, n => 16 * (n / 16) + 16
  | aes256Gcm, n => n + 16

theorem lt_sealedLength (alg : Alg) (n : ℕ) : n < alg.sealedLength n := by
  cases alg <;> simp only [sealedLength] <;> omega

theorem sealedLength_le (alg : Alg) (n : ℕ) : alg.sealedLength n ≤ n + 16 := by
  cases alg <;> simp only [sealedLength] <;> omega

theorem sealedLength_mono (alg : Alg) {a b : ℕ} (h : a ≤ b) :
    alg.sealedLength a ≤ alg.sealedLength b := by
  cases alg with
  | aes256Cbc =>
    have hdiv := Nat.div_le_div_right h (c := 16)
    simp only [sealedLength]
    omega
  | aes256Gcm => exact Nat.add_le_add_right h 16

end Alg

/-- Encrypting or decrypting. -/
inductive Dir where
  | encrypt
  | decrypt
  deriving DecidableEq

/-- A pointer to an `EVP_CIPHER_CTX`. -/
abbrev Ctx : Type := ℕ

/-- An authentication tag. -/
abbrev Tag : Type := { t : Bytes // t.length = 16 }

/-- The calls of the EVP interface on a state `W` of the library. -/
structure Evp (W : Type) where
  /-- `EVP_CIPHER_CTX_new`. -/
  ctxNew : W → Option Ctx × W
  /-- `EVP_CIPHER_CTX_free`. -/
  ctxFree : Ctx → W → Unit × W
  /-- `EVP_EncryptInit_ex` and `EVP_DecryptInit_ex`, with the objects that the key pointer and
  the IV pointer point into. -/
  init : Dir → Ctx → Alg → Bytes → Bytes → W → Bool × W
  /-- `EVP_EncryptUpdate` and `EVP_DecryptUpdate`: the bytes given and the bytes written. -/
  update : Dir → Ctx → Bytes → W → Option Bytes × W
  /-- `EVP_EncryptFinal_ex` and `EVP_DecryptFinal_ex`: the bytes written. -/
  final : Dir → Ctx → W → Option Bytes × W
  /-- `EVP_CIPHER_CTX_ctrl` with `EVP_CTRL_GCM_GET_TAG`. -/
  getTag : Ctx → W → Option Tag × W
  /-- `EVP_CIPHER_CTX_ctrl` with `EVP_CTRL_GCM_SET_TAG`. -/
  setTag : Ctx → Bytes → W → Bool × W

variable {W : Type}

/-! ### Completed sessions -/

/-- A session up to its update, with the states of the library it goes through. -/
structure Session (evp : Evp W) (dir : Dir) (alg : Alg) (key iv data : Bytes) (w : W) where
  /-- The context. -/
  ctx : Ctx
  /-- The state after the context was created. -/
  w₁ : W
  /-- The state after initialisation. -/
  w₂ : W
  /-- The state after the update. -/
  w₃ : W
  /-- What the update wrote. -/
  first : Bytes
  ctxNew_eq : evp.ctxNew w = (some ctx, w₁)
  init_eq : evp.init dir ctx alg key iv w₁ = (true, w₂)
  update_eq : evp.update dir ctx data w₂ = (some first, w₃)

/-- A session that is finished right after its update: a CBC session, or a GCM encryption before
it asks for the tag. -/
structure PlainRun (evp : Evp W) (dir : Dir) (alg : Alg) (key iv data : Bytes) (w : W) extends
    Session evp dir alg key iv data w where
  /-- The state after the session was finished. -/
  w₄ : W
  /-- What finishing wrote. -/
  last : Bytes
  final_eq : evp.final dir ctx w₃ = (some last, w₄)

/-- A GCM encryption with its tag. -/
structure GcmSealRun (evp : Evp W) (key iv data : Bytes) (w : W) extends
    PlainRun evp .encrypt .aes256Gcm key iv data w where
  /-- The state after the tag was read. -/
  w₅ : W
  /-- The tag. -/
  tag : Tag
  getTag_eq : evp.getTag ctx w₄ = (some tag, w₅)

/-- A GCM decryption, with the tag set between update and finish. -/
structure GcmOpenRun (evp : Evp W) (key iv data tag : Bytes) (w : W) extends
    Session evp .decrypt .aes256Gcm key iv data w where
  /-- The state after the tag was set. -/
  w₄ : W
  /-- The state after the session was finished. -/
  w₅ : W
  /-- What finishing wrote. -/
  last : Bytes
  setTag_eq : evp.setTag ctx tag w₃ = (true, w₄)
  final_eq : evp.final .decrypt ctx w₄ = (some last, w₅)

/-! The calls are functions of the state, so that there is one session at most from a state. -/

section Unique

variable {evp : Evp W} {dir : Dir} {alg : Alg} {key iv data tag : Bytes} {w : W}

instance : Subsingleton (Session evp dir alg key iv data w) where
  allEq := by
    rintro ⟨ctx, w₁, w₂, w₃, first, hnew, hinit, hupdate⟩
      ⟨ctx', w₁', w₂', w₃', first', hnew', hinit', hupdate'⟩
    obtain ⟨rfl, rfl⟩ : ctx = ctx' ∧ w₁ = w₁' := by simpa using hnew.symm.trans hnew'
    obtain rfl : w₂ = w₂' := by simpa using hinit.symm.trans hinit'
    obtain ⟨rfl, rfl⟩ : first = first' ∧ w₃ = w₃' := by simpa using hupdate.symm.trans hupdate'
    rfl

instance : Subsingleton (PlainRun evp dir alg key iv data w) where
  allEq := by
    rintro ⟨s, w₄, last, hfinal⟩ ⟨s', w₄', last', hfinal'⟩
    obtain rfl := Subsingleton.elim s s'
    obtain ⟨rfl, rfl⟩ : last = last' ∧ w₄ = w₄' := by simpa using hfinal.symm.trans hfinal'
    rfl

instance : Subsingleton (GcmSealRun evp key iv data w) where
  allEq := by
    rintro ⟨s, w₅, tag, htag⟩ ⟨s', w₅', tag', htag'⟩
    obtain rfl := Subsingleton.elim s s'
    obtain ⟨rfl, rfl⟩ : tag = tag' ∧ w₅ = w₅' := by simpa using htag.symm.trans htag'
    rfl

instance : Subsingleton (GcmOpenRun evp key iv data tag w) where
  allEq := by
    rintro ⟨s, w₄, w₅, last, hset, hfinal⟩ ⟨s', w₄', w₅', last', hset', hfinal'⟩
    obtain rfl := Subsingleton.elim s s'
    obtain rfl : w₄ = w₄' := by simpa using hset.symm.trans hset'
    obtain ⟨rfl, rfl⟩ : last = last' ∧ w₅ = w₅' := by simpa using hfinal.symm.trans hfinal'
    rfl

end Unique

/-! ### Assumptions on OpenSSL -/

/-- Under the key and the IV that these pointers lead to, CBC encryption makes `enc` of a message
and decryption undoes it. The lengths given to an update are `int` values. -/
structure Evp.CbcInverts (evp : Evp W) (key iv : Bytes) (enc : Bytes → Bytes) : Prop where
  length_enc : ∀ m, (enc m).length = Alg.aes256Cbc.sealedLength m.length
  seals : ∀ m w, m.length < 2 ^ 31 →
    ∃ r : PlainRun evp .encrypt .aes256Cbc key iv m w, r.first ++ r.last = enc m
  opens : ∀ m w, (enc m).length < 2 ^ 31 →
    ∃ r : PlainRun evp .decrypt .aes256Cbc key iv (enc m) w, r.first ++ r.last = m

/-- The same for GCM, with the tag in the last bytes of `enc m`. -/
structure Evp.GcmInverts (evp : Evp W) (key iv : Bytes) (enc : Bytes → Bytes) : Prop where
  length_enc : ∀ m, (enc m).length = Alg.aes256Gcm.sealedLength m.length
  seals : ∀ m w, m.length < 2 ^ 31 →
    ∃ r : GcmSealRun evp key iv m w, r.first ++ r.last ++ r.tag.1 = enc m
  opens : ∀ m c t w, c.length < 2 ^ 31 → t.length = 16 → c ++ t = enc m →
    ∃ r : GcmOpenRun evp key iv c t w, r.first ++ r.last = m

/-- Decryption inverts encryption under the same key bytes and the same IV bytes, whatever
follows these bytes in memory. -/
structure Evp.Inverts (evp : Evp W) (enc : Alg → Bytes → Bytes → Bytes → Bytes) : Prop where
  cbc : ∀ key iv, 32 ≤ key.length → 16 ≤ iv.length →
    evp.CbcInverts key iv (enc .aes256Cbc (key.take 32) (iv.take 16))
  gcm : ∀ key iv, 32 ≤ key.length → 12 ≤ iv.length →
    evp.GcmInverts key iv (enc .aes256Gcm (key.take 32) (iv.take 12))

/-- What is assumed of a cipher under one key pointer and one IV pointer. -/
def Evp.InvertsAt (evp : Evp W) (key iv : Bytes) (enc : Bytes → Bytes) : Alg → Prop
  | .aes256Cbc => evp.CbcInverts key iv enc
  | .aes256Gcm => evp.GcmInverts key iv enc

theorem Evp.Inverts.invertsAt {evp : Evp W} {enc : Alg → Bytes → Bytes → Bytes → Bytes}
    (h : evp.Inverts enc) {key iv : Bytes} (hiv : 16 ≤ iv.length) (hkey : 32 ≤ key.length) :
    (alg : Alg) → evp.InvertsAt key iv (enc alg (key.take 32) (iv.take alg.ivLength)) alg
  | .aes256Cbc => h.cbc key iv hkey hiv
  | .aes256Gcm => h.gcm key iv hkey (by omega)

theorem Evp.InvertsAt.length_enc {evp : Evp W} {key iv : Bytes} {enc : Bytes → Bytes} {alg : Alg}
    (h : evp.InvertsAt key iv enc alg) (m : Bytes) :
    (enc m).length = alg.sealedLength m.length := by
  cases alg with
  | aes256Cbc => exact Evp.CbcInverts.length_enc h m
  | aes256Gcm => exact Evp.GcmInverts.length_enc h m

/-- Ideal authentication: a GCM decryption completes only on bytes that encryption makes of some
message under the same key and IV. An update does not write more than it was given. -/
structure Evp.TagIdeal (evp : Evp W) (key iv : Bytes) (enc : Bytes → Bytes) : Prop where
  opens_only : ∀ c t w, t.length = 16 → GcmOpenRun evp key iv c t w →
    ∃ m, enc m = c ++ t
  first_le : ∀ c w, ∀ r : Session evp .decrypt .aes256Gcm key iv c w, r.first.length ≤ c.length

/-! ### Tracing -/

/-- What a call does that matters to key material and resources. -/
inductive EvpEvent where
  | created (ctx : Ctx)
  | freed (ctx : Ctx)
  | init (dir : Dir) (alg : Alg) (key iv : Bytes)
  | update (dir : Dir) (data : Bytes)
  deriving DecidableEq

/-- The same calls, with a record of them kept beside the state of the library. -/
def Evp.traced (evp : Evp W) : Evp (W × List EvpEvent) where
  ctxNew w :=
    match evp.ctxNew w.1 with
    | (some ctx, w') => (some ctx, w', w.2 ++ [.created ctx])
    | (none, w') => (none, w', w.2)
  ctxFree ctx w := ((), (evp.ctxFree ctx w.1).2, w.2 ++ [.freed ctx])
  init dir ctx alg key iv w :=
    let r := evp.init dir ctx alg key iv w.1
    (r.1, r.2, w.2 ++ [.init dir alg key iv])
  update dir ctx data w :=
    let r := evp.update dir ctx data w.1
    (r.1, r.2, w.2 ++ [.update dir data])
  final dir ctx w :=
    let r := evp.final dir ctx w.1
    (r.1, r.2, w.2)
  getTag ctx w :=
    let r := evp.getTag ctx w.1
    (r.1, r.2, w.2)
  setTag ctx tag w :=
    let r := evp.setTag ctx tag w.1
    (r.1, r.2, w.2)

/-- A session with its calls recorded. -/
def Session.traced {evp : Evp W} {dir : Dir} {alg : Alg} {key iv data : Bytes} {w : W}
    (s : Session evp dir alg key iv data w) (trace : List EvpEvent) :
    Session evp.traced dir alg key iv data (w, trace) where
  ctx := s.ctx
  w₁ := (s.w₁, trace ++ [.created s.ctx])
  w₂ := (s.w₂, trace ++ [.created s.ctx] ++ [.init dir alg key iv])
  w₃ := (s.w₃, trace ++ [.created s.ctx] ++ [.init dir alg key iv] ++ [.update dir data])
  first := s.first
  ctxNew_eq := by simp [Evp.traced, s.ctxNew_eq]
  init_eq := by simp [Evp.traced, s.init_eq]
  update_eq := by simp [Evp.traced, s.update_eq]

def PlainRun.traced {evp : Evp W} {dir : Dir} {alg : Alg} {key iv data : Bytes} {w : W}
    (r : PlainRun evp dir alg key iv data w) (trace : List EvpEvent) :
    PlainRun evp.traced dir alg key iv data (w, trace) where
  toSession := r.toSession.traced trace
  w₄ := (r.w₄, (r.toSession.traced trace).w₃.2)
  last := r.last
  final_eq := by simp [Evp.traced, Session.traced, r.final_eq]

def GcmSealRun.traced {evp : Evp W} {key iv data : Bytes} {w : W}
    (r : GcmSealRun evp key iv data w) (trace : List EvpEvent) :
    GcmSealRun evp.traced key iv data (w, trace) where
  toPlainRun := r.toPlainRun.traced trace
  w₅ := (r.w₅, (r.toPlainRun.traced trace).w₄.2)
  tag := r.tag
  getTag_eq := by simp [Evp.traced, PlainRun.traced, Session.traced, r.getTag_eq]

def GcmOpenRun.traced {evp : Evp W} {key iv data tag : Bytes} {w : W}
    (r : GcmOpenRun evp key iv data tag w) (trace : List EvpEvent) :
    GcmOpenRun evp.traced key iv data tag (w, trace) where
  toSession := r.toSession.traced trace
  w₄ := (r.w₄, (r.toSession.traced trace).w₃.2)
  w₅ := (r.w₅, (r.toSession.traced trace).w₃.2)
  last := r.last
  setTag_eq := by simp [Evp.traced, Session.traced, r.setTag_eq]
  final_eq := by simp [Evp.traced, Session.traced, r.final_eq]

/-- The assumptions say nothing of the state, and a record in it does not disturb them. -/
theorem Evp.InvertsAt.traced {evp : Evp W} {key iv : Bytes} {enc : Bytes → Bytes} {alg : Alg}
    (h : evp.InvertsAt key iv enc alg) : evp.traced.InvertsAt key iv enc alg := by
  cases alg with
  | aes256Cbc =>
    refine ⟨CbcInverts.length_enc h, fun m w hm => ?_, fun m w hm => ?_⟩
    · obtain ⟨r, hr⟩ := CbcInverts.seals h m w.1 hm
      exact ⟨r.traced w.2, hr⟩
    · obtain ⟨r, hr⟩ := CbcInverts.opens h m w.1 hm
      exact ⟨r.traced w.2, hr⟩
  | aes256Gcm =>
    refine ⟨GcmInverts.length_enc h, fun m w hm => ?_, fun m c t w hc ht hct => ?_⟩
    · obtain ⟨r, hr⟩ := GcmInverts.seals h m w.1 hm
      exact ⟨r.traced w.2, hr⟩
    · obtain ⟨r, hr⟩ := GcmInverts.opens h m c t w.1 hc ht hct
      exact ⟨r.traced w.2, hr⟩

/-! ### An implementation -/

/-- The state of the implementation: the one context it hands out. -/
structure Slot where
  /-- The cipher of the session. -/
  alg : Alg
  /-- The key bytes. -/
  key : Bytes
  /-- The nonce bytes. -/
  iv : Bytes
  /-- The data given so far. -/
  data : Bytes
  /-- The tag, computed or set. -/
  tag : Bytes

/-- An implementation on top of a sealing for each key and nonce. It writes nothing until a
session is finished. -/
def Evp.ofSealing (S : Alg → Bytes → Bytes → Sealing UInt8) : Evp Slot where
  ctxNew w := (some 0, w)
  ctxFree _ w := ((), w)
  init _ _ alg key iv _ := (true, ⟨alg, key.take alg.keyLength, iv.take alg.ivLength, [], []⟩)
  update _ _ data w := (some [], { w with data := w.data ++ data })
  final dir _ w :=
    match dir, w.alg with
    | .encrypt, .aes256Cbc => (some ((S w.alg w.key w.iv).enc w.data), w)
    | .encrypt, .aes256Gcm =>
      let c := (S w.alg w.key w.iv).enc w.data
      (some (c.take w.data.length), { w with tag := c.drop w.data.length })
    | .decrypt, _ => ((S w.alg w.key w.iv).dec (w.data ++ w.tag), w)
  getTag _ w := (if h : w.tag.length = 16 then some ⟨w.tag, h⟩ else none, w)
  setTag _ tag w := (true, { w with tag := tag })

variable {S : Alg → Bytes → Bytes → Sealing UInt8}

/-- The implementation inverts encryption, as its sealings do. -/
theorem Evp.invertsAt_ofSealing
    (hS : ∀ alg key iv m, ((S alg key iv).enc m).length = alg.sealedLength m.length)
    (key iv : Bytes) : (alg : Alg) →
      (Evp.ofSealing S).InvertsAt key iv (S alg (key.take 32) (iv.take alg.ivLength)).enc alg
  | .aes256Cbc =>
    { length_enc := hS _ _ _
      seals := fun m w _ => ⟨⟨⟨0, _, _, _, _, rfl, rfl, rfl⟩, _, _, rfl⟩, rfl⟩
      opens := fun m w _ =>
        ⟨⟨⟨0, _, _, _, _, rfl, rfl, rfl⟩, _, m,
          Prod.ext (by simp [ofSealing, Alg.keyLength, Alg.ivLength]) rfl⟩, rfl⟩ }
  | .aes256Gcm =>
    { length_enc := hS _ _ _
      seals := fun m w _ => by
        have hlen : (((S .aes256Gcm (key.take 32) (iv.take 12)).enc m).drop m.length).length =
            16 := by
          rw [List.length_drop, hS, Alg.sealedLength, Nat.add_sub_cancel_left]
        exact ⟨⟨⟨⟨0, _, _, _, _, rfl, rfl, rfl⟩, _, _, rfl⟩, _, ⟨_, hlen⟩,
          Prod.ext (dif_pos hlen) rfl⟩, List.take_append_drop m.length _⟩
      opens := fun m c t w _ _ hct =>
        ⟨⟨⟨0, _, _, _, _, rfl, rfl, rfl⟩, _, _, m, rfl,
          Prod.ext (by simp [ofSealing, Alg.keyLength, Alg.ivLength, hct]) rfl⟩, rfl⟩ }

theorem Evp.inverts_ofSealing
    (hS : ∀ alg key iv m, ((S alg key iv).enc m).length = alg.sealedLength m.length) :
    (Evp.ofSealing S).Inverts fun alg key iv => (S alg key iv).enc where
  cbc key iv _ _ := Evp.invertsAt_ofSealing hS key iv .aes256Cbc
  gcm key iv _ _ := Evp.invertsAt_ofSealing hS key iv .aes256Gcm

/-- A CBC decryption of the implementation opens what it was given. -/
theorem Evp.dec_of_plainRun {key iv c : Bytes} {w : Slot}
    (r : PlainRun (Evp.ofSealing S) .decrypt .aes256Cbc key iv c w) :
    (S .aes256Cbc (key.take 32) (iv.take 16)).dec c = some (r.first ++ r.last) := by
  obtain ⟨⟨ctx, w₁, w₂, w₃, first, hnew, hinit, hupdate⟩, w₄, last, hfinal⟩ := r
  obtain ⟨-, rfl⟩ := Prod.mk.inj hinit
  obtain ⟨hfirst, rfl⟩ := Prod.mk.inj hupdate
  obtain rfl := Option.some_inj.1 hfirst
  simpa [ofSealing, Alg.keyLength, Alg.ivLength] using (Prod.mk.inj hfinal).1

/-- A GCM decryption of the implementation opens what it was given, with the tag behind it. -/
theorem Evp.dec_of_gcmOpenRun {key iv c t : Bytes} {w : Slot}
    (r : GcmOpenRun (Evp.ofSealing S) key iv c t w) :
    (S .aes256Gcm (key.take 32) (iv.take 12)).dec (c ++ t) = some (r.first ++ r.last) := by
  obtain ⟨⟨ctx, w₁, w₂, w₃, first, hnew, hinit, hupdate⟩, w₄, w₅, last, hset, hfinal⟩ := r
  obtain ⟨-, rfl⟩ := Prod.mk.inj hinit
  obtain ⟨hfirst, rfl⟩ := Prod.mk.inj hupdate
  obtain rfl := Option.some_inj.1 hfirst
  obtain ⟨-, rfl⟩ := Prod.mk.inj hset
  simpa [ofSealing, Alg.keyLength, Alg.ivLength] using (Prod.mk.inj hfinal).1

/-- The implementation authenticates when its sealings do. -/
theorem Evp.tagIdeal_ofSealing (hS : ∀ alg key iv, (S alg key iv).Authentic) (key iv : Bytes) :
    (Evp.ofSealing S).TagIdeal key iv (S .aes256Gcm (key.take 32) (iv.take 12)).enc where
  opens_only c t w _ r := ⟨_, hS _ _ _ _ _ (Evp.dec_of_gcmOpenRun r)⟩
  first_le c w r := by
    have hfirst := (Prod.mk.inj r.update_eq).1
    rw [← Option.some_inj.1 hfirst]
    exact Nat.zero_le _

end Behh
