import Behh.Library.Program
import Behh.Utility.Base64Standard

/-!
# Base64 through OpenSSL

`base64encode_openssl` of `src/utility.cc`, lines 183–202, over the BIO calls of OpenSSL, and how
its text differs from the one of the hand-written `base64encode`.

The calls are functions on a state `W` of the library (`Bio W`). What OpenSSL documents about them
is said of the BIO objects that a state holds (`Bio.Documented`): a base64 filter with the flag
`BIO_FLAGS_BASE64_NO_NL` that was pushed on a memory BIO, written to and flushed leaves the padded
encoding of the written bytes in the memory BIO.

## Main definitions

* `Bio`, `Bio.Documented`: the calls, and their documented behaviour.
* `base64encodeOpenssl`: the function.
* `Bio.heap`: an implementation with the documented behaviour.

## Main results

* `base64encodeOpenssl_eq`: the function returns the padded encoding.
* `encodeGroups_eq_rfcEncode_iff`: the inputs on which the hand-written encoder does.
* `base64encodeOpenssl_agrees_iff`: the inputs on which the two functions agree.
-/

namespace Behh

open Prog

/-! ### The BIO calls -/

/-- `BIO_f_base64()` and `BIO_s_mem()`. -/
inductive BioMethod where
  | base64
  | mem
  deriving DecidableEq

/-- A pointer to a `BIO`. -/
abbrev BioPtr : Type := ℕ

/-- `BIO_FLAGS_BASE64_NO_NL`. -/
def bioFlagsBase64NoNl : ℕ := 0x100

/-- The BIO calls of `base64encode_openssl` on a state `W` of the library. -/
structure Bio (W : Type) where
  /-- `BIO_new`. -/
  new : BioMethod → W → BioPtr × W
  /-- `BIO_set_flags`. -/
  setFlags : BioPtr → ℕ → W → Unit × W
  /-- `BIO_push`. -/
  push : BioPtr → BioPtr → W → BioPtr × W
  /-- `BIO_write`: the object that the data pointer points into, and the length given. -/
  write : BioPtr → Bytes → ℤ → W → ℤ × W
  /-- `BIO_flush`. -/
  flush : BioPtr → W → ℤ × W
  /-- `BIO_get_mem_ptr`: the bytes of the `BUF_MEM`. -/
  getMemPtr : BioPtr → W → Bytes × W
  /-- `BIO_free_all`. -/
  freeAll : BioPtr → W → Unit × W

/-- `base64encode_openssl`. -/
def base64encodeOpenssl {W : Type} (bio : Bio W) (input : Bytes) : Prog W Bytes := do
  let b64 ← call (bio.new .base64)
  call (bio.setFlags b64 bioFlagsBase64NoNl)
  let mem ← call (bio.new .mem)
  let chain ← call (bio.push b64 mem)
  let _ ← call (bio.write chain (cStr input) (toInt input.length))
  let _ ← call (bio.flush chain)
  let result ← call (bio.getMemPtr chain)
  call (bio.freeAll chain)
  return result

/-- What a BIO object is, as far as encoding goes. -/
inductive BioState where
  /-- A base64 filter with its flags. -/
  | filter (flags : ℕ)
  /-- An empty memory BIO. -/
  | mem
  /-- A base64 filter on top of a memory BIO, and the bytes written to it. -/
  | chain (flags : ℕ) (input : Bytes)
  /-- The same after a flush. -/
  | flushed (flags : ℕ) (input : Bytes)
  deriving DecidableEq

/-- The documented behaviour of the calls, where `holds w b st` says that in the state `w` the
pointer `b` is a BIO in the state `st`. -/
structure Bio.Documented {W : Type} (bio : Bio W) (holds : W → BioPtr → BioState → Prop) :
    Prop where
  new_base64 : ∀ w, holds (bio.new .base64 w).2 (bio.new .base64 w).1 (.filter 0)
  new_mem : ∀ w, holds (bio.new .mem w).2 (bio.new .mem w).1 .mem
  new_frame : ∀ m w b st, holds w b st → holds (bio.new m w).2 b st
  set_flags : ∀ w b f g, holds w b (.filter f) →
    holds (bio.setFlags b g w).2 b (.filter (f ||| g))
  push : ∀ w b m f, holds w b (.filter f) → holds w m .mem →
    holds (bio.push b m w).2 (bio.push b m w).1 (.chain f [])
  write : ∀ w b f s (buf : Bytes) (n : ℕ), n ≤ buf.length → holds w b (.chain f s) →
    holds (bio.write b buf n w).2 b (.chain f (s ++ buf.take n))
  flush : ∀ w b f s, holds w b (.chain f s) → holds (bio.flush b w).2 b (.flushed f s)
  get_mem_ptr : ∀ w b s, holds w b (.flushed bioFlagsBase64NoNl s) →
    (bio.getMemPtr b w).1 = rfcEncode s

/-- **The text of `base64encode_openssl`.** -/
theorem base64encodeOpenssl_eq {W : Type} {bio : Bio W} {holds : W → BioPtr → BioState → Prop}
    (h : bio.Documented holds) {input : Bytes} (hlen : input.length < 2 ^ 31) (w : W) :
    ∃ w', base64encodeOpenssl bio input w = some (rfcEncode input, w') := by
  have h₁ := h.new_base64 w
  have h₂ := h.set_flags _ _ _ bioFlagsBase64NoNl h₁
  rw [Nat.zero_or] at h₂
  have h₃ := h.new_frame .mem _ _ _ h₂
  have h₄ := h.push _ _ _ _ h₃ (h.new_mem _)
  have hle : input.length ≤ (cStr input).length := by simp [cStr]
  have h₅ := h.write _ _ _ _ (cStr input) input.length hle h₄
  have htake : (cStr input).take input.length = input := List.take_left
  rw [htake, List.nil_append, ← toInt_of_lt hlen] at h₅
  have h₆ := h.get_mem_ptr _ _ _ (h.flush _ _ _ _ h₅)
  exact ⟨_, by rw [← h₆]; rfl⟩

/-! ### The hand-written encoder against the standard -/

/-- The hand-written encoder is right about a last group of two octets. -/
theorem encodeGroups_eq_rfcEncode : (s : Bytes) → s.length % 3 = 2 → encodeGroups s = rfcEncode s
  | [a, b], _ => by rw [encodeGroups, rfcEncode_pair, lastChars]
  | [a, b, c], h => by simp at h
  | a :: b :: c :: d :: rest, h => by
    have hlen : (d :: rest).length % 3 = 2 := by
      simp only [List.length_cons] at h ⊢
      omega
    rw [encodeGroups, rfcEncode_cons_cons_cons, encodeGroups_eq_rfcEncode (d :: rest) hlen]

/-- Elsewhere it is wrong, since decoding its text does not give the input back. -/
theorem encodeGroups_eq_rfcEncode_iff (s : Bytes) :
    encodeGroups s = rfcEncode s ↔ s = [] ∨ s.length % 3 = 2 := by
  constructor
  · intro h
    have hself : roundTrip s = s := by
      rw [← decodeLoop_encodeGroups, h, decodeLoop_rfcEncode]
    rcases eq_or_ne s [] with rfl | hs
    · exact Or.inl rfl
    · have hlen := length_roundTrip s hs
      rw [hself] at hlen
      omega
  · rintro (rfl | h)
    · rw [encodeGroups, rfcEncode_nil]
    · exact encodeGroups_eq_rfcEncode s h

/-- **The two encoders.** They agree exactly on the empty string and on the lengths that are 2
modulo 3. -/
theorem base64encodeOpenssl_agrees_iff {W : Type} {bio : Bio W}
    {holds : W → BioPtr → BioState → Prop} (h : bio.Documented holds) (s : Bytes)
    (hlen : s.length < 2 ^ 31) (w : W) :
    (∃ w', base64encodeOpenssl bio s w = some (base64encode s, w')) ↔
      s = [] ∨ s.length % 3 = 2 := by
  obtain ⟨w', hw'⟩ := base64encodeOpenssl_eq h hlen w
  rw [hw', base64encode_eq_encodeGroups, ← encodeGroups_eq_rfcEncode_iff]
  constructor
  · rintro ⟨w'', heq⟩
    exact (Prod.mk.inj (Option.some.inj heq)).1.symm
  · intro heq
    exact ⟨w', by rw [heq]⟩

/-! ### An implementation of the calls -/

namespace Bio

/-- What `BIO_new` makes. -/
def created : BioMethod → BioState
  | .base64 => .filter 0
  | .mem => .mem

/-- The calls on a list of BIO objects, with positions as pointers. -/
def heap : Bio (List BioState) where
  new m w := (w.length, w ++ [created m])
  setFlags b g w := ((), w.modify b fun
    | .filter f => .filter (f ||| g)
    | st => st)
  push b _ w := (b, w.modify b fun
    | .filter f => .chain f []
    | st => st)
  write b buf n w := (n, w.modify b fun
    | .chain f s => .chain f (s ++ buf.take n.toNat)
    | st => st)
  flush b w := (1, w.modify b fun
    | .chain f s => .flushed f s
    | st => st)
  getMemPtr b w :=
    match w[b]? with
    | some (.flushed _ s) => (rfcEncode s, w)
    | _ => ([], w)
  freeAll _ w := ((), w)

theorem documented_heap : heap.Documented fun w b st => w[b]? = some st where
  new_base64 w := by simp [heap, created]
  new_mem w := by simp [heap, created]
  new_frame m w b st h := by
    have hb := (List.getElem?_eq_some_iff.1 h).1
    rw [← h]
    exact List.getElem?_append_left hb
  set_flags w b f g h := by simp [heap, h]
  push w b m f h _ := by simp [heap, h]
  write w b f s buf n _ h := by simp [heap, h]
  flush w b f s h := by simp [heap, h]
  get_mem_ptr w b s h := by simp [heap, h]

end Bio

theorem base64encodeOpenssl_agrees_ab :
    (∃ w', base64encodeOpenssl Bio.heap (str "ab") [] = some (base64encode (str "ab"), w')) ↔
      str "ab" = [] ∨ (str "ab").length % 3 = 2 :=
  base64encodeOpenssl_agrees_iff Bio.documented_heap (str "ab") (by decide) []

/-- On a single octet OpenSSL writes two `=` and the hand-written encoder one. -/
theorem base64encodeOpenssl_ne_base64encode :
    Bio.heap.Documented (fun w b st => w[b]? = some st) ∧
      ¬ ∃ w', base64encodeOpenssl Bio.heap (str "a") [] = some (base64encode (str "a"), w') := by
  refine ⟨Bio.documented_heap, ?_⟩
  rintro ⟨w', h⟩
  obtain ⟨w'', h'⟩ := base64encodeOpenssl_eq Bio.documented_heap (w := [])
    (show (str "a").length < 2 ^ 31 by decide)
  rw [h'] at h
  have htext : rfcEncode (str "a") = base64encode (str "a") := (Prod.mk.inj (Option.some.inj h)).1
  rw [base64encode_eq_encodeGroups, show str "a" = [0x61] from rfl, rfcEncode_singleton] at htext
  revert htext
  decide

end Behh
