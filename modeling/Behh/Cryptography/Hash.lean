import Behh.Std.Bytes

/-!
# The digest functions

`bytes_to_hex_openssl` and the digest functions of the namespace `hash` in
`src/cryptography.cc`, lines 13–21 and 94–132.

A digest function fills a local array of its own length, prints it in hexadecimal, and calls
`SHA1` for it: all five do. What the array held before is a parameter of the model, because only
the first 20 bytes are written.

## Main definitions

* `bytesToHexOpenssl`: printing bytes.
* `Sha`: the digest functions of OpenSSL.
* `sha1Openssl`, …, `sha512Openssl`: the digest functions of the repository.
* `ComputesDigest`: a digest function returns the text of the digest it is named after.

## Main results

* `bytesToHexOpenssl_eq`: two digits for each byte.
* `computesDigest_iff`: only the SHA-1 function computes its digest.
-/

namespace Behh

/-! ### Printing bytes -/

/-- `bytes_to_hex_openssl`. -/
def bytesToHexOpenssl (data : Bytes) (length : ℕ) : Bytes :=
  ((data.take length).foldl
    (fun ss byte => (ss.setHex.setUppercase.setw 2 |>.setfill 0x30).putInt byte.toNat)
    ({} : OStream)).text

/-- The upper-case hexadecimal text of a byte string. -/
def upperHex (s : Bytes) : Bytes := s.flatMap (OStream.hexDigits true)

@[simp] theorem length_upperHex (s : Bytes) : (upperHex s).length = 2 * s.length := by
  induction s with
  | nil => rfl
  | cons b s ih =>
    rw [upperHex, List.flatMap_cons, List.length_append, List.length_cons]
    rw [upperHex] at ih
    rw [ih, OStream.hexDigits, List.length_cons, List.length_singleton]
    omega

theorem upperHex_injective : Function.Injective upperHex
  | [], [], _ => rfl
  | [], b :: s, h => by simpa using congrArg List.length h
  | b :: s, [], h => by simpa using congrArg List.length h
  | b :: s, b' :: s', h => by
    have happend : OStream.hexDigits true b ++ upperHex s =
      OStream.hexDigits true b' ++ upperHex s' := h
    obtain ⟨hb, hs⟩ := List.append_inj happend rfl
    rw [OStream.hexDigits_injective true hb, upperHex_injective hs]

/-- **Printing bytes.** The flags are set before every byte and the width is used up by it, so
that the text is the upper-case hexadecimal text of the first `length` bytes. -/
theorem bytesToHexOpenssl_eq (data : Bytes) (length : ℕ) :
    bytesToHexOpenssl data length = upperHex (data.take length) := by
  have hloop : ∀ (s : Bytes) (ss : OStream),
      (s.foldl (fun ss byte =>
        (ss.setHex.setUppercase.setw 2 |>.setfill 0x30).putInt byte.toNat) ss).text =
        ss.text ++ upperHex s := by
    intro s
    induction s with
    | nil => simp [upperHex]
    | cons b s ih =>
      intro ss
      rw [List.foldl_cons, ih, OStream.putInt_byte _ _ rfl rfl rfl, upperHex, upperHex,
        List.flatMap_cons, ← List.append_assoc]
      rfl
  exact hloop _ _

/-! ### The digest functions -/

/-- The digests that OpenSSL computes. -/
inductive Digest where
  | sha1
  | sha224
  | sha256
  | sha384
  | sha512
  deriving DecidableEq

/-- `SHA_DIGEST_LENGTH`, …, `SHA512_DIGEST_LENGTH`. -/
def Digest.length : Digest → ℕ
  | sha1 => 20
  | sha224 => 28
  | sha256 => 32
  | sha384 => 48
  | sha512 => 64

/-- The digest functions of OpenSSL, each with a digest of its own length. -/
structure Sha where
  /-- The digest of a byte string. -/
  digest : Digest → Bytes → Bytes
  length_digest : ∀ d s, (digest d s).length = d.length

/-- `SHA1(d, n, md)` and its siblings: the array `md` afterwards. -/
def Sha.into (lib : Sha) (d : Digest) (s : Bytes) (n : ℕ) (md : Bytes) : Bytes :=
  lib.digest d (s.take n) ++ md.drop d.length

/-- A digest function: `callee` is called on an array of `length` bytes that holds `hash`, and
the array is printed. -/
def shaOpenssl (callee : Digest) (length : ℕ) (lib : Sha) (hash input : Bytes) : Bytes :=
  bytesToHexOpenssl (lib.into callee (cStr input) input.length hash) length

/-- `sha1_openssl`. -/
def sha1Openssl : Sha → Bytes → Bytes → Bytes := shaOpenssl .sha1 Digest.sha1.length

/-- `sha224_openssl`. -/
def sha224Openssl : Sha → Bytes → Bytes → Bytes := shaOpenssl .sha1 Digest.sha224.length

/-- `sha256_openssl`. -/
def sha256Openssl : Sha → Bytes → Bytes → Bytes := shaOpenssl .sha1 Digest.sha256.length

/-- `sha384_openssl`. -/
def sha384Openssl : Sha → Bytes → Bytes → Bytes := shaOpenssl .sha1 Digest.sha384.length

/-- `sha512_openssl`. -/
def sha512Openssl : Sha → Bytes → Bytes → Bytes := shaOpenssl .sha1 Digest.sha512.length

/-- The digest function of the repository that is named after a digest. -/
def Digest.openssl : Digest → Sha → Bytes → Bytes → Bytes
  | sha1 => sha1Openssl
  | sha224 => sha224Openssl
  | sha256 => sha256Openssl
  | sha384 => sha384Openssl
  | sha512 => sha512Openssl

theorem Digest.openssl_eq (d : Digest) : d.openssl = shaOpenssl .sha1 d.length := by
  cases d <;> rfl

/-- On this input, the function named after `d` returns the upper-case hexadecimal text of the
digest `d`, whatever its array held before. -/
def ComputesDigest (lib : Sha) (d : Digest) (input : Bytes) : Prop :=
  ∀ hash, hash.length = d.length → d.openssl lib hash input = upperHex (lib.digest d input)

/-- What the digest functions return: the SHA-1 digest, and the bytes behind it that were in the
array before. -/
theorem shaOpenssl_eq (lib : Sha) (d : Digest) {hash : Bytes} (hhash : hash.length = d.length)
    (input : Bytes) :
    d.openssl lib hash input = upperHex (lib.digest .sha1 input ++ hash.drop 20) := by
  have hlen : (lib.digest .sha1 input ++ hash.drop 20).length ≤ d.length := by
    rw [List.length_append, lib.length_digest, List.length_drop, hhash, Digest.length]
    cases d <;> decide
  rw [Digest.openssl_eq, shaOpenssl, bytesToHexOpenssl_eq, Sha.into, take_cStr (le_refl _),
    List.take_length]
  exact congrArg upperHex (List.take_of_length_le hlen)

/-- **Which digest functions are right.** For every input, the function named after a digest
computes it, whatever its array held before, exactly when it is the SHA-1 function. -/
theorem computesDigest_iff (lib : Sha) (d : Digest) (input : Bytes) :
    ComputesDigest lib d input ↔ d = .sha1 := by
  constructor
  · intro h
    by_contra hd
    have hlong : 20 < d.length := by cases d <;> first | exact absurd rfl hd | decide
    -- Two arrays that differ in their last byte are printed differently.
    have hprint : ∀ b : UInt8, upperHex (lib.digest .sha1 input ++
        (List.replicate (d.length - 1) 0 ++ [b]).drop 20) = upperHex (lib.digest d input) := by
      intro b
      have hhash : (List.replicate (d.length - 1) 0 ++ [b]).length = d.length := by
        rw [List.length_append, List.length_replicate, List.length_singleton]
        omega
      rw [← shaOpenssl_eq lib d hhash]
      exact h _ hhash
    have heq := List.append_cancel_left
      (upperHex_injective ((hprint 0).trans (hprint 1).symm))
    rw [List.drop_append_of_le_length (by rw [List.length_replicate]; omega),
      List.drop_append_of_le_length (by rw [List.length_replicate]; omega)] at heq
    exact absurd (List.append_cancel_left heq) (by decide)
  · rintro rfl hash hhash
    rw [shaOpenssl_eq lib .sha1 hhash, List.drop_of_length_le (show hash.length ≤ 20 from hhash.le),
      List.append_nil]

/-- The digests of `"abc"`. -/
def abcDigest : Digest → Bytes
  | .sha1 =>
    [0xa9, 0x99, 0x3e, 0x36, 0x47, 0x06, 0x81, 0x6a, 0xba, 0x3e, 0x25, 0x71, 0x78, 0x50,
      0xc2, 0x6c, 0x9c, 0xd0, 0xd8, 0x9d]
  | .sha224 =>
    [0x23, 0x09, 0x7d, 0x22, 0x34, 0x05, 0xd8, 0x22, 0x86, 0x42, 0xa4, 0x77, 0xbd, 0xa2,
      0x55, 0xb3, 0x2a, 0xad, 0xbc, 0xe4, 0xbd, 0xa0, 0xb3, 0xf7, 0xe3, 0x6c, 0x9d, 0xa7]
  | .sha256 =>
    [0xba, 0x78, 0x16, 0xbf, 0x8f, 0x01, 0xcf, 0xea, 0x41, 0x41, 0x40, 0xde, 0x5d, 0xae,
      0x22, 0x23, 0xb0, 0x03, 0x61, 0xa3, 0x96, 0x17, 0x7a, 0x9c, 0xb4, 0x10, 0xff, 0x61,
      0xf2, 0x00, 0x15, 0xad]
  | .sha384 =>
    [0xcb, 0x00, 0x75, 0x3f, 0x45, 0xa3, 0x5e, 0x8b, 0xb5, 0xa0, 0x3d, 0x69, 0x9a, 0xc6,
      0x50, 0x07, 0x27, 0x2c, 0x32, 0xab, 0x0e, 0xde, 0xd1, 0x63, 0x1a, 0x8b, 0x60, 0x5a,
      0x43, 0xff, 0x5b, 0xed, 0x80, 0x86, 0x07, 0x2b, 0xa1, 0xe7, 0xcc, 0x23, 0x58, 0xba,
      0xec, 0xa1, 0x34, 0xc8, 0x25, 0xa7]
  | .sha512 =>
    [0xdd, 0xaf, 0x35, 0xa1, 0x93, 0x61, 0x7a, 0xba, 0xcc, 0x41, 0x73, 0x49, 0xae, 0x20,
      0x41, 0x31, 0x12, 0xe6, 0xfa, 0x4e, 0x89, 0xa9, 0x7e, 0xa2, 0x0a, 0x9e, 0xee, 0xe6,
      0x4b, 0x55, 0xd3, 0x9a, 0x21, 0x92, 0x99, 0x2a, 0x27, 0x4f, 0xc1, 0xa8, 0x36, 0xba,
      0x3c, 0x23, 0xa3, 0xfe, 0xeb, 0xbd, 0x45, 0x4d, 0x44, 0x23, 0x64, 0x3c, 0xe8, 0x0e,
      0x2a, 0x9a, 0xc9, 0x4f, 0xa5, 0x4c, 0xa4, 0x9f]

/-- Digest functions that are right on `"abc"`. -/
def abcSha : Sha where
  digest d s := if s = str "abc" then abcDigest d else List.replicate d.length 0
  length_digest d s := by
    split
    · cases d <;> rfl
    · exact List.length_replicate

/-- The SHA-256 function prints another text for `"abc"`, its array holding zeros before. -/
theorem not_computesDigest_sha256 : ¬ ComputesDigest abcSha .sha256 (str "abc") := by
  intro h
  exact absurd (h (List.replicate 32 0) rfl) (by decide +kernel)

end Behh
