import Behh.Cryptography.BufferCipher
import Behh.Library.Chunks
import Behh.Std.FileStream

/-!
# File encryption

`string::to_buffer` and the functions `file::encrypt` and `file::decrypt` of `src/utility.cc`,
lines 447–457 and 1035–1191.

The two functions and the two modes have one body with four ciphers: the file is read in pieces
of `chunk_size` bytes into a scratch buffer, every piece is put through the cipher, and what
comes back is written to the other file. The cipher's error exit is an empty vector, which is
written like any other result.

The loop runs until the input stream fails, which a chunk size of 0 never makes it do. It is
granted one iteration more than the file has bytes, and this is enough when the chunk size is
positive: the loop is then the cipher on each of the `chunks` of the content, followed by the
writes (`crypt_eq`). The scratch buffer is made before anything else is done, and there is none for
a chunk size of `2 ^ 63` or more: the functions throw then (`crypt_of_le`).

## Main definitions

* `toBuffer`: `string::to_buffer`.
* `encrypt`, `decrypt`: `file::encrypt` and `file::decrypt`, over any per-chunk ciphers.
* `fileCrypt`: both by direction.
* `IsChunkSize`: the chunk sizes for which a file is read to its end.
* `recorded`: per-chunk ciphers that keep a record of their calls.

## Main results

* `keeps_crypt`: invariants of the library.
* `cryptLoop_eq`: the loop as a map over the chunks.
* `crypt_eq`: the whole function.
* `crypt_of_faultless`: the whole function on a disk without faults.
* `crypt_recorded_eq_some`: its runs, with a record of the calls.
-/

namespace Behh

/-! ### `string::to_buffer` -/

/-- `string::to_buffer`: a string that is too short is filled up with zeros, one that is too long
is left as it is, because `reserve` does not shorten. -/
def toBuffer (input : Bytes) (requiredSize : ℕ) : Bytes :=
  let result := input
  if result.length > requiredSize then result
  else if result.length < requiredSize then resize result requiredSize
  else result

theorem length_toBuffer (input : Bytes) (n : ℕ) :
    (toBuffer input n).length = max input.length n := by
  rw [toBuffer]
  split_ifs
  · omega
  · rw [length_resize]
    omega
  · omega

theorem toBuffer_of_le {input : Bytes} {n : ℕ} (h : n ≤ input.length) :
    toBuffer input n = input := by
  rw [toBuffer]
  split_ifs
  · rfl
  · omega
  · rfl

/-! ### The functions -/

variable {W : Type}

/-- The locals of the loop. -/
structure CryptLocals where
  /-- `file_in`. -/
  fileIn : IfStream
  /-- `file_out`. -/
  fileOut : OfStream
  /-- `buffer`. -/
  buffer : Bytes
  /-- `isOk`. -/
  isOk : Bool

/-- One iteration of the loop. -/
def cryptStep (cipher : BufferCipher W) (ivBuffer ikBuffer : Bytes) (chunkSize : ℕ)
    (st : CryptLocals) : Prog (Sys W) CryptLocals := do
  let (got, fileIn) ← onDisk fun d => (st.fileIn.read chunkSize d, d)
  let buffer := got ++ st.buffer.drop got.length
  let bytesRead := got.length
  if bytesRead > 0 then
    let chunk ← onLib (cipher (buffer.take bytesRead) ivBuffer ikBuffer)
    let fileOut ← onDisk (st.fileOut.write (chunk.getD []))
    return ⟨fileIn, fileOut, buffer, st.isOk && fileOut.good⟩
  else return { st with fileIn := fileIn, buffer := buffer }

/-- `while (file_in) { ... }`, granted `fuel` iterations. -/
def cryptLoop (cipher : BufferCipher W) (ivBuffer ikBuffer : Bytes) (chunkSize : ℕ) (fuel : ℕ)
    (st : CryptLocals) : Prog (Sys W) CryptLocals :=
  Prog.whileLoop (fun st => st.fileIn.good) (cryptStep cipher ivBuffer ikBuffer chunkSize) fuel st

/-- One arm of the switch; the result is `isOk`. -/
def cryptArm (cipher : BufferCipher W) (fileIn : IfStream) (fileOutput iv ik : Bytes)
    (chunkSize : ℕ) (buffer : Bytes) : Prog (Sys W) Bool := do
  let fileOut ← onDisk (OfStream.new fileOutput)
  let ivBuffer := toBuffer iv 16
  let ikBuffer := toBuffer ik 16
  let size ← onDisk fun d => ((d.content fileIn.path).length, d)
  let st ← cryptLoop cipher ivBuffer ikBuffer chunkSize (size + 1) ⟨fileIn, fileOut, buffer, true⟩
  onDisk fun d => ((), st.fileOut.close d)
  return st.isOk

/-- The common body of `file::encrypt` and `file::decrypt`, lines 1035–1112 and 1114–1191: the code,
or the exception of the scratch buffer. -/
def crypt (ciphers : Alg → BufferCipher W) (mode : ℤ) (fileInput fileOutput iv ik : Bytes)
    (chunkSize : ℕ) : Prog (Sys W) (Except Unit ℤ) := do
  match newBuffer chunkSize with
  | .error e => return .error e
  | .ok buffer =>
    let fileIn ← onDisk (IfStream.new fileInput)
    if !fileIn.good then
      return .ok (-1)
    let isOk ← match mode with
      | 1 => cryptArm (ciphers .aes256Cbc) fileIn fileOutput iv ik chunkSize buffer
      | 2 => cryptArm (ciphers .aes256Gcm) fileIn fileOutput iv ik chunkSize buffer
      | _ => pure false
    if !isOk then
      return .ok (-69)
    return .ok 1

/-- `file::encrypt`. -/
def encrypt (ciphers : Ciphers W) :
    ℤ → Bytes → Bytes → Bytes → Bytes → ℕ → Prog (Sys W) (Except Unit ℤ) :=
  crypt (ciphers .encrypt)

/-- `file::decrypt`. -/
def decrypt (ciphers : Ciphers W) :
    ℤ → Bytes → Bytes → Bytes → Bytes → ℕ → Prog (Sys W) (Except Unit ℤ) :=
  crypt (ciphers .decrypt)

/-- Both functions by direction. -/
def fileCrypt : Dir → Ciphers W → ℤ → Bytes → Bytes → Bytes → Bytes → ℕ →
    Prog (Sys W) (Except Unit ℤ)
  | .encrypt => encrypt
  | .decrypt => decrypt

theorem fileCrypt_eq (dir : Dir) (ciphers : Ciphers W) :
    fileCrypt dir ciphers = crypt (ciphers dir) := by
  cases dir <;> rfl

/-! ### Invariants of the library -/

section Invariant

variable {J : W → Prop} {cipher : BufferCipher W} {iv ik : Bytes} {n : ℕ}

theorem keeps_onDisk {α : Type} (x : Disk → α × Disk) :
    Prog.Keeps (fun s : Sys W => J s.lib) (onDisk x) :=
  Prog.keeps_zoom (J := fun _ => True) (Prog.keeps_call fun _ _ => trivial)
    (fun _ _ => trivial) fun _ _ h _ => h

theorem keeps_onLib {α : Type} {x : Prog W α} (hx : Prog.Keeps J x) :
    Prog.Keeps (fun s : Sys W => J s.lib) (onLib x) :=
  Prog.keeps_zoom hx (fun _ h => h) fun _ _ _ h => h

theorem keeps_cryptArm
    (hJ : ∀ c, Prog.Keeps J (cipher c (toBuffer iv 16) (toBuffer ik 16))) (fileIn : IfStream)
    (fileOutput buffer : Bytes) :
    Prog.Keeps (fun s : Sys W => J s.lib) (cryptArm cipher fileIn fileOutput iv ik n buffer) := by
  have hstep : ∀ st, Prog.Keeps (fun s : Sys W => J s.lib)
      (cryptStep cipher (toBuffer iv 16) (toBuffer ik 16) n st) := by
    intro st
    refine Prog.keeps_bind (keeps_onDisk _) fun r => ?_
    refine Prog.keeps_ite ?_ (Prog.keeps_pure _)
    exact Prog.keeps_bind (keeps_onLib (hJ _)) fun _ =>
      Prog.keeps_bind (keeps_onDisk _) fun _ => Prog.keeps_pure _
  exact Prog.keeps_bind (keeps_onDisk _) fun _ => Prog.keeps_bind (keeps_onDisk _) fun _ =>
    Prog.keeps_bind (Prog.keeps_whileLoop hstep _ _) fun _ =>
      Prog.keeps_bind (keeps_onDisk _) fun _ => Prog.keeps_pure _

/-- **Invariants of the library.** What every per-chunk call with the two buffers keeps is kept by
the functions, in every mode. -/
theorem keeps_crypt {ciphers : Alg → BufferCipher W}
    (hJ : ∀ alg c, Prog.Keeps J (ciphers alg c (toBuffer iv 16) (toBuffer ik 16))) (mode : ℤ)
    (fileInput fileOutput : Bytes) :
    Prog.Keeps (fun s : Sys W => J s.lib) (crypt ciphers mode fileInput fileOutput iv ik n) := by
  have hcode : ∀ isOk : Bool, Prog.Keeps (fun s : Sys W => J s.lib)
      (if !isOk then pure (.ok (-69)) else pure (.ok 1) : Prog (Sys W) (Except Unit ℤ)) :=
    fun isOk => Prog.keeps_ite (Prog.keeps_pure _) (Prog.keeps_pure _)
  rw [crypt]
  split
  · exact Prog.keeps_pure _
  · refine Prog.keeps_bind (keeps_onDisk _) fun fileIn => ?_
    refine Prog.keeps_ite (Prog.keeps_pure _) ?_
    dsimp only
    split
    · exact Prog.keeps_bind (keeps_cryptArm (hJ _) _ _ _) hcode
    · exact Prog.keeps_bind (keeps_cryptArm (hJ _) _ _ _) hcode
    · exact Prog.keeps_bind (Prog.keeps_pure _) hcode

end Invariant

/-! ### The loop -/

section Loop

variable {cipher : BufferCipher W} {ivBuffer ikBuffer : Bytes} {n : ℕ}

/-- The results of the cipher on a list of chunks, one call after the other. -/
def cipherAll (cipher : BufferCipher W) (ivBuffer ikBuffer : Bytes) (cs : List Bytes) :
    Prog W (List (Option Bytes)) :=
  cs.mapM fun c => cipher c ivBuffer ikBuffer

theorem cipherAll_nil (w : W) : cipherAll cipher ivBuffer ikBuffer [] w = some ([], w) := rfl

theorem cipherAll_cons (c : Bytes) (cs : List Bytes) (w : W) :
    cipherAll cipher ivBuffer ikBuffer (c :: cs) w =
      (cipher c ivBuffer ikBuffer w).bind fun r =>
        (cipherAll cipher ivBuffer ikBuffer cs r.2).map fun rs => (r.1 :: rs.1, rs.2) := by
  simp [cipherAll]

/-- The input stream after it has read the next piece of `left`. -/
def IfStream.advance (f : IfStream) (left : Bytes) (n : ℕ) : IfStream :=
  { f with pos := f.pos + (left.take n).length, good := (left.take n).length = n }

/-- What is left after that, if the file is still the same. -/
theorem IfStream.rest_advance {f : IfStream} {d d' : Disk} (h : d'.files f.path = d.files f.path)
    {left : Bytes} (hleft : f.rest d = left) (n : ℕ) :
    (f.advance left n).rest d' = left.drop n := by
  have hrest : (f.advance left n).rest d' = left.drop (left.take n).length := by
    rw [← hleft, rest, rest, advance, Disk.content, Disk.content, h, List.drop_drop]
  rw [hrest, List.length_take]
  rcases Nat.le_total n left.length with hle | hle
  · rw [Nat.min_eq_left hle]
  · rw [Nat.min_eq_right hle, List.drop_length, List.drop_eq_nil_of_le hle]

/-- One iteration, with nothing left to read: the stream fails. -/
theorem cryptStep_nil {st : CryptLocals} {s : Sys W} (hgood : st.fileIn.good = true)
    (hleft : (s.disk.content st.fileIn.path).drop st.fileIn.pos = []) :
    cryptStep cipher ivBuffer ikBuffer n st s =
      some ({ st with fileIn := st.fileIn.advance [] n }, s) := by
  simp only [cryptStep, IfStream.read, IfStream.advance, hgood, hleft, Prog.bind_apply,
    onDisk_apply, Option.bind_some, if_true, List.take_nil, List.length_nil, gt_iff_lt, lt_irrefl,
    if_false, List.nil_append, List.drop_zero, Prog.pure_apply]

/-- One iteration, with something left to read: the next piece is put through the cipher, and the
result is written. -/
theorem cryptStep_of_ne_nil (hn : 0 < n) {st : CryptLocals} {s : Sys W}
    (hgood : st.fileIn.good = true) {left : Bytes}
    (hleft : (s.disk.content st.fileIn.path).drop st.fileIn.pos = left) (hne : left ≠ []) :
    cryptStep cipher ivBuffer ikBuffer n st s =
      (cipher (left.take n) ivBuffer ikBuffer s.lib).map fun r =>
        let written := st.fileOut.write (r.1.getD []) s.disk
        (⟨st.fileIn.advance left n, written.1,
            left.take n ++ st.buffer.drop (left.take n).length, st.isOk && written.1.good⟩,
          ⟨written.2, r.2⟩) := by
  have hpos : 0 < (left.take n).length := by
    have := List.length_pos_of_ne_nil hne
    rw [List.length_take]
    omega
  simp only [cryptStep, IfStream.read, hgood, hleft, Prog.bind_apply, onDisk_apply,
    Option.bind_some, if_true, gt_iff_lt, hpos, List.take_left', onLib_apply, Prog.pure_apply]
  cases cipher (left.take n) ivBuffer ikBuffer s.lib with
  | none => rfl
  | some r => rfl

/-- **The loop as a map over the chunks.** From a stream that has not failed, with enough fuel for
what is left of the file, the loop puts the chunks of the rest through the cipher and writes the
results. While something is left to read, the writes must not reach the file that is read. -/
theorem cryptLoop_eq (hn : 0 < n) {fuel : ℕ} {st : CryptLocals} {s : Sys W}
    (hgood : st.fileIn.good = true) {left : Bytes}
    (hleft : (s.disk.content st.fileIn.path).drop st.fileIn.pos = left)
    (hfuel : left.length < fuel)
    (hsep : left ≠ [] → st.fileIn.path ≠ st.fileOut.path ∨ st.fileOut.good = false) :
    (cryptLoop cipher ivBuffer ikBuffer n fuel st s).map
        (fun r => (r.1.fileOut, r.1.isOk, r.2)) =
      (cipherAll cipher ivBuffer ikBuffer (left.chunks n) s.lib).map fun r =>
        let written := st.fileOut.writeAll st.isOk (r.1.map fun o => o.getD []) s.disk
        (written.1.1, written.1.2, ⟨written.2, r.2⟩) := by
  induction fuel generalizing st s left with
  | zero => omega
  | succ fuel ih =>
    rw [cryptLoop, Prog.whileLoop_succ_of_true (b := st) hgood, Prog.bind_apply]
    by_cases hne : left = []
    · subst hne
      rw [cryptStep_nil hgood hleft, Option.bind_some,
        Prog.whileLoop_of_false (by simp [IfStream.advance, hn.ne])]
      simp [cipherAll_nil, OfStream.writeAll]
    · rw [cryptStep_of_ne_nil hn hgood hleft hne, List.chunks_of_ne_nil hn hne, cipherAll_cons]
      cases hcipher : cipher (left.take n) ivBuffer ikBuffer s.lib with
      | none => rfl
      | some r =>
        simp only [Option.map_some, Option.bind_some, Option.map_map]
        have hfiles := st.fileOut.write_files (r.1.getD []) s.disk (hsep hne)
        have hpath := st.fileOut.write_path (r.1.getD []) s.disk
        have hbad := st.fileOut.write_good (r.1.getD []) s.disk
        generalize hz : st.fileOut.write (r.1.getD []) s.disk = z at hfiles hpath hbad
        by_cases hfull : (left.take n).length = n
        · -- The stream has not failed, and `left.drop n` is left to read.
          have hlen := List.length_pos_of_ne_nil hne
          have hleft' := st.fileIn.rest_advance hfiles hleft n
          have hrest := @ih ⟨st.fileIn.advance left n, z.1,
            left.take n ++ st.buffer.drop (left.take n).length, st.isOk && z.1.good⟩ ⟨z.2, r.2⟩
            (by simpa [IfStream.advance] using hfull) (left.drop n) hleft'
            (by rw [List.length_drop]; omega)
            (fun _ => (hsep hne).imp (fun h => by rwa [hpath]) hbad)
          rw [cryptLoop] at hrest
          rw [hrest]
          simp only [Function.comp_def, List.map_cons, OfStream.writeAll, hz]
        · -- The stream has failed on the last piece.
          have hdrop : left.drop n = [] := by
            rw [List.length_take] at hfull
            exact List.drop_eq_nil_of_le (by omega)
          rw [Prog.whileLoop_of_false (by simpa [IfStream.advance] using hfull), hdrop,
            List.chunks_nil]
          simp [cipherAll_nil, OfStream.writeAll, hz]

/-! ### The whole function -/

/-- The content that the loop reads, after the output file has been opened. -/
def seenContent (d : Disk) (fileInput fileOutput : Path) : Bytes :=
  (OfStream.new fileOutput (IfStream.new fileInput d).2).2.content (cString fileInput)

/-- Opening the output file empties the input file, or leaves it alone, or fails. -/
theorem content_of_new (path q : Path) (d : Disk) (h : (OfStream.new path d).2.content q ≠ []) :
    q ≠ (OfStream.new path d).1.path ∨ (OfStream.new path d).1.good = false := by
  rw [OfStream.new] at h ⊢
  cases hfault : d.nextFault with
  | none =>
    left
    rintro rfl
    simp [hfault] at h
  | some k => exact Or.inr rfl

/-- What is seen of another file is its content, whether or not the output file can be opened. -/
theorem seenContent_of_ne {d : Disk} {fileInput fileOutput : Path} {f : Bytes}
    (hne : cString fileInput ≠ cString fileOutput) (hf : d.files (cString fileInput) = some f) :
    seenContent d fileInput fileOutput = f := by
  have hcontent : d.content (cString fileInput) = f := by rw [Disk.content, hf, Option.getD_some]
  rw [seenContent, OfStream.new]
  split
  · rw [Disk.content, Disk.put_files_of_ne _ _ hne]
    exact hcontent
  · exact hcontent

theorem seenContent_self {d : Disk} (h : d.fault (d.clock + 1) = none)
    {fileInput fileOutput : Path} (hself : cString fileInput = cString fileOutput) :
    seenContent d fileInput fileOutput = [] := by
  have hfault : (IfStream.new fileInput d).2.nextFault = none := h
  rw [seenContent, OfStream.new, hfault, hself, Disk.put_content_self]

/-- One arm of the switch: the cipher on the chunks of the content, and the results written to a
new file. -/
theorem cryptArm_eq (hn : 0 < n) {fileIn : IfStream} (hgood : fileIn.good = true)
    (hpos : fileIn.pos = 0) (fileOutput iv ik buffer : Bytes) (s : Sys W) :
    cryptArm cipher fileIn fileOutput iv ik n buffer s =
      (cipherAll cipher (toBuffer iv 16) (toBuffer ik 16)
        (((OfStream.new fileOutput s.disk).2.content fileIn.path).chunks n) s.lib).map fun r =>
          let written := writeFile fileOutput (r.1.map fun o => o.getD []) s.disk
          (written.1, ⟨written.2, r.2⟩) := by
  have hloop := @cryptLoop_eq W cipher (toBuffer iv 16) (toBuffer ik 16) n hn
    (((OfStream.new fileOutput s.disk).2.content fileIn.path).length + 1)
    ⟨fileIn, (OfStream.new fileOutput s.disk).1, buffer, true⟩
    ⟨(OfStream.new fileOutput s.disk).2, s.lib⟩ hgood
    ((OfStream.new fileOutput s.disk).2.content fileIn.path) (by rw [hpos]; rfl)
    (Nat.lt_succ_self _) (content_of_new _ _ _)
  simp only [cryptArm, Prog.bind_apply, onDisk_apply, Option.bind_some]
  cases hrun : cipherAll cipher (toBuffer iv 16) (toBuffer ik 16)
    (((OfStream.new fileOutput s.disk).2.content fileIn.path).chunks n) s.lib with
  | none =>
    rw [hrun, Option.map_none, Option.map_eq_none_iff] at hloop
    rw [hloop]
    rfl
  | some r =>
    rw [hrun, Option.map_some, Option.map_eq_some_iff] at hloop
    obtain ⟨⟨st, s'⟩, hst, heq⟩ := hloop
    obtain ⟨hout, heq⟩ := Prod.mk.inj heq
    obtain ⟨hok, hsys⟩ := Prod.mk.inj heq
    rw [hst]
    simp only at hout hok hsys
    simp [writeFile, hout, hok, hsys]

end Loop

/-- The mode of a cipher. -/
def Alg.mode : Alg → ℤ
  | aes256Cbc => 1
  | aes256Gcm => 2

variable {ciphers : Alg → BufferCipher W} {n : ℕ}

/-- A chunk size for which there is a scratch buffer, and that reads something. -/
structure IsChunkSize (n : ℕ) : Prop where
  /-- The chunks have a size. -/
  pos : 0 < n
  /-- There is a vector of the size. -/
  lt : n < 2 ^ 63

/-- Without a scratch buffer the function throws, and has done nothing. -/
theorem crypt_of_le (hn : 2 ^ 63 ≤ n) (mode : ℤ) (fileInput fileOutput iv ik : Bytes) (s : Sys W) :
    crypt ciphers mode fileInput fileOutput iv ik n s = some (.error (), s) := by
  rw [crypt, newBuffer_of_le hn]
  rfl

theorem crypt_of_not_good (hn : n < 2 ^ 63) {fileInput : Path} {s : Sys W}
    (h : (IfStream.new fileInput s.disk).1.good = false) (mode : ℤ) (fileOutput iv ik : Bytes) :
    crypt ciphers mode fileInput fileOutput iv ik n s =
      some (.ok (-1), { s with disk := (IfStream.new fileInput s.disk).2 }) := by
  simp [crypt, newBuffer_of_lt hn, h]

theorem crypt_of_mode_ne (hn : n < 2 ^ 63) {mode : ℤ} (hmode : ∀ alg : Alg, mode ≠ alg.mode)
    {fileInput : Path} {s : Sys W} (h : (IfStream.new fileInput s.disk).1.good = true)
    (fileOutput iv ik : Bytes) :
    crypt ciphers mode fileInput fileOutput iv ik n s =
      some (.ok (-69), { s with disk := (IfStream.new fileInput s.disk).2 }) := by
  simp only [crypt, newBuffer_of_lt hn, Prog.bind_apply, onDisk_apply, Option.bind_some, h,
    Bool.not_true, Bool.false_eq_true, if_false]
  split
  · exact absurd rfl (hmode .aes256Cbc)
  · exact absurd rfl (hmode .aes256Gcm)
  · rfl

/-- The calls that return 1 have a scratch buffer and one of the two modes, and their input file can
be opened. -/
theorem crypt_eq_one {mode : ℤ} {fileInput fileOutput iv ik : Bytes} {s s' : Sys W}
    (h : crypt ciphers mode fileInput fileOutput iv ik n s = some (.ok 1, s')) :
    n < 2 ^ 63 ∧ (∃ alg : Alg, mode = alg.mode) ∧
      (IfStream.new fileInput s.disk).1.good = true := by
  have hlt : n < 2 ^ 63 := by
    by_contra hle
    rw [crypt_of_le (not_lt.1 hle)] at h
    cases h
  cases hgood : (IfStream.new fileInput s.disk).1.good with
  | false =>
    rw [crypt_of_not_good hlt hgood] at h
    have hcode : (-1 : ℤ) = 1 := Except.ok.inj (congrArg Prod.fst (Option.some_inj.1 h))
    exact absurd hcode (by decide)
  | true =>
    refine ⟨hlt, ?_, rfl⟩
    by_contra hmode
    rw [crypt_of_mode_ne hlt (not_exists.1 hmode) hgood] at h
    have hcode : (-69 : ℤ) = 1 := Except.ok.inj (congrArg Prod.fst (Option.some_inj.1 h))
    exact absurd hcode (by decide)

theorem returnCode_apply (isOk : Bool) (s : Sys W) :
    (if !isOk then pure (.ok (-69)) else pure (.ok 1) : Prog (Sys W) (Except Unit ℤ)) s =
      some (.ok (if isOk then 1 else -69), s) := by
  cases isOk <;> rfl

/-- **The whole function**, in one of its two modes and when the input file can be opened: the
cipher on the chunks of the content that is seen, and the results written to the output file. The
code tells whether the writes were accepted. -/
theorem crypt_eq (hn : IsChunkSize n) {fileInput : Path} {s : Sys W}
    (h : (IfStream.new fileInput s.disk).1.good = true) (alg : Alg) (fileOutput iv ik : Bytes) :
    crypt ciphers alg.mode fileInput fileOutput iv ik n s =
      (cipherAll (ciphers alg) (toBuffer iv 16) (toBuffer ik 16)
        ((seenContent s.disk fileInput fileOutput).chunks n) s.lib).map fun r =>
          let written := writeFile fileOutput (r.1.map fun o => o.getD [])
            (IfStream.new fileInput s.disk).2
          (.ok (if written.1 then 1 else -69), ⟨written.2, r.2⟩) := by
  have hmode : crypt ciphers alg.mode fileInput fileOutput iv ik n s =
      (cryptArm (ciphers alg) (IfStream.new fileInput s.disk).1 fileOutput iv ik n
        (List.replicate n 0) { s with disk := (IfStream.new fileInput s.disk).2 }).map
          fun r => (.ok (if r.1 then 1 else -69), r.2) := by
    cases alg <;>
      simp only [crypt, newBuffer_of_lt hn.lt, Alg.mode, Prog.bind_apply, onDisk_apply,
        Option.bind_some, h, Bool.not_true, Bool.false_eq_true, if_false, returnCode_apply,
        Option.map_eq_bind] <;> rfl
  rw [hmode, cryptArm_eq hn.pos h rfl, Option.map_map]
  rfl

/-! ### Disks without faults -/

variable {f : Bytes}

theorem IfStream.good_new_iff {d : Disk} {path : Path} :
    (IfStream.new path d).1.good = true ↔
      d.nextFault = none ∧ ∃ f, d.files (cString path) = some f := by
  rw [IfStream.new, Bool.and_eq_true, Option.isNone_iff_eq_none, Option.isSome_iff_exists]

theorem IfStream.good_new {d : Disk} (hd : d.Faultless) {path : Path}
    (hf : d.files (cString path) = some f) : (IfStream.new path d).1.good = true :=
  good_new_iff.2 ⟨hd.nextFault, f, hf⟩

/-- What is written when the calls have the outcomes `outs`. -/
def joined (outs : List (Option Bytes)) : Bytes := (outs.map fun o => o.getD []).flatten

/-- The disk after the outcomes `outs` have been written to a file. -/
def outputDisk (d : Disk) (fileInput fileOutput : Path) (outs : List (Option Bytes)) : Disk :=
  (writeFile fileOutput (outs.map fun o => o.getD []) (IfStream.new fileInput d).2).2

theorem outputDisk_spec {d : Disk} (hd : d.Faultless) (fileInput fileOutput : Path)
    (outs : List (Option Bytes)) :
    (outputDisk d fileInput fileOutput outs).Faultless ∧
      (outputDisk d fileInput fileOutput outs).files (cString fileOutput) = some (joined outs) :=
  (writeFile_of_faultless (hd.step d.files) fileOutput _).2

/-- Without faults both functions return 1, whatever the outcomes of the calls, and the output
file holds these outcomes. -/
theorem crypt_of_faultless {ciphers : Alg → BufferCipher W} (hn : IsChunkSize n) {d : Disk}
    (hd : d.Faultless) {fileInput fileOutput : Path}
    (hne : cString fileInput ≠ cString fileOutput) (hf : d.files (cString fileInput) = some f)
    (alg : Alg) (iv ik : Bytes) (w : W) :
    crypt ciphers alg.mode fileInput fileOutput iv ik n ⟨d, w⟩ =
      (cipherAll (ciphers alg) (toBuffer iv 16) (toBuffer ik 16) (f.chunks n) w).map fun r =>
        (.ok 1, ⟨outputDisk d fileInput fileOutput r.1, r.2⟩) := by
  rw [crypt_eq hn (IfStream.good_new hd hf), seenContent_of_ne hne hf]
  refine congrArg₂ Option.map (funext fun r => ?_) rfl
  have haccepted := (writeFile_of_faultless (hd.step d.files) fileOutput
    (r.1.map fun o => o.getD [])).1
  exact Prod.ext (congrArg Except.ok (if_pos haccepted)) rfl

/-! ### A record of the calls -/

/-- A call of a per-chunk cipher, with the objects its pointers point into. -/
structure CipherCall where
  /-- The direction of the function called. -/
  dir : Dir
  /-- The mode of the function called. -/
  alg : Alg
  /-- The chunk. -/
  buffer : Bytes
  /-- The IV buffer. -/
  iv : Bytes
  /-- The key buffer. -/
  ik : Bytes
  /-- What the function returned; `none` for an error exit. -/
  result : Option Bytes
  deriving DecidableEq

/-- The same ciphers, with a record of their calls kept beside the state of the library. -/
def recorded (ciphers : Ciphers W) : Ciphers (W × List CipherCall) := fun dir alg buffer iv ik s =>
  (ciphers dir alg buffer iv ik s.1).map fun r =>
    (r.1, r.2, s.2 ++ [⟨dir, alg, buffer, iv, ik, r.1⟩])

variable {ciphers : Ciphers W} {dir : Dir} {alg : Alg}

theorem cipherAll_recorded (ivBuffer ikBuffer : Bytes) (cs : List Bytes) (w : W)
    (calls : List CipherCall) :
    cipherAll (recorded ciphers dir alg) ivBuffer ikBuffer cs (w, calls) =
      (cipherAll (ciphers dir alg) ivBuffer ikBuffer cs w).map fun r =>
        (r.1, r.2, calls ++
          cs.zipWith (fun c o => ⟨dir, alg, c, ivBuffer, ikBuffer, o⟩) r.1) := by
  induction cs generalizing w calls with
  | nil => simp [cipherAll_nil]
  | cons c cs ih =>
    rw [cipherAll_cons, cipherAll_cons, recorded]
    cases ciphers dir alg c ivBuffer ikBuffer w with
    | none => rfl
    | some r =>
      simp only [Option.map_some, Option.bind_some]
      rw [ih, Option.map_map, Option.map_map]
      simp [Function.comp_def]

/-- The runs over a list of chunks that is not empty. -/
theorem cipherAll_cons_eq_some {cipher : BufferCipher W} {ivBuffer ikBuffer c : Bytes}
    {cs : List Bytes} {w w' : W} {outs : List (Option Bytes)} :
    cipherAll cipher ivBuffer ikBuffer (c :: cs) w = some (outs, w') ↔
      ∃ o w₁ os, cipher c ivBuffer ikBuffer w = some (o, w₁) ∧
        cipherAll cipher ivBuffer ikBuffer cs w₁ = some (os, w') ∧ outs = o :: os := by
  rw [cipherAll_cons, Option.bind_eq_some_iff]
  constructor
  · rintro ⟨⟨o, w₁⟩, ho, h⟩
    obtain ⟨⟨os, w₂⟩, hos, heq⟩ := Option.map_eq_some_iff.1 h
    obtain ⟨rfl, rfl⟩ := Prod.mk.inj heq
    exact ⟨o, w₁, os, ho, hos, rfl⟩
  · rintro ⟨o, w₁, os, ho, hos, rfl⟩
    exact ⟨(o, w₁), ho, Option.map_eq_some_iff.2 ⟨(os, w'), hos, rfl⟩⟩

theorem cipherAll_chunks_of_le {cipher : BufferCipher W} (hn : 0 < n) {c iv ik : Bytes}
    (hc : c ≠ []) (hle : c.length ≤ n) {o : Option Bytes} {w w' : W}
    (h : cipher c iv ik w = some (o, w')) :
    cipherAll cipher iv ik (c.chunks n) w = some ([o], w') := by
  rw [List.chunks_of_length_le hn hc hle]
  exact cipherAll_cons_eq_some.2 ⟨o, w', [], h, cipherAll_nil _, rfl⟩

/-- What holds of every single call holds between the chunks and the outcomes. -/
theorem forall₂_of_cipherAll {cipher : BufferCipher W} {ivBuffer ikBuffer : Bytes}
    {R : Bytes → Option Bytes → Prop}
    (hR : ∀ c w o w', cipher c ivBuffer ikBuffer w = some (o, w') → R c o) {cs : List Bytes}
    {w w' : W} {outs : List (Option Bytes)}
    (h : cipherAll cipher ivBuffer ikBuffer cs w = some (outs, w')) : List.Forall₂ R cs outs := by
  induction cs generalizing w outs with
  | nil =>
    obtain ⟨rfl, -⟩ : [] = outs ∧ w = w' := by simpa [cipherAll_nil] using h
    exact .nil
  | cons c cs ih =>
    obtain ⟨o, w₁, os, ho, hos, rfl⟩ := cipherAll_cons_eq_some.1 h
    exact .cons (hR c w o w₁ ho) (ih hos)

theorem length_of_cipherAll {cipher : BufferCipher W} {ivBuffer ikBuffer : Bytes}
    {cs : List Bytes} {w w' : W} {outs : List (Option Bytes)}
    (h : cipherAll cipher ivBuffer ikBuffer cs w = some (outs, w')) : outs.length = cs.length :=
  (forall₂_of_cipherAll (R := fun _ _ => True) (fun _ _ _ _ _ => trivial) h).length_eq.symm

/-- The results in the record of the calls are the outcomes of the cipher. -/
theorem map_result_zipWith {cs : List Bytes} {outs : List (Option Bytes)}
    (hlen : outs.length = cs.length) (ivBuffer ikBuffer : Bytes) :
    (cs.zipWith (fun c o => CipherCall.mk dir alg c ivBuffer ikBuffer o) outs).map
      CipherCall.result = outs := by
  rw [List.map_zipWith]
  induction cs generalizing outs with
  | nil => rw [List.eq_nil_of_length_eq_zero hlen, List.zipWith_nil_right]
  | cons c cs ih =>
    cases outs with
    | nil => simp at hlen
    | cons o outs => rw [List.zipWith_cons_cons, ih (by simpa using hlen)]

/-- The runs in which the input file can be opened, with a record of their calls. -/
theorem crypt_recorded_eq_some (hn : IsChunkSize n) {fileInput : Path} {d : Disk}
    (h : (IfStream.new fileInput d).1.good = true) {fileOutput iv ik : Bytes} {w : W}
    {code : Except Unit ℤ} {s' : Sys (W × List CipherCall)} :
    crypt (recorded ciphers dir) alg.mode fileInput fileOutput iv ik n ⟨d, (w, [])⟩ =
        some (code, s') ↔
      ∃ outs w', cipherAll (ciphers dir alg) (toBuffer iv 16) (toBuffer ik 16)
          ((seenContent d fileInput fileOutput).chunks n) w = some (outs, w') ∧
        code = .ok (if (writeFile fileOutput (outs.map fun o => o.getD [])
          (IfStream.new fileInput d).2).1 then 1 else -69) ∧
        s' = ⟨(writeFile fileOutput (outs.map fun o => o.getD []) (IfStream.new fileInput d).2).2,
          w', ((seenContent d fileInput fileOutput).chunks n).zipWith
            (fun c o => ⟨dir, alg, c, toBuffer iv 16, toBuffer ik 16, o⟩) outs⟩ := by
  rw [crypt_eq hn h, cipherAll_recorded, Option.map_map, Option.map_eq_some_iff]
  constructor
  · rintro ⟨⟨outs, w'⟩, hall, heq⟩
    obtain ⟨rfl, rfl⟩ := Prod.mk.inj heq
    exact ⟨outs, w', hall, rfl, rfl⟩
  · rintro ⟨outs, w', hall, rfl, rfl⟩
    exact ⟨(outs, w'), hall, rfl⟩

end Behh
