import Behh.Library.Loops
import Behh.Utility.FileCrypt

/-!
# Files read into buffers, and written from them

`read::file_to_buffer` and `write::file_from_buffer` of `src/utility.cc`, lines 985–1028, and when
the loops end that read a file in pieces: the one of `read::file_to_buffer` and those of
`file::encrypt` and `file::decrypt`.

The scratch buffer is used again for every piece, so that a short piece comes in front of what is
left of the one before. It is made when the file has been opened, and when no vector is as long as
the pieces the function throws. The loop runs until the stream fails, and is granted a number of
iterations.

## Main definitions

* `fileToBuffer`, `fileFromBuffer`: the functions.
* `CryptLoopEnds`: the loop of `file::encrypt`, or `file::decrypt`, in one of the modes ends.

## Main results

* `readLoop_eq`: the loop appends what is left of the file.
* `fileToBuffer_fileFromBuffer`: what has been written is read again, unless the function throws.
* `crypt_zero`: `file::encrypt` and `file::decrypt` with pieces of no size.
* `chunkLoops_end_iff`: when the loops end.
-/

namespace Behh

/-! ### The functions -/

/-- The locals of the loop. -/
structure ReadLocals where
  /-- `file`. -/
  file : IfStream
  /-- `buffer`. -/
  buffer : Bytes
  /-- `buffer_data`. -/
  bufferData : Bytes

/-- One iteration of the loop. -/
def readStep (chunkSize : ℕ) (st : ReadLocals) : Prog Disk ReadLocals := do
  let (got, file) ← Prog.call fun d => (st.file.read chunkSize d, d)
  let buffer := got ++ st.buffer.drop got.length
  let bytes := got.length
  if bytes > 0 then return ⟨file, buffer, st.bufferData ++ buffer.take bytes⟩
  else return { st with file := file, buffer := buffer }

/-- `while (file) { ... }`, granted `fuel` iterations. -/
def readLoop (chunkSize fuel : ℕ) (st : ReadLocals) : Prog Disk ReadLocals :=
  Prog.whileLoop (fun st => st.file.good) (readStep chunkSize) fuel st

/-- `read::file_to_buffer`: the code, or the exception of the scratch buffer, and what the
destination has become. -/
def fileToBuffer (fuel : ℕ) (filePath bufferData : Bytes) (chunkSize : ℕ) :
    Prog Disk (Except Unit ℤ × Bytes) := do
  let file ← Prog.call (IfStream.new filePath)
  if !file.good then
    return (.ok (-1), [])
  match newBuffer chunkSize with
  | .error e => return (.error e, bufferData)
  | .ok buffer =>
    let st ← readLoop chunkSize fuel ⟨file, buffer, bufferData⟩
    return (.ok 1, st.bufferData)

/-- `write::file_from_buffer`. -/
def fileFromBuffer (filePath bufferData : Bytes) (d : Disk) : ℤ × Disk :=
  let (file, d) := OfStream.new filePath d
  if !file.good then (-1, file.close d)
  else
    let (file, d) := file.write bufferData d
    if !file.good then (-2, file.close d)
    else (1, file.close d)

/-! ### Reading -/

variable {n : ℕ} {d : Disk}

theorem readStep_eq {st : ReadLocals} (hgood : st.file.good = true) {left : Bytes}
    (hleft : (d.content st.file.path).drop st.file.pos = left) :
    ∃ buffer, readStep n st d =
      some (⟨st.file.advance left n, buffer, st.bufferData ++ left.take n⟩, d) := by
  refine ⟨left.take n ++ st.buffer.drop (left.take n).length, ?_⟩
  rw [readStep, Prog.bind_apply, Prog.call_apply, Option.bind_some, IfStream.read, if_pos hgood,
    hleft]
  dsimp only
  split_ifs with hbytes
  · rw [List.take_left]
    rfl
  · have hnil : left.take n = [] := List.eq_nil_of_length_eq_zero (by omega)
    rw [IfStream.advance, hnil, List.append_nil]
    rfl

/-- **The loop appends what is left of the file**, whatever the scratch buffer holds. -/
theorem readLoop_eq (hn : 0 < n) {fuel : ℕ} {st : ReadLocals} (hgood : st.file.good = true)
    {left : Bytes} (hleft : (d.content st.file.path).drop st.file.pos = left)
    (hfuel : left.length < fuel) :
    ∃ st', readLoop n fuel st d = some (st', d) ∧ st'.bufferData = st.bufferData ++ left := by
  induction fuel generalizing st left with
  | zero => exact absurd hfuel (Nat.not_lt_zero _)
  | succ fuel ih =>
    obtain ⟨buffer, hstep⟩ := readStep_eq (n := n) hgood hleft
    rw [readLoop, Prog.whileLoop_succ_of_true (b := st) hgood, Prog.bind_apply, hstep,
      Option.bind_some]
    by_cases hfull : (left.take n).length = n
    · -- The stream has not failed, and `left.drop n` is left to read.
      have hleft' := st.file.rest_advance rfl hleft n
      have hlen : (left.drop n).length < fuel := by
        rw [List.length_take] at hfull
        rw [List.length_drop]
        omega
      obtain ⟨st', hrun, hdata⟩ := @ih ⟨st.file.advance left n, buffer, _⟩
        (by simpa [IfStream.advance] using hfull) (left.drop n) hleft' hlen
      refine ⟨st', hrun, ?_⟩
      rw [hdata, List.append_assoc, List.take_append_drop]
    · -- The stream has failed on the last piece.
      have htake : left.take n = left := by
        rw [List.length_take] at hfull
        exact List.take_of_length_le (by omega)
      refine ⟨_, congrFun (Prog.whileLoop_of_false ?_ fuel) d, congrArg _ htake⟩
      simpa [IfStream.advance] using hfull

theorem fileToBuffer_of_not_good {filePath : Path} (h : (IfStream.new filePath d).1.good = false)
    (fuel : ℕ) (bufferData : Bytes) (chunkSize : ℕ) :
    fileToBuffer fuel filePath bufferData chunkSize d =
      some ((.ok (-1), []), (IfStream.new filePath d).2) := by
  simp [fileToBuffer, h]

/-- Without a scratch buffer the function throws, and the destination is as it was. -/
theorem fileToBuffer_of_le (hn : 2 ^ 63 ≤ n) {filePath : Path}
    (h : (IfStream.new filePath d).1.good = true) (fuel : ℕ) (bufferData : Bytes) :
    fileToBuffer fuel filePath bufferData n d =
      some ((.error (), bufferData), (IfStream.new filePath d).2) := by
  simp [fileToBuffer, h, newBuffer_of_le hn]

/-- The function is its loop, when the file can be opened and there is a scratch buffer. -/
theorem fileToBuffer_of_good (hn : n < 2 ^ 63) {filePath : Path}
    (h : (IfStream.new filePath d).1.good = true) (fuel : ℕ) (bufferData : Bytes) :
    fileToBuffer fuel filePath bufferData n d =
      (readLoop n fuel ⟨(IfStream.new filePath d).1, List.replicate n 0, bufferData⟩
        (IfStream.new filePath d).2).map fun r => ((.ok 1, r.1.bufferData), r.2) := by
  simp only [fileToBuffer, newBuffer_of_lt hn, Prog.bind_apply, Prog.call_apply, Option.bind_some,
    h, Bool.not_true, Bool.false_eq_true, if_false, Option.map_eq_bind]
  rfl

/-- **Reading a file.** With enough iterations, the content is appended. -/
theorem fileToBuffer_eq (hn : IsChunkSize n) {filePath : Path}
    (h : (IfStream.new filePath d).1.good = true) (bufferData : Bytes) {fuel : ℕ}
    (hfuel : (d.content (cString filePath)).length < fuel) :
    fileToBuffer fuel filePath bufferData n d =
      some ((.ok 1, bufferData ++ d.content (cString filePath)),
        (IfStream.new filePath d).2) := by
  obtain ⟨st, hrun, hdata⟩ := @readLoop_eq n (IfStream.new filePath d).2 hn.pos fuel
    ⟨(IfStream.new filePath d).1, List.replicate n 0, bufferData⟩ h
    (d.content (cString filePath)) rfl hfuel
  rw [fileToBuffer_of_good hn.lt h, hrun, Option.map_some, hdata]

/-! ### Reading what has been written -/

/-- **Writing a file.** Without faults the result is 1, and the file holds the buffer. -/
theorem fileFromBuffer_of_faultless (hd : d.Faultless) (filePath bufferData : Bytes) :
    (fileFromBuffer filePath bufferData d).1 = 1 ∧
      (fileFromBuffer filePath bufferData d).2.Faultless ∧
      (fileFromBuffer filePath bufferData d).2.files (cString filePath) = some bufferData := by
  have hopen := OfStream.holds_new hd filePath
  have hpath := OfStream.new_path filePath d
  have hd₁ : (OfStream.new filePath d).2.Faultless := by
    rw [OfStream.new, hd.nextFault]
    exact hd.put _ _
  obtain ⟨hwritten, hd₂⟩ := hopen.write hd₁ bufferData
  have hsame := (OfStream.new filePath d).1.write_path bufferData (OfStream.new filePath d).2
  have hclose := hwritten.close hd₂
  have hrun : fileFromBuffer filePath bufferData d = (1, ((OfStream.new filePath d).1.write
      bufferData (OfStream.new filePath d).2).1.close ((OfStream.new filePath d).1.write
        bufferData (OfStream.new filePath d).2).2) := by
    simp only [fileFromBuffer, hopen.good, hwritten.good, Bool.not_true, Bool.false_eq_true,
      if_false]
  rw [hsame, hpath, List.nil_append] at hclose
  rw [hrun]
  exact ⟨rfl, OfStream.close_faultless hd₂, hclose⟩

/-- **What has been written is read again**, without faults and in pieces of any size: behind the
old content of the destination, and nothing else. Pieces that are longer than a vector make the
function throw, and the destination is as it was. -/
theorem fileToBuffer_fileFromBuffer (d : Disk) (hd : d.Faultless) (filePath b old : Bytes)
    (chunkSize : ℕ) (hchunk : 1 ≤ chunkSize) :
    (fileFromBuffer filePath b d).1 = 1 ∧ ∀ fuel > b.length, ∃ d',
      fileToBuffer fuel filePath old chunkSize (fileFromBuffer filePath b d).2 =
        some (if chunkSize < 2 ^ 63 then (.ok 1, old ++ b) else (.error (), old), d') := by
  obtain ⟨hcode, hd', hfile⟩ := fileFromBuffer_of_faultless hd filePath b
  refine ⟨hcode, fun fuel hfuel => ?_⟩
  have hgood := IfStream.good_new hd' hfile
  split_ifs with hsize
  · have hcontent : (fileFromBuffer filePath b d).2.content (cString filePath) = b := by
      rw [Disk.content, hfile, Option.getD_some]
    have hlong : ((fileFromBuffer filePath b d).2.content (cString filePath)).length < fuel := by
      rwa [hcontent]
    have hread := fileToBuffer_eq ⟨hchunk, hsize⟩ hgood old hlong
    rw [hcontent] at hread
    exact ⟨_, hread⟩
  · exact ⟨_, fileToBuffer_of_le (not_lt.1 hsize) hgood fuel old⟩

/-- Pieces of two bytes, the last of them short. -/
theorem fileToBuffer_fileFromBuffer_abc :
    (fileFromBuffer (str "f") (str "abc") (Disk.single (str "g") [])).1 = 1 ∧
      ∀ fuel > (str "abc").length, ∃ d',
        fileToBuffer fuel (str "f") (str "old") 2
            (fileFromBuffer (str "f") (str "abc") (Disk.single (str "g") [])).2 =
          some (if 2 < 2 ^ 63 then (.ok 1, str "old" ++ str "abc") else (.error (), str "old"),
            d') :=
  fileToBuffer_fileFromBuffer (Disk.single (str "g") []) (Disk.faultless_single _ _) (str "f")
    (str "abc") (str "old") 2 (by decide)

/-- Nothing is read in pieces of `2 ^ 63` bytes. -/
theorem fileToBuffer_throws :
    (fileFromBuffer (str "f") (str "abc") (Disk.single (str "g") [])).1 = 1 ∧
      ∀ fuel, ∃ d', fileToBuffer fuel (str "f") (str "old") (2 ^ 63)
          (fileFromBuffer (str "f") (str "abc") (Disk.single (str "g") [])).2 =
        some ((.error (), str "old"), d') := by
  obtain ⟨hcode, hd, hfile⟩ := fileFromBuffer_of_faultless
    (Disk.faultless_single (str "g") []) (str "f") (str "abc")
  exact ⟨hcode, fun fuel => ⟨_, fileToBuffer_of_le le_rfl (IfStream.good_new hd hfile) fuel _⟩⟩

/-! ### When the loops end -/

variable {W : Type}

/-- The loop that `file::encrypt`, or `file::decrypt`, enters in one of its modes, when there is a
scratch buffer and the input file can be opened. -/
def CryptLoopEnds (cipher : BufferCipher W) (fileInput fileOutput iv ik : Bytes) (chunkSize : ℕ)
    (s : Sys W) : Prop :=
  let fileIn := IfStream.new fileInput s.disk
  let fileOut := OfStream.new fileOutput fileIn.2
  chunkSize < 2 ^ 63 → fileIn.1.good = true →
    Prog.Ends (fun st => st.fileIn.good)
      (cryptStep cipher (toBuffer iv 16) (toBuffer ik 16) chunkSize)
      ⟨fileIn.1, fileOut.1, List.replicate chunkSize 0, true⟩ { s with disk := fileOut.2 }

variable {cipher : BufferCipher W} {ivBuffer ikBuffer : Bytes}

/-- The writes do not reach what is left of the file that is read. -/
def CryptLocals.Apart (st : CryptLocals) (s : Sys W) : Prop :=
  st.fileIn.rest s.disk ≠ [] → st.fileIn.path ≠ st.fileOut.path ∨ st.fileOut.good = false

/-- An iteration after which the loop goes on has read something. -/
theorem length_rest_lt_of_cryptStep (hn : 0 < n) {st st' : CryptLocals} {s s' : Sys W}
    (hapart : st.Apart s) (hgood : st.fileIn.good = true)
    (hstep : cryptStep cipher ivBuffer ikBuffer n st s = some (st', s'))
    (hgood' : st'.fileIn.good = true) :
    st'.Apart s' ∧ (st'.fileIn.rest s'.disk).length < (st.fileIn.rest s.disk).length := by
  by_cases hne : st.fileIn.rest s.disk = []
  · rw [cryptStep_nil hgood hne] at hstep
    obtain ⟨rfl, -⟩ := Prod.mk.inj (Option.some_inj.1 hstep)
    have hfull : ([].take n : Bytes).length = n := of_decide_eq_true hgood'
    rw [List.take_nil, List.length_nil] at hfull
    exact absurd hfull hn.ne
  · rw [cryptStep_of_ne_nil hn hgood rfl hne] at hstep
    obtain ⟨r, -, heq⟩ := Option.map_eq_some_iff.1 hstep
    obtain ⟨rfl, rfl⟩ := Prod.mk.inj heq
    have hfiles := st.fileOut.write_files (r.1.getD []) s.disk (hapart hne)
    have hrest := st.fileIn.rest_advance hfiles rfl n
    refine ⟨fun _ => ?_, ?_⟩
    · refine (hapart hne).imp (fun h => ?_) fun h => st.fileOut.write_good _ s.disk h
      rwa [← st.fileOut.write_path (r.1.getD []) s.disk] at h
    · have hpos := List.length_pos_iff.2 hne
      refine lt_of_eq_of_lt (congrArg List.length hrest) ?_
      rw [List.length_drop]
      omega

/-- With pieces of no size, an iteration changes nothing that the loop looks at. -/
theorem cryptStep_zero {st : CryptLocals} (hgood : st.fileIn.good = true) (s : Sys W) :
    ∃ st', cryptStep cipher ivBuffer ikBuffer 0 st s = some (st', s) ∧ st'.fileIn.good = true := by
  refine ⟨{ st with fileIn := st.fileIn.advance [] 0 }, ?_, rfl⟩
  simp only [cryptStep, IfStream.read, IfStream.advance, hgood, Prog.bind_apply, onDisk_apply,
    Option.bind_some, if_true, List.take_zero, List.take_nil, List.length_nil, gt_iff_lt, lt_irrefl,
    if_false, List.nil_append, List.drop_zero, Prog.pure_apply]

/-- The loop goes on for ever when the pieces have no size. -/
theorem running_cryptStep_zero {st : CryptLocals} (hgood : st.fileIn.good = true) (s : Sys W)
    (k : ℕ) : Prog.Running (fun st => st.fileIn.good)
      (cryptStep cipher ivBuffer ikBuffer 0) k st s := by
  refine Prog.running_of_invariant (fun st _ => st.fileIn.good = true) (fun _ _ h => h)
    (fun st s hst => ?_) hgood k
  obtain ⟨st', hstep, hst'⟩ := cryptStep_zero hst s
  exact ⟨st', s, hstep, hst'⟩

/-- The whole function, which grants the loop a number of iterations, has no outcome then. -/
theorem crypt_zero {ciphers : Alg → BufferCipher W} {fileInput : Path} {s : Sys W}
    (h : (IfStream.new fileInput s.disk).1.good = true) (alg : Alg) (fileOutput iv ik : Bytes) :
    crypt ciphers alg.mode fileInput fileOutput iv ik 0 s = none := by
  have harm : ∀ s' : Sys W, cryptArm (ciphers alg) (IfStream.new fileInput s.disk).1 fileOutput iv
      ik 0 (List.replicate 0 0) s' = none := by
    intro s'
    simp only [cryptArm, cryptLoop, Prog.bind_apply, onDisk_apply, Option.bind_some]
    rw [Prog.whileLoop_eq_none_of_running (running_cryptStep_zero h _ _), Option.bind_none]
  cases alg <;>
    simp only [crypt, newBuffer_of_lt (Nat.two_pow_pos 63), Alg.mode, Prog.bind_apply,
      onDisk_apply, Option.bind_some, h, Bool.not_true, Bool.false_eq_true, if_false, harm,
      Option.bind_none]

theorem cryptLoopEnds_iff (fileInput fileOutput iv ik : Bytes) (s : Sys W) :
    CryptLoopEnds cipher fileInput fileOutput iv ik n s ↔
      n ≠ 0 ∨ (IfStream.new fileInput s.disk).1.good = false := by
  constructor
  · intro h
    by_contra hboth
    rw [not_or, not_not, Bool.not_eq_false] at hboth
    obtain ⟨rfl, hgood⟩ := hboth
    exact Prog.not_ends_of_running (running_cryptStep_zero hgood _) (h (Nat.two_pow_pos 63) hgood)
  · intro h _ hgood
    have hn : 0 < n := Nat.pos_of_ne_zero (h.resolve_right (Bool.not_eq_false _ ▸ hgood))
    refine Prog.ends_of_variant CryptLocals.Apart (fun st s => (st.fileIn.rest s.disk).length) ?_ ?_
    · exact fun _ _ _ _ hapart hgood hstep => length_rest_lt_of_cryptStep hn hapart hgood hstep
    · exact content_of_new _ _ _

/-- The loop of `read::file_to_buffer` goes on for ever when the pieces have no size. -/
theorem readLoop_zero {st : ReadLocals} (hgood : st.file.good = true) (fuel : ℕ) (d : Disk) :
    readLoop 0 fuel st d = none := by
  refine Prog.whileLoop_eq_none_of_running
    (Prog.running_of_invariant (fun st _ => st.file.good = true) (fun _ _ h => h) ?_ hgood fuel)
  intro st d hst
  obtain ⟨buffer, hstep⟩ := readStep_eq (n := 0) hst (d := d) rfl
  exact ⟨_, d, hstep, rfl⟩

theorem fileToBuffer_ends_iff (filePath bufferData : Bytes) (d : Disk) :
    (∃ fuel, (fileToBuffer fuel filePath bufferData n d).isSome) ↔
      n ≠ 0 ∨ (IfStream.new filePath d).1.good = false := by
  constructor
  · rintro ⟨fuel, hfuel⟩
    by_contra hboth
    rw [not_or, not_not, Bool.not_eq_false] at hboth
    obtain ⟨rfl, hgood⟩ := hboth
    rw [fileToBuffer_of_good (Nat.two_pow_pos 63) hgood, readLoop_zero hgood] at hfuel
    cases hfuel
  · intro h
    cases hgood : (IfStream.new filePath d).1.good with
    | false => exact ⟨0, by rw [fileToBuffer_of_not_good hgood]; rfl⟩
    | true =>
      have hn : 0 < n := by
        rw [hgood] at h
        exact Nat.pos_of_ne_zero (h.resolve_right (by decide))
      rcases Nat.lt_or_ge n (2 ^ 63) with hlt | hle
      · exact ⟨_, by rw [fileToBuffer_eq ⟨hn, hlt⟩ hgood bufferData (Nat.lt_succ_self _)]; rfl⟩
      · exact ⟨0, by rw [fileToBuffer_of_le hle hgood]; rfl⟩

/-- **When the loops end.** For every disk with its faults and whatever the per-chunk ciphers do:
the five functions that read a file in pieces leave their loop, if they enter it, exactly when the
pieces have a size or the file cannot be opened. -/
theorem chunkLoops_end_iff (ciphers : Ciphers W) (chunkSize : ℕ) :
    (∀ filePath bufferData d,
        (∃ fuel, (fileToBuffer fuel filePath bufferData chunkSize d).isSome) ↔
          chunkSize ≠ 0 ∨ (IfStream.new filePath d).1.good = false) ∧
      ∀ dir alg fileInput fileOutput iv ik s,
        CryptLoopEnds (ciphers dir alg) fileInput fileOutput iv ik chunkSize s ↔
          chunkSize ≠ 0 ∨ (IfStream.new fileInput s.disk).1.good = false := by
  exact ⟨fileToBuffer_ends_iff, fun _ _ => cryptLoopEnds_iff⟩

/-- With pieces of no size, a file that can be opened is read for ever. -/
theorem fileToBuffer_zero_endless :
    ¬ ∃ fuel, (fileToBuffer fuel (str "f") [] 0 (Disk.single (str "f") (str "abc"))).isSome := by
  rw [fileToBuffer_ends_iff]
  rintro (h | h)
  · exact h rfl
  · exact absurd h (by decide)

end Behh
