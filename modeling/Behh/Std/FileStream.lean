import Behh.Std.Bytes
import Mathlib.Logic.Function.Basic

/-!
# Files and file streams

The disk as a map from paths to contents, and the parts of `std::ifstream` and `std::ofstream`
that the repository uses. A stream is opened through the `c_str()` of a string, so that a path ends
in front of a NUL in the string. Opening a file and passing bytes to it are operations that can
fail; which of them do is told by a schedule of faults, so that a statement about every disk is one
about every pattern of failures.

An input stream sees the content that the file has when it reads, and reading from an open file
does not fail. An output stream empties the file when it is opened. It keeps what is written in a
buffer of bounded size, and passes it to the file when the buffer would overflow and when it is
destroyed; a failure in the destructor is seen by nobody.

## Main definitions

* `Disk`: contents, and the schedule of faults.
* `IfStream`, `OfStream`: the streams.
* `OfStream.writeAll`, `writeFile`: a sequence of writes, alone and on a new file.
* `Disk.Faultless`: no operation fails.
* `transfers`, `Disk.Refuses`: how often a buffer is passed on, and a fault at one of these times.

## Main results

* `OfStream.write_files`: other files are left alone.
* `writeFile_refused_iff`: the faults that make a stream refuse a write.
* `writeFile_of_faultless`: without faults the file holds what was written.
-/

namespace Behh

/-- A path, or a string that is used as one. -/
abbrev Path : Type := Bytes

/-- A disk, with the faults of the operations on it. -/
structure Disk where
  /-- The contents of the files. -/
  files : Path → Option Bytes
  /-- The fault of an operation, by its number: the number of bytes it still gets done. -/
  fault : ℕ → Option ℕ
  /-- The number of operations so far. -/
  clock : ℕ
  /-- The size of the buffer of an output stream. -/
  cap : ℕ

namespace Disk

/-- The fault of the next operation. -/
def nextFault (d : Disk) : Option ℕ := d.fault d.clock

/-- The disk after an operation that leaves the files `files`. -/
def step (d : Disk) (files : Path → Option Bytes) : Disk :=
  { d with files := files, clock := d.clock + 1 }

/-- The content that a reader of a path sees. -/
def content (d : Disk) (path : Path) : Bytes := (d.files path).getD []

/-- The disk after an operation that gives a file a new content. -/
def put (d : Disk) (path : Path) (data : Bytes) : Disk :=
  d.step (Function.update d.files path (some data))

/-- No operation fails. -/
def Faultless (d : Disk) : Prop := ∀ k, d.fault k = none

/-- A disk without faults that holds one file. -/
def single (path : Path) (data : Bytes) : Disk where
  files := Function.update (fun _ => none) (cString path) (some data)
  fault _ := none
  clock := 0
  cap := 8191

theorem faultless_single (path : Path) (data : Bytes) : (single path data).Faultless :=
  fun _ => rfl

@[simp] theorem single_files (path : Path) (data : Bytes) :
    (single path data).files (cString path) = some data := by
  simp [single]

@[simp] theorem put_files_self (d : Disk) (path : Path) (data : Bytes) :
    (d.put path data).files path = some data := Function.update_self ..

@[simp] theorem put_content_self (d : Disk) (path : Path) (data : Bytes) :
    (d.put path data).content path = data := by
  rw [content, put_files_self, Option.getD_some]

theorem put_files_of_ne (d : Disk) {path q : Path} (data : Bytes) (h : q ≠ path) :
    (d.put path data).files q = d.files q := Function.update_of_ne h ..

theorem Faultless.nextFault {d : Disk} (h : d.Faultless) : d.nextFault = none := h _

theorem Faultless.step {d : Disk} (h : d.Faultless) (files : Path → Option Bytes) :
    (d.step files).Faultless := h

theorem Faultless.put {d : Disk} (h : d.Faultless) (path : Path) (data : Bytes) :
    (d.put path data).Faultless := h

end Disk

/-! ### Input streams -/

/-- A `std::ifstream`. -/
structure IfStream where
  /-- The path. -/
  path : Path
  /-- The position of the next read. -/
  pos : ℕ
  /-- The value of the stream as a condition: neither opening nor a read has failed. -/
  good : Bool

/-- `std::ifstream file_in(path, std::ios::binary);`. -/
def IfStream.new (path : Path) (d : Disk) : IfStream × Disk :=
  (⟨cString path, 0, d.nextFault.isNone && (d.files (cString path)).isSome⟩, d.step d.files)

/-- `file_in.read(p, n)`: the bytes read, as many as `gcount()` tells. A read that gets fewer than
`n` bytes fails the stream. -/
def IfStream.read (s : IfStream) (n : ℕ) (d : Disk) : Bytes × IfStream :=
  if s.good then
    let got := ((d.content s.path).drop s.pos).take n
    (got, { s with pos := s.pos + got.length, good := got.length = n })
  else ([], s)

/-- What is left to read, all of it. -/
def IfStream.rest (s : IfStream) (d : Disk) : Bytes := (d.content s.path).drop s.pos

/-! ### Output streams -/

/-- A `std::ofstream`. -/
structure OfStream where
  /-- The path. -/
  path : Path
  /-- What has been written and not passed to the file. -/
  buffer : Bytes
  /-- The value of the stream as a condition: nothing has failed so far. -/
  good : Bool

/-- `std::ofstream file_out(path, std::ios::binary);`. -/
def OfStream.new (path : Path) (d : Disk) : OfStream × Disk :=
  match d.nextFault with
  | none => (⟨cString path, [], true⟩, d.put (cString path) [])
  | some _ => (⟨cString path, [], false⟩, d.step d.files)

/-- The buffer and `data` are passed to the file. -/
def OfStream.transfer (s : OfStream) (data : Bytes) (d : Disk) : OfStream × Disk :=
  match d.nextFault with
  | none => ({ s with buffer := [] }, d.put s.path (d.content s.path ++ (s.buffer ++ data)))
  | some k =>
    ({ s with buffer := [], good := false },
      d.put s.path (d.content s.path ++ (s.buffer ++ data).take k))

/-- `file_out.write(data.data(), data.size())`. -/
def OfStream.write (s : OfStream) (data : Bytes) (d : Disk) : OfStream × Disk :=
  if s.good then
    if s.buffer.length + data.length ≤ d.cap then ({ s with buffer := s.buffer ++ data }, d)
    else s.transfer data d
  else (s, d)

/-- The destructor: what is left in the buffer is passed to the file. -/
def OfStream.close (s : OfStream) (d : Disk) : Disk :=
  if s.good ∧ s.buffer ≠ [] then (s.transfer [] d).2 else d

/-- Writes one after the other; the flag `isOk` is cleared by a write after which the stream is
not good. -/
def OfStream.writeAll (s : OfStream) (isOk : Bool) : List Bytes → Disk → (OfStream × Bool) × Disk
  | [], d => ((s, isOk), d)
  | data :: rest, d => writeAll (s.write data d).1 (isOk && (s.write data d).1.good) rest
      (s.write data d).2

/-- A new file, written and closed. -/
def writeFile (path : Path) (datas : List Bytes) (d : Disk) : Bool × Disk :=
  let opened := OfStream.new path d
  let written := opened.1.writeAll true datas opened.2
  (written.1.2, written.1.1.close written.2)

/-! ### Other files -/

theorem OfStream.transfer_files_of_ne (s : OfStream) (data : Bytes) (d : Disk) {q : Path}
    (h : q ≠ s.path) : (s.transfer data d).2.files q = d.files q := by
  rw [transfer]
  split <;> exact Disk.put_files_of_ne _ _ h

theorem OfStream.write_path (s : OfStream) (data : Bytes) (d : Disk) :
    (s.write data d).1.path = s.path := by
  rw [write]
  split_ifs
  · rfl
  · rw [transfer]
    split <;> rfl
  · rfl

/-- A write changes no other file, and none at all when the stream is not good. -/
theorem OfStream.write_files (s : OfStream) (data : Bytes) (d : Disk) {q : Path}
    (h : q ≠ s.path ∨ s.good = false) : (s.write data d).2.files q = d.files q := by
  rw [write]
  split_ifs with hgood
  · rfl
  · rcases h with h | h
    · exact s.transfer_files_of_ne data d h
    · rw [hgood] at h
      cases h
  · rfl

theorem OfStream.writeAll_files (s : OfStream) (isOk : Bool) (datas : List Bytes) (d : Disk)
    {q : Path} (h : q ≠ s.path) :
    (s.writeAll isOk datas d).2.files q = d.files q ∧
      (s.writeAll isOk datas d).1.1.path = s.path := by
  induction datas generalizing s isOk d with
  | nil => exact ⟨rfl, rfl⟩
  | cons data rest ih =>
    have hpath := s.write_path data d
    obtain ⟨hfiles, hsame⟩ := ih (s.write data d).1 (isOk && (s.write data d).1.good)
      (s.write data d).2 (by rwa [hpath])
    exact ⟨hfiles.trans (s.write_files data d (Or.inl h)), hsame.trans hpath⟩

theorem OfStream.new_path (path : Path) (d : Disk) :
    (OfStream.new path d).1.path = cString path := by
  rw [OfStream.new]
  split <;> rfl

theorem writeFile_files_of_ne (path : Path) (datas : List Bytes) (d : Disk) {q : Path}
    (h : q ≠ cString path) : (writeFile path datas d).2.files q = d.files q := by
  have hpath := OfStream.new_path path d
  obtain ⟨hfiles, hsame⟩ := OfStream.writeAll_files (OfStream.new path d).1 true datas
    (OfStream.new path d).2 (by rwa [hpath])
  have hnew : (OfStream.new path d).2.files q = d.files q := by
    rw [OfStream.new]
    split
    · exact Disk.put_files_of_ne _ _ h
    · rfl
  rw [writeFile, OfStream.close]
  split_ifs
  · rw [OfStream.transfer_files_of_ne _ _ _ (by rwa [hsame, hpath]), hfiles, hnew]
  · rw [hfiles, hnew]

theorem OfStream.write_good (s : OfStream) (data : Bytes) (d : Disk) (h : s.good = false) :
    (s.write data d).1.good = false := by
  rw [write, if_neg (by simp [h])]
  exact h

/-! ### Refused writes -/

/-- How often a buffer of size `cap` with `k` bytes in it is passed on by writes of the lengths
`lens`. -/
def transfers (cap : ℕ) : ℕ → List ℕ → ℕ
  | _, [] => 0
  | k, l :: lens => if k + l ≤ cap then transfers cap (k + l) lens else transfers cap 0 lens + 1

/-- A new file, opened as operation number `clock` and given writes of the lengths `lens`, meets a
fault before it is closed: when it is opened, or at one of the times its buffer is passed on. -/
def Disk.Refuses (d : Disk) (clock : ℕ) (lens : List ℕ) : Prop :=
  d.fault clock ≠ none ∨ ∃ i < transfers d.cap 0 lens, d.fault (clock + 1 + i) ≠ none

theorem OfStream.writeAll_false (s : OfStream) (datas : List Bytes) (d : Disk) :
    (s.writeAll false datas d).1.2 = false := by
  induction datas generalizing s d with
  | nil => rfl
  | cons data rest ih => exact ih _ _

/-- Writes to a good stream are accepted when no operation fails while they are made. -/
theorem OfStream.writeAll_accepted_iff {s : OfStream} (hgood : s.good = true)
    (datas : List Bytes) (d : Disk) :
    (s.writeAll true datas d).1.2 = true ↔
      ∀ i < transfers d.cap s.buffer.length (datas.map List.length),
        d.fault (d.clock + i) = none := by
  induction datas generalizing s d with
  | nil => simp [writeAll, transfers]
  | cons data rest ih =>
    obtain ⟨path, buffer, good⟩ := s
    obtain rfl : good = true := hgood
    rw [writeAll, write, if_pos rfl, List.map_cons, transfers]
    split_ifs with hfit
    · rw [← List.length_append]
      exact @ih ⟨path, buffer ++ data, true⟩ rfl d
    · rw [Nat.forall_lt_succ_left, transfer, Disk.nextFault, Nat.add_zero]
      cases hfault : d.fault d.clock with
      | none =>
        have hrest := @ih ⟨path, [], true⟩ rfl (d.put path (d.content path ++ (buffer ++ data)))
        rw [and_iff_right rfl]
        refine hrest.trans (forall₂_congr fun i _ => ?_)
        rw [Nat.add_comm i 1, ← Nat.add_assoc]
        rfl
      | some k => simp [writeAll_false]

/-- **Refused writes.** A write to a new file is refused when there is one and a fault comes
before the file is closed. -/
theorem writeFile_refused_iff (path : Path) (datas : List Bytes) (d : Disk) :
    (writeFile path datas d).1 = false ↔
      datas ≠ [] ∧ d.Refuses d.clock (datas.map List.length) := by
  rw [writeFile, OfStream.new, Disk.Refuses, Disk.nextFault]
  cases hfault : d.fault d.clock with
  | none =>
    have haccepted : _ ↔ ∀ i < transfers d.cap 0 (datas.map List.length),
        d.fault (d.clock + 1 + i) = none :=
      @OfStream.writeAll_accepted_iff ⟨cString path, [], true⟩ rfl datas (d.put (cString path) [])
    rw [← Bool.not_eq_true, haccepted]
    constructor
    · intro h
      push Not at h
      refine ⟨?_, Or.inr h⟩
      rintro rfl
      obtain ⟨i, hi, -⟩ := h
      exact Nat.not_lt_zero i hi
    · rintro ⟨-, hopen | ⟨i, hi, hne⟩⟩ h
      · exact hopen rfl
      · exact hne (h i hi)
  | some k =>
    cases datas with
    | nil => simp [OfStream.writeAll]
    | cons data rest => simp [OfStream.writeAll, OfStream.write, OfStream.writeAll_false]

/-! ### The number of operations -/

theorem IfStream.rest_new (path : Path) (d : Disk) :
    (IfStream.new path d).1.rest (IfStream.new path d).2 = d.content (cString path) :=
  List.drop_zero

/-- The stream is good, and its file with its buffer behind it make up `data`. -/
structure OfStream.Holds (s : OfStream) (d : Disk) (data : Bytes) : Prop where
  good : s.good = true
  files : ∃ c, d.files s.path = some c ∧ c ++ s.buffer = data

theorem OfStream.holds_new {d : Disk} (hd : d.Faultless) (path : Path) :
    (OfStream.new path d).1.Holds (OfStream.new path d).2 [] := by
  rw [OfStream.new, hd.nextFault]
  exact ⟨rfl, [], Disk.put_files_self .., rfl⟩

theorem OfStream.Holds.write {s : OfStream} {d : Disk} {data : Bytes} (hd : d.Faultless)
    (h : s.Holds d data) (more : Bytes) :
    (s.write more d).1.Holds (s.write more d).2 (data ++ more) ∧ (s.write more d).2.Faultless := by
  obtain ⟨hgood, c, hc, rfl⟩ := h
  rw [OfStream.write, if_pos hgood]
  split_ifs
  · exact ⟨⟨hgood, c, hc, (List.append_assoc ..).symm⟩, hd⟩
  · rw [transfer, hd.nextFault]
    refine ⟨⟨hgood, _, Disk.put_files_self .., ?_⟩, hd.put _ _⟩
    rw [Disk.content, hc, Option.getD_some, List.append_nil, List.append_assoc]

/-- A sequence of writes without faults is accepted, and its bytes are held at its end. -/
theorem OfStream.Holds.writeAll {s : OfStream} {d : Disk} {data : Bytes} (hd : d.Faultless)
    (h : s.Holds d data) (datas : List Bytes) :
    (s.writeAll true datas d).1.2 = true ∧
      (s.writeAll true datas d).1.1.Holds (s.writeAll true datas d).2 (data ++ datas.flatten) ∧
      (s.writeAll true datas d).1.1.path = s.path ∧ (s.writeAll true datas d).2.Faultless := by
  induction datas generalizing s d data with
  | nil => exact ⟨rfl, by rwa [List.flatten_nil, List.append_nil], rfl, hd⟩
  | cons more rest ih =>
    obtain ⟨hholds, hfaultless⟩ := h.write hd more
    obtain ⟨hok, hall, hpath, hd'⟩ := ih hfaultless hholds
    rw [OfStream.writeAll, hholds.good, Bool.and_true, List.flatten_cons, ← List.append_assoc]
    exact ⟨hok, hall, hpath.trans (s.write_path more d), hd'⟩

/-- The destructor passes on what is left. -/
theorem OfStream.Holds.close {s : OfStream} {d : Disk} {data : Bytes} (hd : d.Faultless)
    (h : s.Holds d data) : (s.close d).files s.path = some data := by
  obtain ⟨hgood, c, hc, rfl⟩ := h
  rw [OfStream.close]
  split_ifs with hbuffer
  · rw [transfer, hd.nextFault, Disk.put_files_self, Disk.content, hc, Option.getD_some,
      List.append_nil]
  · rw [hc, not_not.1 fun hne => hbuffer ⟨hgood, hne⟩, List.append_nil]

theorem OfStream.close_faultless {s : OfStream} {d : Disk} (hd : d.Faultless) :
    (s.close d).Faultless := by
  rw [OfStream.close]
  split_ifs
  · rw [transfer, hd.nextFault]
    exact hd.put _ _
  · exact hd

/-- **A file written without faults** holds what was written, and every write is accepted. -/
theorem writeFile_of_faultless {d : Disk} (hd : d.Faultless) (path : Path) (datas : List Bytes) :
    (writeFile path datas d).1 = true ∧ (writeFile path datas d).2.Faultless ∧
      (writeFile path datas d).2.files (cString path) = some datas.flatten := by
  have hnew := OfStream.holds_new hd path
  have hd₁ : (OfStream.new path d).2.Faultless := by
    rw [OfStream.new, hd.nextFault]
    exact hd.put _ _
  have hpath := OfStream.new_path path d
  obtain ⟨hok, hall, hsame, hd₂⟩ := hnew.writeAll hd₁ datas
  have hclose := hall.close hd₂
  rw [hsame, hpath] at hclose
  exact ⟨hok, OfStream.close_faultless hd₂, hclose⟩

/-! ### Programs that work on files -/

variable {W : Type}

/-- The state of a program that works on files and calls the library. -/
structure Sys (W : Type) where
  /-- The disk. -/
  disk : Disk
  /-- The state of the library. -/
  lib : W

/-- A program on the disk. -/
def onDisk {α : Type} (x : Disk → α × Disk) : Prog (Sys W) α :=
  Prog.zoom Sys.disk (fun d s => { s with disk := d }) (Prog.call x)

/-- A program on the library. -/
def onLib {α : Type} (x : Prog W α) : Prog (Sys W) α :=
  Prog.zoom Sys.lib (fun w s => { s with lib := w }) x

@[simp] theorem onDisk_apply {α : Type} (x : Disk → α × Disk) (s : Sys W) :
    onDisk x s = some ((x s.disk).1, { s with disk := (x s.disk).2 }) := rfl

@[simp] theorem onLib_apply {α : Type} (x : Prog W α) (s : Sys W) :
    onLib x s = (x s.lib).map fun r => (r.1, { s with lib := r.2 }) := rfl

end Behh
