import Behh.Utility.InPlace
import Behh.Utility.JsonGuards
import Behh.Utility.WrittenFiles

/-!
# Runs of file operations

`file_exists`, `read::file_to_buffer`, `write::file_from_buffer`, `file::encrypt`, `file::decrypt`
and the functions of `jsontao` that read and write files, in any order and on any paths.

Whatever fails, an operation changes its own file only, and never removes one. On a disk without
faults the streams with their buffers can be forgotten: the operations are those of a store that
maps paths to contents (`FileStore`), with the same answers, the exceptions of the scratch buffers
included. A path names the file that it names up to its first NUL.

## Main definitions

* `fileExists`: `file_exists`.
* `FileOp`, `FileOp.run`, `fileRun`: the operations, and a sequence of them.
* `FileOp.target`: the file that an operation may change.
* `FileStore`, `FileOp.onStore`, `storeRun`: the same on a store.

## Main results

* `op_disk`: what one operation does to a disk, whatever fails.
* `fileRun_frame`: what a run leaves alone, whatever fails.
* `fileRun_refines`: without faults, a run is one on a store.
* `fileRun_stage`, `fileRun_reads`: what is written stays, and what is written last is read.
* `fileRun_reads_buffer`, `fileRun_reads_json`: the same for bytes and for JSON values.
-/

namespace Behh

/-- `file_exists`. -/
def fileExists (filePath : Path) (d : Disk) : ℤ × Disk :=
  let (file, d) := IfStream.new filePath d
  (if file.good then 1 else -1, d)

/-! ### Operations -/

/-- A call of a function that works on files. -/
inductive FileOp (T : Type) where
  /-- `file_exists`. -/
  | fileExists (filePath : Path)
  /-- `read::file_to_buffer`. -/
  | fileToBuffer (filePath : Path) (bufferData : Bytes) (chunkSize : ℕ)
  /-- `write::file_from_buffer`. -/
  | fileFromBuffer (filePath : Path) (bufferData : Bytes)
  /-- `file::encrypt` and `file::decrypt`. -/
  | fileCrypt (dir : Dir) (mode : ℤ) (fileInput fileOutput : Path) (iv ik : Bytes) (chunkSize : ℕ)
  /-- `jsontao::from_csv_file`. -/
  | fromCsvFile (csvFilePath : Path)
  /-- `jsontao::from_json_file`. -/
  | fromJsonFile (jsonFilePath : Path)
  /-- `jsontao::save_to_csv`. -/
  | saveToCsv (input : T) (outputFilePath : Path)
  /-- `jsontao::save_to_json`. -/
  | saveToJson (input : T) (outputFilePath : Path) (indent : ℤ)

/-- What a function returns, or that it throws. -/
inductive FileAnswer (T : Type) where
  /-- A code, or an exception. -/
  | code (code : Except Unit ℤ)
  /-- A code, or an exception, and what the destination has become. -/
  | buffer (code : Except Unit ℤ) (bufferData : Bytes)
  /-- A JSON value. -/
  | value (value : T)

/-- A code that is returned. -/
def FileAnswer.ofCode {T : Type} (code : ℤ) : FileAnswer T := .code (.ok code)

/-- The file that an operation may change. -/
def FileOp.target {T : Type} : FileOp T → Option Path
  | fileFromBuffer filePath _ => some (cString filePath)
  | fileCrypt _ _ _ fileOutput _ _ _ => some (cString fileOutput)
  | saveToCsv _ outputFilePath => some (cString outputFilePath)
  | saveToJson _ outputFilePath _ => some (cString outputFilePath)
  | _ => none

variable {W D T : Type}

/-- A program on the disk, which may have no outcome. -/
def progOnDisk {α : Type} (x : Prog Disk α) : Prog (Sys W) α :=
  Prog.zoom Sys.disk (fun d s => { s with disk := d }) x

section Runs

variable (lib : Taojson D T) (stod : Bytes → Option D) (ciphers : Ciphers W)

/-- The program of a call. The loop that reads a file is granted as many iterations as it needs. -/
def FileOp.run : FileOp T → Prog (Sys W) (FileAnswer T)
  | fileExists filePath => .ofCode <$> onDisk (Behh.fileExists filePath)
  | fileToBuffer filePath bufferData chunkSize => do
    let size ← onDisk fun d => ((d.content (cString filePath)).length, d)
    let r ← progOnDisk (Behh.fileToBuffer (size + 1) filePath bufferData chunkSize)
    return .buffer r.1 r.2
  | fileFromBuffer filePath bufferData =>
    .ofCode <$> onDisk (Behh.fileFromBuffer filePath bufferData)
  | fileCrypt dir mode fileInput fileOutput iv ik chunkSize =>
    .code <$> Behh.fileCrypt dir ciphers mode fileInput fileOutput iv ik chunkSize
  | fromCsvFile csvFilePath => .value <$> progOnDisk (jsontaoFromCsvFile lib stod csvFilePath)
  | fromJsonFile jsonFilePath => .value <$> progOnDisk (jsontaoFromJsonFile lib jsonFilePath)
  | saveToCsv input outputFilePath =>
    .ofCode <$> progOnDisk (jsontaoSaveToCsv lib input outputFilePath)
  | saveToJson input outputFilePath indent =>
    .ofCode <$> progOnDisk (jsontaoSaveToJson lib input outputFilePath indent)

/-- Calls one after the other: what they return. -/
def fileRun (ops : List (FileOp T)) : Prog (Sys W) (List (FileAnswer T)) :=
  ops.mapM fun op => op.run lib stod ciphers

end Runs

/-! ### One operation, whatever fails -/

/-- What an operation may do to a disk: nothing to the files, or a new file is written. -/
inductive Disk.Changes (d : Disk) (target : Option Path) : Disk → Prop where
  | same {d' : Disk} (hfiles : d'.files = d.files) (hfault : d'.fault = d.fault) :
      Changes d target d'
  | written {d₀ : Disk} {path : Path} (hfiles : d₀.files = d.files) (hfault : d₀.fault = d.fault)
      (htarget : target = some (cString path)) (datas : List Bytes) :
      Changes d target (writeFile path datas d₀).2

variable {d d' : Disk}

theorem OfStream.isSome_new {path q : Path} (h : (d.files q).isSome) :
    ((OfStream.new path d).2.files q).isSome := by
  rw [OfStream.new]
  split
  · by_cases hq : q = cString path
    · subst hq
      rw [Disk.put_files_self]
      rfl
    · rwa [Disk.put_files_of_ne _ _ hq]
  · exact h

theorem OfStream.isSome_transfer {s : OfStream} {data : Bytes} {q : Path}
    (h : (d.files q).isSome) : ((s.transfer data d).2.files q).isSome := by
  by_cases hq : q = s.path
  · subst hq
    rw [transfer]
    split <;> simp
  · rwa [s.transfer_files_of_ne data d hq]

theorem OfStream.isSome_writeAll {s : OfStream} {isOk : Bool} {datas : List Bytes} {q : Path}
    (h : (d.files q).isSome) : ((s.writeAll isOk datas d).2.files q).isSome := by
  induction datas generalizing s isOk d with
  | nil => exact h
  | cons data rest ih =>
    refine ih ?_
    rw [write]
    split_ifs
    · exact h
    · exact isSome_transfer h
    · exact h

theorem isSome_writeFile {path q : Path} {datas : List Bytes} (h : (d.files q).isSome) :
    ((writeFile path datas d).2.files q).isSome := by
  rw [writeFile, OfStream.close]
  split_ifs
  · exact OfStream.isSome_transfer (OfStream.isSome_writeAll (OfStream.isSome_new h))
  · exact OfStream.isSome_writeAll (OfStream.isSome_new h)

theorem Disk.Changes.files_of_ne {target : Option Path} (h : d.Changes target d') {q : Path}
    (hq : target ≠ some q) : d'.files q = d.files q := by
  cases h with
  | same hfiles hfault => rw [hfiles]
  | written hfiles hfault htarget datas =>
    rw [writeFile_files_of_ne _ _ _ fun heq => hq (htarget.trans (congrArg some heq.symm)), hfiles]

theorem Disk.Changes.isSome {target : Option Path} (h : d.Changes target d') {q : Path}
    (hq : (d.files q).isSome) : (d'.files q).isSome := by
  cases h with
  | same hfiles hfault => rwa [hfiles]
  | written hfiles hfault htarget datas => exact isSome_writeFile (by rwa [hfiles])

variable {lib : Taojson D T} {stod : Bytes → Option D} {ciphers : Ciphers W}

/-- `jsontao::from_json_file`: a file that can be opened is read. -/
theorem jsontaoFromJsonFile_eq (path : Path) (d : Disk) : jsontaoFromJsonFile lib path d =
    some (if (IfStream.new path d).1.good then
        (lib.fromStream (d.content (cString path))).getD lib.null
      else lib.null, (IfStream.new path d).2) := by
  have hcheck : ¬ inputEndsWith path (str ".json") = 0 := inputEndsWith_ne_zero _ _
  cases hgood : (IfStream.new path d).1.good with
  | false => simp [jsontaoFromJsonFile, hcheck, hgood]
  | true => simp [jsontaoFromJsonFile, hcheck, hgood, IfStream.rest_new]

theorem writeFile_nil (path : Path) (d : Disk) :
    (writeFile path [] d).2 = (OfStream.new path d).2 := by
  rw [writeFile, OfStream.writeAll, OfStream.close, if_neg]
  rw [OfStream.new]
  split <;> simp

theorem jsontaoSaveToCsv_writes (input : T) (path : Path) (d : Disk) : ∃ code datas,
    jsontaoSaveToCsv lib input path d = some (code, (writeFile path datas d).2) := by
  by_cases hfault : d.nextFault = none
  · by_cases hinput : lib.Saveable input
    · exact ⟨1, _, jsontaoSaveToCsv_of_saveable hfault hinput path⟩
    · obtain ⟨code, -, hrun⟩ := jsontaoSaveToCsv_of_not_saveable hfault hinput path
      refine ⟨code, [], ?_⟩
      rw [hrun, writeFile_nil, (ofStreamNew_cases path d).1 hfault]
  · refine ⟨-2, [], ?_⟩
    rw [jsontaoSaveToCsv_of_closed hfault, writeFile_nil, (ofStreamNew_cases path d).2 hfault]

theorem jsontaoSaveToJson_writes (input : T) (path : Path) (indent : ℤ) (d : Disk) :
    ∃ code datas, jsontaoSaveToJson lib input path indent d =
      some (code, (writeFile path datas d).2) := by
  have hcheck : ¬ inputEndsWith path (str ".json") = 0 := inputEndsWith_ne_zero _ _
  cases hgood : (OfStream.new path d).1.good with
  | false =>
    refine ⟨-2, [], ?_⟩
    rw [writeFile_nil]
    simp [jsontaoSaveToJson, jsontaoSaveToJsonIn, hcheck, hgood]
  | true =>
    refine ⟨1, [lib.toStream input (if indent ≤ 0 then 0 else indent)], ?_⟩
    simp [jsontaoSaveToJson, jsontaoSaveToJsonIn, hcheck, hgood, writeAndClose, writeFile]

/-- `read::file_to_buffer`, granted enough iterations. -/
theorem fileToBuffer_apply (path bufferData : Bytes) (n : ℕ) (d : Disk) :
    fileToBuffer ((d.content (cString path)).length + 1) path bufferData n d =
      if (IfStream.new path d).1.good then
        if n = 0 then none
        else if n < 2 ^ 63 then
          some ((.ok 1, bufferData ++ d.content (cString path)), (IfStream.new path d).2)
        else some ((.error (), bufferData), (IfStream.new path d).2)
      else some ((.ok (-1), []), (IfStream.new path d).2) := by
  cases hgood : (IfStream.new path d).1.good with
  | false => exact fileToBuffer_of_not_good hgood _ _ _
  | true =>
    rw [if_pos rfl]
    split_ifs with hn hlt
    · subst hn
      rw [fileToBuffer_of_good (Nat.two_pow_pos 63) hgood, readLoop_zero hgood]
      rfl
    · exact fileToBuffer_eq ⟨Nat.pos_of_ne_zero hn, hlt⟩ hgood bufferData (Nat.lt_succ_self _)
    · exact fileToBuffer_of_le (not_lt.1 hlt) hgood _ _

theorem crypt_changes {n : ℕ} {dir : Dir} {mode : ℤ} {fileInput fileOutput iv ik : Bytes}
    {s : Sys W} {r : Except Unit ℤ × Sys W}
    (h : crypt (ciphers dir) mode fileInput fileOutput iv ik n s = some r) :
    s.disk.Changes (some (cString fileOutput)) r.2.disk := by
  rcases Nat.lt_or_ge n (2 ^ 63) with hlt | hle
  swap
  · rw [crypt_of_le hle] at h
    obtain rfl := Option.some.inj h
    exact .same rfl rfl
  cases hgood : (IfStream.new fileInput s.disk).1.good with
  | false =>
    rw [crypt_of_not_good hlt hgood] at h
    obtain rfl := Option.some.inj h
    exact .same rfl rfl
  | true =>
    by_cases hmode : ∃ alg : Alg, alg.mode = mode
    · obtain ⟨alg, rfl⟩ := hmode
      rcases Nat.eq_zero_or_pos n with rfl | hn
      · rw [crypt_zero hgood] at h
        cases h
      · rw [crypt_eq ⟨hn, hlt⟩ hgood] at h
        obtain ⟨outs, -, rfl⟩ := Option.map_eq_some_iff.1 h
        exact @Disk.Changes.written s.disk (some (cString fileOutput))
          (IfStream.new fileInput s.disk).2 fileOutput rfl rfl rfl _
    · rw [crypt_of_mode_ne hlt (fun alg h => hmode ⟨alg, h.symm⟩) hgood] at h
      obtain rfl := Option.some.inj h
      exact .same rfl rfl

theorem zoom_eq_some {α : Type} {x : Prog Disk α} {f : α → FileAnswer T} {s : Sys W}
    {r : FileAnswer T × Sys W} (h : (f <$> progOnDisk x) s = some r) :
    ∃ a d', x s.disk = some (a, d') ∧ r = (f a, { s with disk := d' }) := by
  rw [Prog.map_apply, progOnDisk, Prog.zoom_apply, Option.map_map] at h
  obtain ⟨⟨a, d'⟩, hx, rfl⟩ := Option.map_eq_some_iff.1 h
  exact ⟨a, d', hx, rfl⟩

/-- **One operation**, whatever fails: it leaves the files as they are or writes its own. -/
theorem op_disk {op : FileOp T} {s : Sys W} {r : FileAnswer T × Sys W}
    (h : op.run lib stod ciphers s = some r) : s.disk.Changes op.target r.2.disk := by
  cases op with
  | fileExists path =>
    obtain rfl := Option.some.inj h
    exact .same rfl rfl
  | fileToBuffer path bufferData n =>
    simp only [FileOp.run, progOnDisk, Prog.bind_apply, onDisk_apply, Option.bind_some,
      Prog.zoom_apply, fileToBuffer_apply] at h
    split_ifs at h
    · cases h
    · obtain rfl := Option.some.inj h
      exact .same rfl rfl
    · obtain rfl := Option.some.inj h
      exact .same rfl rfl
    · obtain rfl := Option.some.inj h
      exact .same rfl rfl
  | fileFromBuffer path bufferData =>
    obtain rfl := Option.some.inj h
    have hdisk := (fileFromBuffer_eq path bufferData s.disk).2
    simp only [hdisk]
    exact .written rfl rfl rfl _
  | fileCrypt dir mode fileInput fileOutput iv ik n =>
    rw [FileOp.run, Prog.map_apply, fileCrypt_eq] at h
    obtain ⟨r', hr', rfl⟩ := Option.map_eq_some_iff.1 h
    exact crypt_changes hr'
  | fromCsvFile path =>
    obtain ⟨a, d', hrun, rfl⟩ := zoom_eq_some h
    rw [jsontaoFromCsvFile_eq] at hrun
    obtain ⟨-, rfl⟩ := Prod.mk.inj (Option.some.inj hrun)
    exact .same rfl rfl
  | fromJsonFile path =>
    obtain ⟨a, d', hrun, rfl⟩ := zoom_eq_some h
    rw [jsontaoFromJsonFile_eq] at hrun
    obtain ⟨-, rfl⟩ := Prod.mk.inj (Option.some.inj hrun)
    exact .same rfl rfl
  | saveToCsv input path =>
    obtain ⟨a, d', hrun, rfl⟩ := zoom_eq_some h
    obtain ⟨code, datas, hwrites⟩ := @jsontaoSaveToCsv_writes D T lib input path s.disk
    rw [hwrites] at hrun
    obtain ⟨-, rfl⟩ := Prod.mk.inj (Option.some.inj hrun)
    exact .written rfl rfl rfl _
  | saveToJson input path indent =>
    obtain ⟨a, d', hrun, rfl⟩ := zoom_eq_some h
    obtain ⟨code, datas, hwrites⟩ :=
      @jsontaoSaveToJson_writes D T lib input path indent s.disk
    rw [hwrites] at hrun
    obtain ⟨-, rfl⟩ := Prod.mk.inj (Option.some.inj hrun)
    exact .written rfl rfl rfl _

/-! ### Runs, whatever fails -/

theorem fileRun_cons_eq_some {op : FileOp T} {ops : List (FileOp T)} {s s' : Sys W}
    {answers : List (FileAnswer T)}
    (h : fileRun lib stod ciphers (op :: ops) s = some (answers, s')) :
    ∃ a s₁ rest, op.run lib stod ciphers s = some (a, s₁) ∧
      fileRun lib stod ciphers ops s₁ = some (rest, s') ∧ answers = a :: rest := by
  rw [fileRun, List.mapM_cons] at h
  obtain ⟨a, s₁, hop, h⟩ := Prog.bind_eq_some_iff.1 h
  obtain ⟨rest, s₂, hrest, h⟩ := Prog.bind_eq_some_iff.1 h
  obtain ⟨rfl, rfl⟩ := Prod.mk.inj (Option.some.inj h)
  exact ⟨a, s₁, rest, hop, hrest, rfl⟩

/-- **What a run leaves alone**, whatever fails and whatever the ciphers do: every file that is the
target of none of its operations has the content that it had, and every file that was there is
there. -/
theorem fileRun_frame {ops : List (FileOp T)} {s s' : Sys W} {answers : List (FileAnswer T)}
    (h : fileRun lib stod ciphers ops s = some (answers, s')) (q : Path) :
    ((∀ op ∈ ops, op.target ≠ some q) → s'.disk.files q = s.disk.files q) ∧
      ((s.disk.files q).isSome → (s'.disk.files q).isSome) := by
  induction ops generalizing s answers with
  | nil =>
    obtain ⟨-, rfl⟩ := Prod.mk.inj (Option.some.inj h)
    exact ⟨fun _ => rfl, id⟩
  | cons op ops ih =>
    obtain ⟨a, s₁, rest, hop, hrest, rfl⟩ := fileRun_cons_eq_some h
    obtain ⟨hsame, hkept⟩ := ih hrest
    have hchange := op_disk hop
    refine ⟨fun htargets => ?_, fun hthere => hkept (hchange.isSome hthere)⟩
    rw [hsame fun op' hop' => htargets op' (List.mem_cons_of_mem _ hop')]
    exact hchange.files_of_ne (htargets op List.mem_cons_self)

/-! ### A store -/

/-- A map from names of files to contents, and the state of the library. -/
structure FileStore (W : Type) where
  /-- The contents of the files. -/
  files : Path → Option Bytes
  /-- The state of the library. -/
  lib : W

namespace FileStore

/-- The file that a path names gets a new content. -/
def put (s : FileStore W) (path : Path) (data : Bytes) : FileStore W :=
  { s with files := Function.update s.files (cString path) (some data) }

/-- The content of the file that a path names is used, if there is one. -/
def withFile {α : Type} (s : FileStore W) (path : Path) (missing : α) (found : Bytes → α) :
    α × FileStore W :=
  ((s.files (cString path)).elim missing found, s)

end FileStore

/-- The cipher of a mode. -/
def Alg.ofMode : ℤ → Option Alg
  | 1 => some aes256Cbc
  | 2 => some aes256Gcm
  | _ => none

theorem Alg.mode_of_ofMode {mode : ℤ} {alg : Alg} (h : ofMode mode = some alg) :
    mode = alg.mode := by
  unfold ofMode at h
  split at h
  · obtain rfl := Option.some.inj h
    rfl
  · obtain rfl := Option.some.inj h
    rfl
  · cases h

theorem Alg.mode_ne_of_ofMode {mode : ℤ} (h : ofMode mode = none) (alg : Alg) :
    mode ≠ alg.mode := by
  rintro rfl
  cases alg <;> cases h

section Store

variable (lib : Taojson D T) (stod : Bytes → Option D) (ciphers : Ciphers W)

/-- `file::encrypt` and `file::decrypt` on a store. The ciphers see the chunks of the content, and
none of them when the file is its own output. -/
def cryptOnStore (dir : Dir) (mode : ℤ) (fileInput fileOutput iv ik : Bytes) (chunkSize : ℕ) :
    Prog (FileStore W) (FileAnswer T) := fun s =>
  if 2 ^ 63 ≤ chunkSize then some (.code (.error ()), s)
  else match s.files (cString fileInput), Alg.ofMode mode with
  | none, _ => some (.code (.ok (-1)), s)
  | some _, none => some (.code (.ok (-69)), s)
  | some f, some alg =>
    if chunkSize = 0 then none
    else
      let seen := if cString fileInput = cString fileOutput then [] else f
      (cipherAll (ciphers dir alg) (toBuffer iv 16) (toBuffer ik 16) (seen.chunks chunkSize)
        s.lib).map fun r => (.code (.ok 1), { s.put fileOutput (joined r.1) with lib := r.2 })

/-- `jsontao::save_to_csv` on a store. A value that is no array of objects empties the file. -/
def saveToCsvOnStore (input : T) (path : Path) (s : FileStore W) : FileAnswer T × FileStore W :=
  if lib.isArray input = false ∨ lib.getArray input = [] then (.code (.ok (-3)), s.put path [])
  else if lib.isObject ((lib.getArray input).headD lib.null) = false then
    (.code (.ok (-4)), s.put path [])
  else (.code (.ok 1), s.put path (lib.csvTexts input).flatten)

/-- A call on a store; without an outcome, chunks of no size are read for ever. -/
def FileOp.onStore : FileOp T → Prog (FileStore W) (FileAnswer T)
  | fileExists path => Prog.call fun s => s.withFile path (.code (.ok (-1))) fun _ => .code (.ok 1)
  | fileToBuffer path bufferData chunkSize => fun s =>
    match s.files (cString path) with
    | none => some (.buffer (.ok (-1)) [], s)
    | some c =>
      if chunkSize = 0 then none
      else if chunkSize < 2 ^ 63 then some (.buffer (.ok 1) (bufferData ++ c), s)
      else some (.buffer (.error ()) bufferData, s)
  | fileFromBuffer path bufferData => Prog.call fun s => (.code (.ok 1), s.put path bufferData)
  | fileCrypt dir mode fileInput fileOutput iv ik chunkSize =>
    cryptOnStore ciphers dir mode fileInput fileOutput iv ik chunkSize
  | fromCsvFile path => Prog.call fun s =>
    s.withFile path (.value lib.null) fun c => .value (jsontaoTable lib stod c)
  | fromJsonFile path => Prog.call fun s =>
    s.withFile path (.value lib.null) fun c => .value ((lib.fromStream c).getD lib.null)
  | saveToCsv input path => Prog.call (saveToCsvOnStore lib input path)
  | saveToJson input path indent => Prog.call fun s =>
    (.code (.ok 1), s.put path (lib.toStream input (if indent ≤ 0 then 0 else indent)))

end Store

/-! ### Without faults -/

/-- The store that a system stands for. -/
def Sys.store (s : Sys W) : FileStore W := ⟨s.disk.files, s.lib⟩

theorem Disk.Faultless.good_new_eq (hd : d.Faultless) (path : Path) :
    (IfStream.new path d).1.good = (d.files (cString path)).isSome := by
  rw [IfStream.new, hd.nextFault]
  rfl

theorem Disk.Faultless.files_writeFile (hd : d.Faultless) (path : Path) (datas : List Bytes) :
    (writeFile path datas d).2.files =
      Function.update d.files (cString path) (some datas.flatten) := by
  obtain ⟨-, -, hfile⟩ := writeFile_of_faultless hd path datas
  refine funext fun q => ?_
  by_cases hq : q = cString path
  · subst hq
    rw [hfile, Function.update_self]
  · rw [writeFile_files_of_ne _ _ _ hq, Function.update_of_ne hq]

/-- A change leaves no faults behind when there were none. -/
theorem Disk.Changes.faultless {target : Option Path} (hd : d.Faultless)
    (h : d.Changes target d') : d'.Faultless := by
  cases h with
  | same hfiles hfault => exact fun k => hfault ▸ hd k
  | written hfiles hfault htarget datas =>
    exact (writeFile_of_faultless (fun k => hfault ▸ hd k) _ _).2.1

theorem fileFromBuffer_faultless (hd : d.Faultless) (path b : Bytes) :
    fileFromBuffer path b d = (1, (writeFile path [b] d).2) :=
  Prod.ext (fileFromBuffer_of_faultless hd path b).1 (fileFromBuffer_eq path b d).2

theorem jsontaoSaveToJson_faultless (hd : d.Faultless) (input : T) (path : Path) (indent : ℤ) :
    jsontaoSaveToJson lib input path indent d =
      some (1, (writeFile path [lib.toStream input (if indent ≤ 0 then 0 else indent)] d).2) := by
  have hcheck : ¬ inputEndsWith path (str ".json") = 0 := inputEndsWith_ne_zero _ _
  have hgood := (OfStream.holds_new hd path).good
  simp [jsontaoSaveToJson, jsontaoSaveToJsonIn, hcheck, hgood, writeAndClose, writeFile]

theorem jsontaoSaveToCsv_faultless (hd : d.Faultless) (input : T) (path : Path) (w : W) :
    ∃ code datas, jsontaoSaveToCsv lib input path d = some (code, (writeFile path datas d).2) ∧
      saveToCsvOnStore lib input path ⟨d.files, w⟩ =
        (.code (.ok code), FileStore.put ⟨d.files, w⟩ path datas.flatten) := by
  have hcheck : ¬ inputEndsWith path (str ".csv") = 0 := inputEndsWith_ne_zero _ _
  have hopen := (ofStreamNew_cases path d).1 hd.nextFault
  have hempty : (writeFile path [] d).2 = d.put (cString path) [] := by rw [writeFile_nil, hopen]
  rw [saveToCsvOnStore]
  split_ifs with harray hobject
  · refine ⟨-3, [], ?_, rfl⟩
    have hrejected : (!lib.isArray input || (lib.getArray input).isEmpty) = true := by
      simpa using harray
    simp [jsontaoSaveToCsv, hcheck, hopen, hrejected, writeAndClose_nil, hempty]
  · refine ⟨-4, [], ?_, rfl⟩
    rw [not_or, Bool.not_eq_false] at harray
    rw [List.headD_eq_head?_getD] at hobject
    simp [jsontaoSaveToCsv, hcheck, hopen, harray.1, harray.2, hobject, writeAndClose_nil, hempty]
  · rw [not_or, Bool.not_eq_false] at harray
    rw [Bool.not_eq_false] at hobject
    exact ⟨1, _, jsontaoSaveToCsv_of_saveable hd.nextFault ⟨harray.1, harray.2, hobject⟩ path, rfl⟩

/-- What is seen of the input file, without faults. -/
theorem seenContent_faultless (hd : d.Faultless) {fileInput f : Bytes}
    (hf : d.files (cString fileInput) = some f) (fileOutput : Path) :
    seenContent d fileInput fileOutput =
      if cString fileInput = cString fileOutput then [] else f := by
  split_ifs with hself
  · exact seenContent_self (hd _) hself
  · exact seenContent_of_ne hself hf

theorem crypt_faultless (hd : d.Faultless) (w : W) (dir : Dir) (mode : ℤ)
    (fileInput fileOutput iv ik : Bytes) (n : ℕ) :
    (crypt (ciphers dir) mode fileInput fileOutput iv ik n ⟨d, w⟩).map
        (fun r => (FileAnswer.code (T := T) r.1, r.2.store)) =
      cryptOnStore ciphers dir mode fileInput fileOutput iv ik n ⟨d.files, w⟩ := by
  have hopen := hd.good_new_eq fileInput
  rcases Nat.lt_or_ge n (2 ^ 63) with hlt | hle
  swap
  · rw [crypt_of_le hle, cryptOnStore, if_pos hle]
    rfl
  rw [cryptOnStore, if_neg hlt.not_ge]
  cases hf : d.files (cString fileInput) with
  | none =>
    rw [crypt_of_not_good hlt (by rw [hopen, hf]; rfl)]
    simp only [hf]
    rfl
  | some f =>
    have hgood : (IfStream.new fileInput d).1.good = true := by rw [hopen, hf]; rfl
    cases hmode : Alg.ofMode mode with
    | none =>
      rw [crypt_of_mode_ne hlt (Alg.mode_ne_of_ofMode hmode) hgood]
      simp only [hf]
      rfl
    | some alg =>
      simp only [hf]
      obtain rfl := Alg.mode_of_ofMode hmode
      by_cases hn : n = 0
      · subst hn
        rw [crypt_zero hgood]
        rfl
      · rw [if_neg hn, crypt_eq ⟨Nat.pos_of_ne_zero hn, hlt⟩ hgood, seenContent_faultless hd hf,
          Option.map_map]
        refine congrFun (congrArg Option.map (funext fun r => ?_)) _
        have hd' : (IfStream.new fileInput d).2.Faultless := hd
        have haccepted := (writeFile_of_faultless hd' fileOutput
          (r.1.map fun o => o.getD [])).1
        simp only [Function.comp_apply, haccepted, if_true, Sys.store, hd'.files_writeFile]
        rfl

/-- **One operation, without faults**, is the one on the store. -/
theorem op_refines (op : FileOp T) : Prog.Refines Sys.store (fun s : Sys W => s.disk.Faultless)
    (op.run lib stod ciphers) (op.onStore lib stod ciphers) := by
  rintro ⟨d, w⟩ (hd : d.Faultless)
  refine ⟨?_, fun r hr => (op_disk hr).faultless hd⟩
  have hopen := hd.good_new_eq
  cases op with
  | fileExists path =>
    simp only [FileOp.run, FileOp.onStore, Behh.fileExists, hopen, FileStore.withFile, Sys.store,
      Prog.map_apply, onDisk_apply, Prog.call_apply]
    cases d.files (cString path) <;> rfl
  | fileToBuffer path bufferData n =>
    simp only [FileOp.run, progOnDisk, Prog.bind_apply, onDisk_apply, Option.bind_some,
      Prog.zoom_apply, fileToBuffer_apply]
    simp only [FileOp.onStore, Sys.store, Disk.content]
    cases hf : d.files (cString path) with
    | none => simp [hf, IfStream.new, Disk.step]
    | some c =>
      by_cases hn : n = 0
      · simp [hf, hn, hd.nextFault, IfStream.new]
      · simp only [hf, hn, hd.nextFault, IfStream.new, Disk.step, if_false, Option.isNone_none,
          Option.isSome_some, Bool.and_self, if_true, Option.getD_some]
        split_ifs <;> rfl
  | fileFromBuffer path bufferData =>
    simp only [FileOp.run, Prog.map_apply, onDisk_apply, fileFromBuffer_faultless hd,
      FileOp.onStore, FileAnswer.ofCode, Prog.call_apply, Option.map_some, Sys.store, FileStore.put,
      hd.files_writeFile, List.flatten_singleton]
  | fileCrypt dir mode fileInput fileOutput iv ik n =>
    rw [FileOp.run, Prog.map_apply, fileCrypt_eq, Option.map_map]
    exact crypt_faultless hd w dir mode fileInput fileOutput iv ik n
  | fromCsvFile path =>
    simp only [FileOp.run, progOnDisk, Prog.map_apply, Prog.zoom_apply, jsontaoFromCsvFile_eq,
      hopen, FileOp.onStore, Prog.call_apply, FileStore.withFile, Sys.store, Disk.content]
    cases d.files (cString path) <;> rfl
  | fromJsonFile path =>
    simp only [FileOp.run, progOnDisk, Prog.map_apply, Prog.zoom_apply, jsontaoFromJsonFile_eq,
      hopen, FileOp.onStore, Prog.call_apply, FileStore.withFile, Sys.store, Disk.content]
    cases d.files (cString path) <;> rfl
  | saveToCsv input path =>
    obtain ⟨code, datas, hrun, hstore⟩ := @jsontaoSaveToCsv_faultless W D T d lib hd input path w
    rw [FileOp.run, FileOp.onStore, Prog.call_apply, Sys.store, hstore]
    simp only [progOnDisk, Prog.map_apply, Prog.zoom_apply, hrun, Option.map_some, Sys.store,
      FileAnswer.ofCode, FileStore.put, hd.files_writeFile]
  | saveToJson input path indent =>
    simp only [FileOp.run, progOnDisk, Prog.map_apply, Prog.zoom_apply,
      jsontaoSaveToJson_faultless hd, FileOp.onStore, Prog.call_apply, Option.map_some, Sys.store,
      FileAnswer.ofCode, FileStore.put, hd.files_writeFile, List.flatten_singleton]

theorem fileRun_append_eq_some {ops ops' : List (FileOp T)} {s s' : Sys W}
    {answers : List (FileAnswer T)}
    (h : fileRun lib stod ciphers (ops ++ ops') s = some (answers, s')) :
    ∃ first s₁ rest, fileRun lib stod ciphers ops s = some (first, s₁) ∧
      fileRun lib stod ciphers ops' s₁ = some (rest, s') ∧ answers = first ++ rest := by
  rw [fileRun, List.mapM_append] at h
  obtain ⟨first, s₁, hfirst, h⟩ := Prog.bind_eq_some_iff.1 h
  obtain ⟨rest, s₂, hrest, h⟩ := Prog.bind_eq_some_iff.1 h
  obtain ⟨rfl, rfl⟩ := Prod.mk.inj (Option.some.inj h)
  exact ⟨first, s₁, rest, hfirst, hrest, rfl⟩

theorem fileRun_faultless {ops : List (FileOp T)} {s s' : Sys W} {answers : List (FileAnswer T)}
    (hd : s.disk.Faultless) (h : fileRun lib stod ciphers ops s = some (answers, s')) :
    s'.disk.Faultless :=
  (Prog.Refines.mapM (@op_refines W D T lib stod ciphers) ops s hd).2 _ h

theorem onStore_of_run {op : FileOp T} {s : Sys W} (hd : s.disk.Faultless)
    {r : FileAnswer T × Sys W} (h : op.run lib stod ciphers s = some r) :
    op.onStore lib stod ciphers s.store = some (r.1, r.2.store) := by
  rw [← (op_refines op s hd).1, h]
  rfl

/-- **What is written stays.** `op` leaves `c` in a file, and none of the operations after it has
that file as its target: `c` is in the file when the rest of the run begins. -/
theorem fileRun_stage {op : FileOp T} {between rest : List (FileOp T)} {path c : Bytes}
    {s s' : Sys W} {answers : List (FileAnswer T)} (hd : s.disk.Faultless)
    (hop : ∀ r, op.onStore lib stod ciphers s.store = some r → r.2.files path = some c)
    (hbetween : ∀ op ∈ between, op.target ≠ some path)
    (h : fileRun lib stod ciphers (op :: (between ++ rest)) s = some (answers, s')) :
    ∃ s₁ first later, s₁.disk.Faultless ∧ s₁.disk.files path = some c ∧
      fileRun lib stod ciphers rest s₁ = some (later, s') ∧ answers = first ++ later := by
  obtain ⟨a, s₁, rest₁, hwrite, h₁, rfl⟩ := fileRun_cons_eq_some h
  obtain ⟨middle, s₂, later, hmiddle, h₂, rfl⟩ := fileRun_append_eq_some h₁
  have hd₁ := (op_disk hwrite).faultless hd
  have hwritten : s₁.disk.files path = some c := hop _ (onStore_of_run hd hwrite)
  exact ⟨s₂, a :: middle, later, fileRun_faultless hd₁ hmiddle,
    ((fileRun_frame hmiddle path).1 hbetween).trans hwritten, h₂, rfl⟩

theorem fileRun_last {op : FileOp T} {a : FileAnswer T} {s s' : Sys W} {path c : Bytes}
    {answers : List (FileAnswer T)} (hd : s.disk.Faultless) (hfile : s.disk.files path = some c)
    (hop : ∀ t r, t.files path = some c → op.onStore lib stod ciphers t = some r → r.1 = a)
    (h : fileRun lib stod ciphers [op] s = some (answers, s')) : answers = [a] := by
  obtain ⟨a', s₁, rest, hread, h₁, rfl⟩ := fileRun_cons_eq_some h
  obtain ⟨rfl, -⟩ := Prod.mk.inj (Option.some.inj h₁)
  obtain rfl : a' = a := hop _ _ hfile (onStore_of_run hd hread)
  rfl

/-- **What is written last is read.** `writer` leaves `c` in a file, `reader` gives the answer `a`
for a file with `c`, and no operation between them has that file as its target. -/
theorem fileRun_reads {before between : List (FileOp T)} {writer reader : FileOp T} {path c : Bytes}
    {a : FileAnswer T} {s s' : Sys W} {answers : List (FileAnswer T)} (hd : s.disk.Faultless)
    (hwriter : ∀ t r, writer.onStore lib stod ciphers t = some r → r.2.files path = some c)
    (hreader : ∀ t r, t.files path = some c → reader.onStore lib stod ciphers t = some r → r.1 = a)
    (hbetween : ∀ op ∈ between, op.target ≠ some path)
    (h : fileRun lib stod ciphers (before ++ writer :: (between ++ [reader])) s =
      some (answers, s')) : answers.getLast? = some a := by
  obtain ⟨start, s₁, rest₁, hbefore, h₁, rfl⟩ := fileRun_append_eq_some h
  have hd₁ := fileRun_faultless hd hbefore
  obtain ⟨s₂, first, later, hd₂, hfile, h₂, rfl⟩ := fileRun_stage hd₁ (hwriter _) hbetween h₁
  rw [fileRun_last hd₂ hfile hreader h₂, ← List.append_assoc]
  exact List.getLast?_concat

/-- What `read::file_to_buffer` answers for a file. -/
theorem onStore_fileToBuffer {path old c : Bytes} {n : ℕ} (t : FileStore W)
    (r : FileAnswer T × FileStore W) (hfile : t.files (cString path) = some c)
    (h : (FileOp.fileToBuffer path old n).onStore lib stod ciphers t = some r) :
    r.1 = if n < 2 ^ 63 then .buffer (.ok 1) (old ++ c) else .buffer (.error ()) old := by
  simp only [FileOp.onStore, hfile] at h
  split_ifs at h ⊢ <;> obtain rfl := Option.some.inj h <;> rfl

theorem onStore_fileFromBuffer {path b : Bytes} (t : FileStore W) (r : FileAnswer T × FileStore W)
    (h : (FileOp.fileFromBuffer path b).onStore lib stod ciphers t = some r) :
    r.2.files (cString path) = some b := by
  obtain rfl := Option.some.inj h
  exact Function.update_self ..

/-- **Bytes that are written are read**, whatever is done to other files in between, and in pieces
of any size for which there is an outcome: without a scratch buffer of the size, reading throws and
leaves the destination alone. -/
theorem fileRun_reads_buffer {before between : List (FileOp T)} {path b old : Bytes} {n : ℕ}
    {s s' : Sys W} {answers : List (FileAnswer T)} (hd : s.disk.Faultless)
    (hbetween : ∀ op ∈ between, op.target ≠ some (cString path))
    (h : fileRun lib stod ciphers (before ++ .fileFromBuffer path b :: (between ++
      [.fileToBuffer path old n])) s = some (answers, s')) :
    answers.getLast? = some (if n < 2 ^ 63 then .buffer (.ok 1) (old ++ b)
      else .buffer (.error ()) old) :=
  fileRun_reads hd onStore_fileFromBuffer onStore_fileToBuffer hbetween h

/-- **JSON values that are saved are loaded**, whatever is done to other files in between, when the
library reads the text that it has written as the same value. -/
theorem fileRun_reads_json {before between : List (FileOp T)} {path : Path} {input : T} {indent : ℤ}
    {s s' : Sys W} {answers : List (FileAnswer T)} (hd : s.disk.Faultless)
    (hlib : ∀ indent, 0 ≤ indent → lib.fromStream (lib.toStream input indent) = some input)
    (hbetween : ∀ op ∈ between, op.target ≠ some (cString path))
    (h : fileRun lib stod ciphers (before ++ .saveToJson input path indent :: (between ++
      [.fromJsonFile path])) s = some (answers, s')) :
    answers.getLast? = some (.value input) := by
  refine fileRun_reads (c := lib.toStream input (if indent ≤ 0 then 0 else indent)) hd ?_ ?_
    hbetween h
  · intro t r hr
    obtain rfl := Option.some.inj hr
    exact Function.update_self ..
  · intro t r hfile hr
    simp only [FileOp.onStore, Prog.call_apply, FileStore.withFile, hfile, Option.elim_some] at hr
    obtain rfl := Option.some.inj hr
    have hindent : 0 ≤ if indent ≤ 0 then 0 else indent := by split_ifs <;> omega
    rw [hlib _ hindent]
    rfl

/-! ### A run -/

/-- One file is written, another one is saved, and both are read. -/
def twoFiles : List (FileOp Unit) :=
  [.fileFromBuffer [102] [1, 2, 3], .saveToJson () [103] 4, .fromJsonFile [103],
    .fileToBuffer [102] [] 2]

/-- A disk without faults that holds a third file, and no library. -/
def thirdFile : Sys Unit := ⟨Disk.single [104] [9], ()⟩

/-- Ciphers that fail. -/
def noCiphers : Ciphers Unit := fun _ _ _ _ _ => pure none

/-- The run of the four operations. -/
def twoFilesRun : Option (List (FileAnswer Unit) × Sys Unit) :=
  fileRun JsonArgs.trivial.taojson JsonArgs.trivial.stod noCiphers twoFiles thirdFile

/-- The third file is left alone. -/
theorem fileRun_frame_twoFiles : ∃ answers s', twoFilesRun = some (answers, s') ∧
    s'.disk.files [104] = some [9] := by
  obtain ⟨⟨answers, s'⟩, hrun⟩ : ∃ r, twoFilesRun = some r := ⟨_, rfl⟩
  refine ⟨answers, s', hrun, ?_⟩
  rw [(fileRun_frame hrun [104]).1 (by decide)]
  exact Disk.single_files _ _

/-- The bytes are read. -/
theorem fileRun_reads_buffer_twoFiles : ∃ answers s', twoFilesRun = some (answers, s') ∧
    answers.getLast? = some (.buffer (.ok 1) [1, 2, 3]) := by
  obtain ⟨⟨answers, s'⟩, hrun⟩ : ∃ r, twoFilesRun = some r := ⟨_, rfl⟩
  exact ⟨answers, s', hrun, @fileRun_reads_buffer _ _ _ _ _ _ []
    [.saveToJson () [103] 4, .fromJsonFile [103]] [102] [1, 2, 3] [] 2 thirdFile s' answers
    (Disk.faultless_single _ _) (by decide) hrun⟩

/-- The value is loaded. -/
theorem fileRun_reads_json_unit : ∃ answers s',
    fileRun JsonArgs.trivial.taojson JsonArgs.trivial.stod noCiphers
        [.saveToJson () [103] 4, .fileFromBuffer [102] [1], .fromJsonFile [103]] thirdFile =
      some (answers, s') ∧ answers.getLast? = some (.value ()) := by
  obtain ⟨⟨answers, s'⟩, hrun⟩ : ∃ r, fileRun JsonArgs.trivial.taojson JsonArgs.trivial.stod
      noCiphers [.saveToJson () [103] 4, .fileFromBuffer [102] [1], .fromJsonFile [103]]
      thirdFile = some r := ⟨_, rfl⟩
  exact ⟨answers, s', hrun, @fileRun_reads_json _ _ _ _ _ _ [] [.fileFromBuffer [102] [1]] [103] ()
    4 thirdFile s' answers (Disk.faultless_single _ _) (fun _ _ => rfl) (by decide) hrun⟩

end Behh
