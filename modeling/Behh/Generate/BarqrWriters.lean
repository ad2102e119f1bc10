import Behh.Generate.BarqrImages

/-!
# The writer that a path selects

`barqr::encode` looks at the extension of the path to choose a function that writes the image, and
`image::buffer_to_png` and `image::buffer_to_jpg` look at it again. The first of the two refuses a
path that does not end with `.png`. The second one refuses a path unless it ends with `.jpg` and
with `.jpeg`, which no path does. So an image is never written as a JPEG file, and for any other
path the two checks agree.

## Main definitions

* `Produced`: the barcode writer makes a matrix that is read nowhere past its end.
* `selectedWriter`, `SelectsWriter`: the writer that belongs to an extension, and that `encode` ends
  with it.
* `PngRefusal`, `JpgRefusal`: the paths that a function is to refuse are those that it refuses.

## Main results

* `bufferToJpg_refuses`: every path is refused.
* `selectsWriter_iff`: the paths for which the checks agree.
-/

namespace Behh

variable {W F : Type} {io : ImageIo W} {path : Path}

/-! ### The checks of the two functions -/

/-- The path ends like that of a JPEG file. -/
def IsJpg (path : Path) : Prop := str ".jpg" <:+ path ∨ str ".jpeg" <:+ path

instance (path : Path) : Decidable (IsJpg path) := inferInstanceAs (Decidable (_ ∨ _))

/-- `buffer_to_png` returns -1 without calling anything exactly when the path does not end with
`.png`. -/
def PngRefusal (path : Path) : Prop :=
  ∀ (W : Type) (io : ImageIo W) (buffer : Bytes) (width height comp : ℤ) (s : W × List Output),
    bufferToPng io path buffer width height comp s = some (-1, s) ↔ ¬ str ".png" <:+ path

/-- `buffer_to_jpg` returns -1 without calling anything exactly when the path ends neither with
`.jpg` nor with `.jpeg`. -/
def JpgRefusal (path : Path) : Prop :=
  ∀ (W : Type) (io : ImageIo W) (buffer : Bytes) (width height comp : ℤ) (s : W × List Output),
    bufferToJpg io path buffer width height comp s = some (-1, s) ↔ ¬ IsJpg path

theorem stbiWrite_ne (o : Output) (code : ℤ) (s : W × List Output) :
    stbiWrite io o s ≠ some (code, s) := by
  intro h
  have hlen := congrArg (fun r => r.2.2.length) (Option.some_inj.1 h)
  simp at hlen

theorem pngRefusal (path : Path) : PngRefusal path := by
  intro W io buffer width height comp s
  rw [← inputEndsWith_eq_one_iff]
  by_cases hpng : inputEndsWith path (str ".png") = 1
  · refine iff_of_false ?_ (not_not.2 hpng)
    rw [bufferToPng, if_neg (not_not.2 hpng)]
    cases hstride : int32 (width * 4) with
    | none => simp
    | some stride => exact stbiWrite_ne _ _ s
  · exact iff_of_true (by simp [bufferToPng, hpng]) hpng

theorem jpgRefusal_iff (path : Path) : JpgRefusal path ↔ ¬ IsJpg path := by
  constructor
  · intro h
    exact (h Unit workingIo [] 0 0 0 ((), [])).1 (bufferToJpg_refuses [] 0 0 0 ((), []))
  · intro h W io buffer width height comp s
    exact iff_of_true (bufferToJpg_refuses buffer width height comp s) h

/-! ### The writer -/

/-- The barcode writer makes a matrix for the content, the vector of four bytes for each pixel has
an `int32_t` as its size, and the matrix is read nowhere past its end. -/
structure Produced (zxing : BarcodeWriter F) (content : Bytes) (width height margin : ℤ)
    (format : F) (matrix : BitMatrix) : Prop where
  ok : zxing format (atLeast0 margin) content (atLeast256 width) (atLeast256 height) = .ok matrix
  size_lt : atLeast256 width * atLeast256 height * 4 < 2 ^ 31
  read_le : ((atLeast256 height).toNat - 1) * matrix.width + (atLeast256 width).toNat ≤
    matrix.height * matrix.width

/-- The writer that belongs to the extension of the path, and a document for any other path. An
exception of the last one is caught. -/
def selectedWriter (io : ImageIo W) (path : Path) (matrix : BitMatrix) (data : Bytes)
    (width height margin : ℤ) : Prog (W × List Output) ℤ :=
  if str ".png" <:+ path then
    stbiWrite io (.png (cString path) width height 4 data (width * 4))
  else if IsJpg path then
    stbiWrite io (.jpg (cString path) width height 4 data (width * 4))
  else do
    match ← matrixToSvg io (cString path) matrix width height margin with
    | .error _ => return -69
    | .ok code => return code

/-- Whatever the writers of images do, `barqr::encode` ends with the one that belongs to the path,
and returns its result. -/
def SelectsWriter (zxing : BarcodeWriter F) (content : Bytes) (path : Path)
    (width height margin : ℤ) (format : F) (matrix : BitMatrix) : Prop :=
  ∀ (W : Type) (io : ImageIo W) (s : W × List Output),
    barqrEncode io zxing content path width height margin format 4 s =
      selectedWriter io path matrix
        (pixels matrix (atLeast256 width).toNat (atLeast256 height).toNat) (atLeast256 width)
        (atLeast256 height) (atLeast0 margin) s

theorem width_mul_lt {width height : ℤ} (hw : 256 ≤ width) (hh : 256 ≤ height)
    (hsize : width * height * 4 < 2 ^ 31) : width * 4 < 2 ^ 31 := by
  have hle : width * 1 ≤ width * height := Int.mul_le_mul_of_nonneg_left (by omega) (by omega)
  omega

variable {matrix : BitMatrix} {data : Bytes} {width height margin : ℤ} {s : W × List Output}

/-- For a path that is not that of a JPEG file the dispatch ends with the writer that belongs to
it. -/
theorem writeImage_eq_selectedWriter (hjpg : ¬ IsJpg path) (hw : 0 ≤ width)
    (hint : width * 4 < 2 ^ 31) :
    writeImage io path matrix data width height margin s =
      selectedWriter io path matrix data width height margin s := by
  rw [selectedWriter]
  by_cases hpng : str ".png" <:+ path
  · rw [if_pos hpng, writeImage_png hpng hw hint]
    rfl
  · obtain ⟨hnotJpg, hnotJpeg⟩ := not_or.1 hjpg
    rw [if_neg hpng, if_neg hjpg]
    rw [← inputEndsWith_eq_one_iff] at hpng hnotJpg hnotJpeg
    exact congrFun ((if_neg hpng).trans ((if_neg hnotJpg).trans (if_neg hnotJpeg))) s

/-- No path is that of a PNG file and that of a JPEG file. -/
theorem not_png_of_isJpg (h : IsJpg path) : ¬ str ".png" <:+ path := by
  intro hpng
  rcases h with hjpg | hjpeg
  · have hsuffix := List.suffix_of_suffix_length_le hpng hjpg (by decide)
    exact absurd hsuffix (by decide)
  · have hsuffix := List.suffix_of_suffix_length_le hpng hjpeg (by decide)
    exact absurd hsuffix (by decide)

theorem selectsWriter_of_produced {zxing : BarcodeWriter F} {content : Bytes} {format : F}
    (h : Produced zxing content width height margin format matrix) :
    SelectsWriter zxing content path width height margin format matrix ↔ ¬ IsJpg path := by
  have hw := le_atLeast256 width
  have hh := le_atLeast256 height
  have hencode (W : Type) (io : ImageIo W) (s : W × List Output) :=
    @barqrEncode_of_ok _ matrix _ io zxing content path width height margin format s h.ok
      h.size_lt (not_lt.2 h.read_le)
  constructor
  · intro hselects hjpg
    have hpng := not_png_of_isJpg hjpg
    have hrun := hselects Unit workingIo ((), [])
    rw [hencode, writeImage_jpg hpng hjpg, selectedWriter, if_neg hpng, if_pos hjpg] at hrun
    exact stbiWrite_ne _ _ _ hrun.symm
  · intro hjpg W io s
    rw [hencode]
    exact writeImage_eq_selectedWriter hjpg (by omega) (width_mul_lt hw hh h.size_lt)

/-- **The selected writer.** For every content, size, margin and format of which a matrix is
produced, and every path: `barqr::encode` ends with the writer that belongs to the extension, and
`buffer_to_jpg` refuses the paths that it is to refuse, exactly when the path ends neither with
`.jpg` nor with `.jpeg`. The paths that `buffer_to_png` refuses are the right ones. -/
theorem selectsWriter_iff {zxing : BarcodeWriter F} {content : Bytes} {format : F}
    (h : Produced zxing content width height margin format matrix) (path : Path) :
    (SelectsWriter zxing content path width height margin format matrix ↔
        ¬ str ".jpg" <:+ path ∧ ¬ str ".jpeg" <:+ path) ∧
      (JpgRefusal path ↔ ¬ str ".jpg" <:+ path ∧ ¬ str ".jpeg" <:+ path) ∧ PngRefusal path := by
  rw [← not_or]
  exact ⟨selectsWriter_of_produced h, jpgRefusal_iff path, pngRefusal path⟩

/-- A matrix of the smallest size. -/
def blankMatrix : BitMatrix where
  width := 256
  height := 256
  bits := List.replicate (256 * 256) false
  length_bits := List.length_replicate
  area_lt := by decide

theorem produced_blank : Produced (fun (_ : Unit) _ _ _ _ => .ok blankMatrix) (str "a") 256 256 0 ()
    blankMatrix where
  ok := rfl
  size_lt := by decide
  read_le := by decide

/-- A bitmap file. -/
theorem selectsWriter_iff_png :
    (SelectsWriter (fun (_ : Unit) _ _ _ _ => .ok blankMatrix) (str "a") (str "qr.png") 256 256 0 ()
        blankMatrix ↔ ¬ str ".jpg" <:+ str "qr.png" ∧ ¬ str ".jpeg" <:+ str "qr.png") ∧
      (JpgRefusal (str "qr.png") ↔
        ¬ str ".jpg" <:+ str "qr.png" ∧ ¬ str ".jpeg" <:+ str "qr.png") ∧
      PngRefusal (str "qr.png") :=
  selectsWriter_iff produced_blank (str "qr.png")

/-- A JPEG file is not written, and -1 is returned. -/
theorem not_selectsWriter_jpg :
    ¬ SelectsWriter (fun (_ : Unit) _ _ _ _ => .ok blankMatrix) (str "a") (str "qr.jpg") 256 256 0
        () blankMatrix ∧
      ¬ JpgRefusal (str "qr.jpg") := by
  rw [selectsWriter_of_produced produced_blank, jpgRefusal_iff]
  decide

end Behh
