import Behh.Library.Raster
import Behh.Std.Numerals
import Behh.Utility.JsonFiles

/-!
# Barcode images

`barqr::encode` of `src/generate.cc` asks a barcode writer for a matrix of modules and renders it as
a bitmap or as an SVG document. Both renderings go through the positions of the requested size and
read the matrix at each of them. The matrix has a size of its own: a read is an index into its bits,
computed with its own width, and throws past the end.

The barcode writer, the writers of bitmap files and the stream that takes the SVG document are
parameters. What is handed to one of them is recorded. An arithmetic overflow and a write outside of
a buffer are no outcome.

## Main definitions

* `BitMatrix`, `BitMatrix.get`: a matrix of modules.
* `fillPixels`, `svgRects`: the loops over the positions of the image.
* `matrixToSvg`, `bufferToPng`, `bufferToJpg`, `writeImage`, `barqrEncode`: the functions.

## Main results

* `fillPixels_eq`, `fillPixels_throws`: what the loop makes of the buffer.
* `svgRects_eq`: the rectangles of the document.
-/

namespace Behh

/-! ### The matrix -/

/-- `ZXing::BitMatrix`. Its constructor throws when the number of bits is not an `int`. -/
structure BitMatrix where
  /-- `_width`. -/
  width : ℕ
  /-- `_height`. -/
  height : ℕ
  /-- `_bits`, row by row. -/
  bits : List Bool
  /-- There is a bit for each position. -/
  length_bits : bits.length = height * width
  /-- The number of bits is an `int`. -/
  area_lt : height * width < 2 ^ 31

namespace BitMatrix

/-- The bit at an index; `false` past the end. -/
def bit (matrix : BitMatrix) (x y : ℕ) : Bool := (matrix.bits[y * matrix.width + x]?).getD false

/-- `get(x, y)`, which reads the bit `y * _width + x`, whatever row it is in. Past the end it
throws. -/
def get (matrix : BitMatrix) (x y : ℕ) : Except Unit Bool :=
  if y * matrix.width + x < matrix.bits.length then .ok (matrix.bit x y) else .error ()

variable {matrix : BitMatrix} {x y : ℕ}

theorem get_of_lt (h : y * matrix.width + x < matrix.bits.length) :
    matrix.get x y = .ok (matrix.bit x y) := if_pos h

theorem get_of_not_lt (h : ¬ y * matrix.width + x < matrix.bits.length) :
    matrix.get x y = .error () := if_neg h

end BitMatrix

/-! ### The bitmap -/

/-- The RGBA bytes of a pixel. -/
def rgba (black : Bool) : Bytes := if black then [0, 0, 0, 255] else [255, 255, 255, 255]

@[simp] theorem length_rgba (black : Bool) : (rgba black).length = 4 := by
  cases black <;> rfl

theorem rgba_eq_black_iff {black : Bool} : rgba black = [0, 0, 0, 255] ↔ black = true := by
  cases black <;> decide

/-- The four assignments to `image_data` at `pixel_index`; past the end they have no outcome. -/
def writePixel (data : Bytes) (index : ℕ) (black : Bool) : Option Bytes :=
  if index + 4 ≤ data.length then some (data.take index ++ rgba black ++ data.drop (index + 4))
  else none

/-- The loop over the pixels of `image_data`, of which `positions` are left. -/
def fillPixels (matrix : BitMatrix) (width : ℕ) :
    List (ℕ × ℕ) → Bytes → Option (Except Unit Bytes)
  | [], data => some (.ok data)
  | (x, y) :: positions, data =>
    match matrix.get x y with
    | .error e => some (.error e)
    | .ok black =>
      (writePixel data ((y * width + x) * 4) black).bind (fillPixels matrix width positions)

/-! ### The SVG document -/

/-- An SVG document with a white background and black squares. -/
structure Svg where
  /-- The width of the document. -/
  width : ℤ
  /-- The height of the document. -/
  height : ℤ
  /-- The squares, by their upper left corners. -/
  rects : List (ℤ × ℤ)

/-- The element of a black square. -/
def rectText (x y : ℤ) : Bytes :=
  str "<rect x=\"" ++ intNumeral x ++ str "\" y=\"" ++ intNumeral y ++
    str "\" width=\"1\" height=\"1\" fill=\"black\" />\n"

/-- The text of a document, `ss.str()`. -/
def Svg.text (doc : Svg) : Bytes :=
  str "<?xml version=\"1.0\" encoding=\"UTF-8\"?>\n" ++
    str "<svg xmlns=\"http://www.w3.org/2000/svg\" version=\"1.1\" width=\"" ++
      intNumeral doc.width ++ str "\" height=\"" ++ intNumeral doc.height ++ str "\">\n" ++
    str "<rect id=\"background\" width=\"" ++ intNumeral doc.width ++ str "\" height=\"" ++
      intNumeral doc.height ++ str "\" fill=\"white\" />\n" ++
    (doc.rects.map fun p => rectText p.1 p.2).flatten ++ str "</svg>\n"

/-- The loop over the modules, of which `positions` are left. -/
def svgRects (matrix : BitMatrix) (margin : ℤ) : List (ℕ × ℕ) → Except Unit (List (ℤ × ℤ))
  | [] => .ok []
  | (x, y) :: positions =>
    match matrix.get x y with
    | .error e => .error e
    | .ok black =>
      (svgRects matrix margin positions).map fun rects =>
        if black then (x + margin, y + margin) :: rects else rects

/-! ### The functions -/

/-- What is handed to a writer of images. -/
inductive Output where
  /-- `stbi_write_png(path, x, y, comp, data, stride)`. -/
  | png (path : Path) (x y comp : ℤ) (data : Bytes) (stride : ℤ)
  /-- `stbi_write_jpg(path, x, y, comp, data, quality)`. -/
  | jpg (path : Path) (x y comp : ℤ) (data : Bytes) (quality : ℤ)
  /-- The text written to the stream. -/
  | svg (path : Path) (text : Bytes)

/-- The writers of images, with their states. -/
structure ImageIo (W : Type) where
  /-- `stbi_write_png` and `stbi_write_jpg`: the value returned. -/
  stbiWrite : Output → W → ℤ × W
  /-- `std::ofstream file(path)`: whether the stream is open. -/
  isOpen : Path → W → Bool × W
  /-- `file << text; file.close();`. -/
  put : Path → Bytes → W → W

/-- A barcode writer: `MultiFormatWriter(format)` with `setMargin(margin)`, asked to `encode` a
content with a width and a height. It may throw. -/
abbrev BarcodeWriter (F : Type) : Type := F → ℤ → Bytes → ℤ → ℤ → Except Unit BitMatrix

/-- A value that is an `int32_t`; any other is an overflow and no outcome. -/
def int32 (n : ℤ) : Option ℤ := if -2 ^ 31 ≤ n ∧ n < 2 ^ 31 then some n else none

section Functions

variable {W F : Type} (io : ImageIo W)

/-- Calling a function of the bitmap library on an image, which is recorded. -/
def stbiWrite (o : Output) : Prog (W × List Output) ℤ := Prog.call fun s =>
  let r := io.stbiWrite o s.1
  (r.1, r.2, s.2 ++ [o])

/-- `image::matrix_to_svg`. -/
def matrixToSvg (fileOutput : Path) (matrix : BitMatrix) (width height margin : ℤ) :
    Prog (W × List Output) (Except Unit ℤ) := do
  let svgWidth ← Prog.lift ((int32 (2 * margin)).bind fun m => int32 (width + m))
  let svgHeight ← Prog.lift ((int32 (2 * margin)).bind fun m => int32 (height + m))
  match svgRects matrix margin (coords width.toNat height.toNat) with
  | .error e => return .error e
  | .ok rects =>
    let doc : Svg := ⟨svgWidth, svgHeight, rects⟩
    let isOpen ← Prog.call fun s =>
      let r := io.isOpen fileOutput s.1
      (r.1, r.2, s.2)
    if !isOpen then return .ok (-2)
    Prog.call fun s => ((), io.put fileOutput doc.text s.1, s.2 ++ [.svg fileOutput doc.text])
    return .ok 1

/-- `image::buffer_to_png`. -/
def bufferToPng (fileOutput : Path) (buffer : Bytes) (width height stbComp : ℤ) :
    Prog (W × List Output) ℤ := do
  if inputEndsWith fileOutput (str ".png") ≠ 1 then return -1
  let stride ← Prog.lift (int32 (width * 4))
  stbiWrite io (.png (cString fileOutput) width height stbComp buffer stride)

/-- `image::buffer_to_jpg`. -/
def bufferToJpg (fileOutput : Path) (buffer : Bytes) (width height stbComp : ℤ) :
    Prog (W × List Output) ℤ := do
  if inputEndsWith fileOutput (str ".jpg") ≠ 1 ∨ inputEndsWith fileOutput (str ".jpeg") ≠ 1 then
    return -1
  let quality ← Prog.lift (int32 (width * 4))
  stbiWrite io (.jpg (cString fileOutput) width height stbComp buffer quality)

/-- The extension of the path selects the writer. The branch for `.svg` and the one for any other
path are the same. -/
def writeImage (fileOutput : Path) (matrix : BitMatrix) (imageData : Bytes)
    (width height margin : ℤ) : Prog (W × List Output) ℤ := do
  if inputEndsWith fileOutput (str ".png") = 1 then
    bufferToPng io fileOutput imageData width height 4
  else if inputEndsWith fileOutput (str ".jpg") = 1 then
    bufferToJpg io fileOutput imageData width height 4
  else if inputEndsWith fileOutput (str ".jpeg") = 1 then
    bufferToJpg io fileOutput imageData width height 4
  else
    match ← matrixToSvg io (cString fileOutput) matrix width height margin with
    | .error _ => return -69
    | .ok code => return code

/-- `_width` and `_height` for a requested size. -/
def atLeast256 (size : ℤ) : ℤ := if size ≤ 256 then 256 else size

/-- `_margin` for a requested margin. -/
def atLeast0 (margin : ℤ) : ℤ := if margin ≤ 0 then 0 else margin

/-- `_width * _height * _channels`. -/
def imageSize (width height channels : ℤ) : Option ℤ :=
  (int32 (width * height)).bind fun area => int32 (area * channels)

/-- `barqr::encode`. The vector of `channels` bytes for each pixel throws when its size is
negative. -/
def barqrEncode (zxing : BarcodeWriter F) (content : Bytes) (fileOutput : Path)
    (width height margin : ℤ) (format : F) (channels : ℤ) : Prog (W × List Output) ℤ := do
  let width := atLeast256 width
  let height := atLeast256 height
  let margin := atLeast0 margin
  match zxing format margin content width height with
  | .error _ => return -69
  | .ok matrix =>
    let size ← Prog.lift (imageSize width height channels)
    if size < 0 then
      return -69
    else
      match ← Prog.lift (fillPixels matrix width.toNat (coords width.toNat height.toNat)
        (List.replicate size.toNat 0)) with
      | .error _ => return -69
      | .ok imageData => writeImage io fileOutput matrix imageData width height margin

end Functions

/-! ### The loops -/

section Loops

variable {matrix : BitMatrix} {width k : ℕ} {positions : List (ℕ × ℕ)}

/-- Reading throws nowhere among the positions. -/
def BitMatrix.Covers (matrix : BitMatrix) (positions : List (ℕ × ℕ)) : Prop :=
  ∀ p ∈ positions, p.2 * matrix.width + p.1 < matrix.bits.length

/-- A loop over consecutive positions, the first of which has the index `k`: a buffer that is long
enough holds their pixels behind its first `4 * k` bytes. -/
theorem fillPixels_eq (hcovers : matrix.Covers positions)
    (hindex : positions.map (fun p => p.2 * width + p.1) = List.range' k positions.length)
    {first rest : Bytes} (hfirst : first.length = 4 * k)
    (hrest : 4 * positions.length ≤ rest.length) :
    fillPixels matrix width positions (first ++ rest) =
      some (.ok (first ++ (positions.map fun p => rgba (matrix.bit p.1 p.2)).flatten ++
        rest.drop (4 * positions.length))) := by
  induction positions generalizing k first rest with
  | nil => simp [fillPixels]
  | cons p positions ih =>
    obtain ⟨x, y⟩ := p
    rw [List.map_cons, List.length_cons, List.range'_succ] at hindex
    obtain ⟨hk, hindex⟩ := List.cons.inj hindex
    rw [List.length_cons] at hrest
    have hpixel : writePixel (first ++ rest) ((y * width + x) * 4) (matrix.bit x y) =
        some (first ++ rgba (matrix.bit x y) ++ rest.drop 4) := by
      have hat : (y * width + x) * 4 = first.length := by
        rw [hfirst, Nat.mul_comm]
        exact congrArg (4 * ·) hk
      rw [hat, writePixel, if_pos (by rw [List.length_append]; omega), List.take_left,
        List.drop_length_add_append]
    have hfirst' : (first ++ rgba (matrix.bit x y)).length = 4 * (k + 1) := by
      rw [List.length_append, length_rgba, hfirst]
      omega
    rw [fillPixels, BitMatrix.get_of_lt (hcovers _ List.mem_cons_self)]
    simp only [hpixel, Option.bind_some]
    rw [ih (fun q hq => hcovers q (List.mem_cons_of_mem _ hq)) hindex hfirst'
      (by rw [List.length_drop]; omega), List.drop_drop, List.map_cons, List.flatten_cons,
      List.length_cons, ← List.append_assoc, show 4 + 4 * positions.length =
        4 * (positions.length + 1) by omega]

/-- A loop that reads past the end of the matrix throws, when the buffer is long enough for the
positions. -/
theorem fillPixels_throws (hcovers : ¬ matrix.Covers positions) {data : Bytes}
    (hdata : ∀ p ∈ positions, (p.2 * width + p.1) * 4 + 4 ≤ data.length) :
    fillPixels matrix width positions data = some (.error ()) := by
  induction positions generalizing data with
  | nil => exact absurd (fun p hp => by cases hp) hcovers
  | cons p positions ih =>
    obtain ⟨x, y⟩ := p
    have hhead := hdata _ List.mem_cons_self
    by_cases hread : y * matrix.width + x < matrix.bits.length
    · have htail : ¬ matrix.Covers positions := fun h =>
        hcovers (List.forall_mem_cons.2 ⟨hread, h⟩)
      rw [fillPixels, BitMatrix.get_of_lt hread]
      simp only [writePixel, if_pos hhead, Option.bind_some]
      refine ih htail fun q hq => ?_
      have hq' := hdata q (List.mem_cons_of_mem _ hq)
      simp only [List.length_append, List.length_take, List.length_drop, length_rgba]
      omega
    · rw [fillPixels, BitMatrix.get_of_not_lt hread]

/-- The document has a square for each set bit. -/
theorem svgRects_eq (hcovers : matrix.Covers positions) (margin : ℤ) :
    svgRects matrix margin positions =
      .ok ((positions.filter fun p => matrix.bit p.1 p.2).map fun p =>
        ((p.1 : ℤ) + margin, (p.2 : ℤ) + margin)) := by
  induction positions with
  | nil => rfl
  | cons p positions ih =>
    obtain ⟨x, y⟩ := p
    rw [svgRects, BitMatrix.get_of_lt (hcovers _ List.mem_cons_self),
      ih fun q hq => hcovers q (List.mem_cons_of_mem _ hq)]
    by_cases hbit : matrix.bit x y = true
    · simp [hbit, Except.map]
    · simp [hbit, Except.map]

end Loops

end Behh
