import Behh.Generate.PixelBounds
import Mathlib.Data.List.Nodup

/-!
# Two renderings of one symbol

`barqr::encode` renders a matrix as a bitmap or as an SVG document, each with loops of its own. The
bitmap has no margin: it is a vector in which the pixel `(x, y)` has the index
`(y * width + x) * 4`. The document is a list of squares, moved by the margin.

The matrix has the size of the image here, so that no read is past its end. The sizes need not be at
least 256, and may be 0.

## Main definitions

* `SameSymbol`: a bitmap and a drawing that show the same modules.

## Main results

* `get_of_size`, `slice_pixelIndex`: a module and its pixel.
* `nodup_squares`: no square is drawn twice.
* `matrixToSvg_of_size`: the document.
* `barqrRenderings_agree`: the bitmap and the document show the same symbol.
-/

namespace Behh

variable {matrix : BitMatrix} {x y w h : ℕ} {margin : ℤ}

/-! ### The bitmap -/

theorem covers_of_size (matrix : BitMatrix) :
    matrix.Covers (coords matrix.width matrix.height) := by
  rintro ⟨x, y⟩ hp
  obtain ⟨hx, hy⟩ := mem_coords.1 hp
  rw [matrix.length_bits]
  exact index_lt hx hy

theorem get_of_size (hx : x < matrix.width) (hy : y < matrix.height) :
    matrix.get x y = .ok (matrix.bit x y) :=
  BitMatrix.get_of_lt (covers_of_size matrix (x, y) (mem_coords.2 ⟨hx, hy⟩))

theorem imageSize_of_size (hsize : (w : ℤ) * h * 4 < 2 ^ 31) :
    imageSize w h 4 = some ((4 * (h * w) : ℕ) : ℤ) := by
  have hpos : (0 : ℤ) ≤ w * h := Int.mul_nonneg (Int.natCast_nonneg w) (Int.natCast_nonneg h)
  rw [imageSize, int32_of_lt hpos (by omega), Option.bind_some, int32_of_lt (by omega) hsize]
  push_cast
  ring_nf

/-- The four bytes of a pixel, at its index. -/
theorem slice_pixelIndex (hx : x < w) (hy : y < h) (hsize : (w : ℤ) * h * 4 < 2 ^ 31) :
    ∃ index : ℕ, pixelIndex w x y = some (index : ℤ) ∧
      ((pixels matrix w h).drop index).take 4 = rgba (matrix.bit x y) := by
  have hindex := pixelIndex_eq (Int.natCast_nonneg x) (Int.ofNat_lt.2 hx) (Int.natCast_nonneg y)
    (Int.ofNat_lt.2 hy) hsize
  refine ⟨4 * (y * w + x), ?_, ?_⟩
  · rw [hindex]
    push_cast
    ring_nf
  · exact slice_flatten_map (fun p => length_rgba (matrix.bit p.1 p.2)) (getElem?_coords hx hy)

/-! ### The document -/

theorem nodup_coords (w h : ℕ) : (coords w h).Nodup := by
  apply List.Nodup.of_map fun p => p.2 * w + p.1
  rw [map_index_coords]
  exact List.nodup_range

theorem nodup_squares (matrix : BitMatrix) (w h : ℕ) (margin : ℤ) :
    (squares matrix w h margin).Nodup := by
  refine ((nodup_coords w h).filter _).map ?_
  rintro ⟨x, y⟩ ⟨x', y'⟩ heq
  obtain ⟨hx, hy⟩ := Prod.mk.inj heq
  exact Prod.ext (by omega) (by omega)

/-- The document of a matrix of the size of the image. -/
theorem matrixToSvg_of_size {W : Type} (io : ImageIo W) (path : Path) (hmargin : 0 ≤ margin)
    (hwidth : matrix.width + 2 * margin < 2 ^ 31) (hheight : matrix.height + 2 * margin < 2 ^ 31)
    (s : W × List Output) (hopen : (io.isOpen path s.1).1 = true) :
    let doc : Svg := ⟨matrix.width + 2 * margin, matrix.height + 2 * margin,
      squares matrix matrix.width matrix.height margin⟩
    matrixToSvg io path matrix matrix.width matrix.height margin s =
      some (.ok 1, io.put path doc.text (io.isOpen path s.1).2, s.2 ++ [.svg path doc.text]) := by
  have hm := int32_of_lt (show 0 ≤ 2 * margin by omega) (by omega)
  have hw := int32_of_lt (show 0 ≤ matrix.width + 2 * margin by omega) hwidth
  have hh := int32_of_lt (show 0 ≤ matrix.height + 2 * margin by omega) hheight
  simp [matrixToSvg, svgRects_eq (covers_of_size matrix), squares, hm, hw, hh, hopen]

/-! ### The agreement -/

/-- The squares without the margin are the black pixels of the bitmap. -/
theorem mem_squares_iff_black (i j : ℤ) :
    (i + margin, j + margin) ∈ squares matrix w h margin ↔
      (bitmapPicture w h 4 (w * 4) (pixels matrix w h)).black i j := by
  rw [mem_squares]
  constructor
  · rintro ⟨x, y, hx, hy, hbit, hxx, hyy⟩
    obtain rfl : i = x := by omega
    obtain rfl : j = y := by omega
    exact black_bitmapPicture_iff.2 ⟨hx, hy, hbit⟩
  · intro hblack
    obtain ⟨⟨hi, -⟩, ⟨hj, -⟩, -⟩ := id hblack
    lift i to ℕ using hi
    lift j to ℕ using hj
    obtain ⟨hx, hy, hbit⟩ := black_bitmapPicture_iff.1 hblack
    exact ⟨i, j, hx, hy, hbit, rfl, rfl⟩

/-- The black square of a module. -/
def moduleRect (margin : ℤ) (x y : ℕ) : VectorImage.Rect :=
  ⟨x + margin, y + margin, 1, 1, str "black"⟩

/-- A bitmap and a drawing show the same symbol, that of a matrix. -/
structure SameSymbol (matrix : BitMatrix) (margin : ℤ) (data : Bytes)
    (drawing : VectorImage.Drawing) (squares : List VectorImage.Rect) : Prop where
  /-- A pixel is black when the module is set, and white otherwise. -/
  pixel : ∀ x y : ℕ, x < matrix.width → y < matrix.height → ∃ index : ℕ,
    pixelIndex matrix.width x y = some (index : ℤ) ∧
      ((matrix.get x y = .ok true ∧ (data.drop index).take 4 = [0, 0, 0, 255]) ∨
        (matrix.get x y = .ok false ∧ (data.drop index).take 4 = [255, 255, 255, 255]))
  /-- The drawing is a white background of its size, and the squares on it. -/
  rects : drawing.rects = ⟨0, 0, drawing.width, drawing.height, str "white"⟩ :: squares
  /-- No square is drawn twice. -/
  nodup : squares.Nodup
  /-- The squares are those of the set modules. -/
  rect_iff : ∀ r, r ∈ squares ↔ ∃ x y : ℕ, x < matrix.width ∧ y < matrix.height ∧
    matrix.get x y = .ok true ∧ r = moduleRect margin x y
  /-- The squares lie inside of the background. -/
  inside : ∀ r ∈ squares, (0 ≤ r.x ∧ r.x + r.width ≤ drawing.width) ∧
    (0 ≤ r.y ∧ r.y + r.height ≤ drawing.height)
  /-- What is black in the drawing are, without the margin, the black pixels. -/
  black_iff : ∀ i j : ℤ, drawing.fill (i + margin) (j + margin) = some (str "black") ↔
    (bitmapPicture matrix.width matrix.height 4 (matrix.width * 4) data).black i j

theorem sameSymbol_of_size (hmargin : 0 ≤ margin)
    (hsize : (matrix.width : ℤ) * matrix.height * 4 < 2 ^ 31) :
    SameSymbol matrix margin (pixels matrix matrix.width matrix.height)
      (⟨matrix.width + 2 * margin, matrix.height + 2 * margin,
        squares matrix matrix.width matrix.height margin⟩ : Svg).drawing
      ((squares matrix matrix.width matrix.height margin).map fun p =>
        ⟨p.1, p.2, 1, 1, str "black"⟩) where
  pixel x y hx hy := by
    obtain ⟨index, hindex, hslice⟩ := @slice_pixelIndex matrix _ _ _ _ hx hy hsize
    refine ⟨index, hindex, ?_⟩
    rw [get_of_size hx hy, hslice]
    cases matrix.bit x y with
    | true => exact Or.inl ⟨rfl, rfl⟩
    | false => exact Or.inr ⟨rfl, rfl⟩
  rects := rfl
  nodup := by
    refine (nodup_squares matrix matrix.width matrix.height margin).map fun p q heq => ?_
    obtain ⟨hx, hy, -⟩ := VectorImage.Rect.mk.inj heq
    exact Prod.ext hx hy
  rect_iff r := by
    rw [List.mem_map]
    constructor
    · rintro ⟨⟨i, j⟩, hp, rfl⟩
      obtain ⟨x, y, hx, hy, hbit, rfl, rfl⟩ := mem_squares.1 hp
      exact ⟨x, y, hx, hy, by rw [get_of_size hx hy, hbit], rfl⟩
    · rintro ⟨x, y, hx, hy, hget, rfl⟩
      rw [get_of_size hx hy] at hget
      exact ⟨(x + margin, y + margin),
        mem_squares.2 ⟨x, y, hx, hy, Except.ok.inj hget, rfl, rfl⟩, rfl⟩
  inside r hr := by
    obtain ⟨p, hp, rfl⟩ := List.mem_map.1 hr
    exact inside_squares hmargin p hp
  black_iff i j := by
    rw [(inside_squares hmargin).fill_eq_black_iff]
    exact mem_squares_iff_black i j

/-- **Two renderings.** For every matrix of the size of the image and every margin, when no product
and no sum overflows: the loops of `barqr::encode` fill the vector, `matrix_to_svg` writes a
text to a stream that is open, and the text is read as a drawing that shows the same symbol. -/
theorem barqrRenderings_agree (matrix : BitMatrix) (hmargin : 0 ≤ margin)
    (hsize : (matrix.width : ℤ) * matrix.height * 4 < 2 ^ 31)
    (hwidth : matrix.width + 2 * margin < 2 ^ 31) (hheight : matrix.height + 2 * margin < 2 ^ 31) :
    ∃ (data text : Bytes) (drawing : VectorImage.Drawing) (squares : List VectorImage.Rect),
      ((imageSize matrix.width matrix.height 4).bind fun size =>
        fillPixels matrix matrix.width (coords matrix.width matrix.height)
          (List.replicate size.toNat 0)) = some (.ok data) ∧
      (∀ (W : Type) (io : ImageIo W) (path : Path) (s : W × List Output),
        (io.isOpen path s.1).1 = true →
          matrixToSvg io path matrix matrix.width matrix.height margin s =
            some (.ok 1, io.put path text (io.isOpen path s.1).2, s.2 ++ [.svg path text])) ∧
      VectorImage.read text = some drawing ∧ SameSymbol matrix margin data drawing squares := by
  refine ⟨_, _, _, _, ?_, ?_, read_text _, sameSymbol_of_size hmargin hsize⟩
  · rw [imageSize_of_size hsize, Option.bind_some, Int.toNat_natCast]
    exact fillPixels_of_covers (covers_of_size matrix)
  · intro W io path s hopen
    exact matrixToSvg_of_size io path hmargin hwidth hheight s hopen

/-- A matrix of two modules in one row, with a margin of three. -/
theorem barqrRenderings_agree_two :
    ∃ (data text : Bytes) (drawing : VectorImage.Drawing) (squares : List VectorImage.Rect),
      ((imageSize 2 1 4).bind fun size =>
        fillPixels ⟨2, 1, [true, false], rfl, by decide⟩ 2 (coords 2 1)
          (List.replicate size.toNat 0)) = some (.ok data) ∧
      (∀ (W : Type) (io : ImageIo W) (path : Path) (s : W × List Output),
        (io.isOpen path s.1).1 = true →
          matrixToSvg io path ⟨2, 1, [true, false], rfl, by decide⟩ 2 1 3 s =
            some (.ok 1, io.put path text (io.isOpen path s.1).2, s.2 ++ [.svg path text])) ∧
      VectorImage.read text = some drawing ∧
      SameSymbol ⟨2, 1, [true, false], rfl, by decide⟩ 3 data drawing squares :=
  barqrRenderings_agree ⟨2, 1, [true, false], rfl, by decide⟩ (by decide) (by decide) (by decide)
    (by decide)

end Behh
