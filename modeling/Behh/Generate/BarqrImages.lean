import Behh.Generate.SvgDocument

/-!
# Completeness of barcode images

The loops of `barqr::encode` and `image::matrix_to_svg` run over the requested size, and the matrix
that they read has its own. When they read past its end, `encode` reports an exception. When they do
not, the matrix has more rows than were read, or is as wide as the image: a bitmap shows all of it
exactly when the sizes agree, and cuts off the rest otherwise. In an SVG document the margin is
white, so that what lies outside of the loops may be lost without being missed if it is white. What
an SVG document shows is read from the text that has been written.

## Main definitions

* `Picture`, `Output.picture`: what an image shows.
* `svgPicture`: what the text of a document shows.
* `Picture.Shows`: a picture that shows the modules of a matrix, and nothing else.
* `ImageComplete`: what `encode` writes when it returns 1 shows the matrix.
* `FitsDocument`, `FitsImage`: the sizes agree, as far as it can be seen.

## Main results

* `covers_coords_iff`: when reading throws.
* `imageComplete_iff`: the matrices of which the images are complete.
-/

namespace Behh

/-! ### Pictures -/

/-- A picture: its size, and where it is black. -/
structure Picture where
  /-- The number of columns. -/
  width : ℤ
  /-- The number of rows. -/
  height : ℤ
  /-- The black points. -/
  black : ℤ → ℤ → Prop

/-- The picture of a bitmap whose rows are `stride` bytes long. -/
def bitmapPicture (width height comp stride : ℤ) (data : Bytes) : Picture where
  width := width
  height := height
  black i j := (0 ≤ i ∧ i < width) ∧ (0 ≤ j ∧ j < height) ∧
    (data.drop (j * stride + i * comp).toNat).take 4 = [0, 0, 0, 255]

/-- The picture of a text that is read as a drawing; any other shows nothing. -/
def svgPicture (text : Bytes) : Picture :=
  match VectorImage.read text with
  | some d => ⟨d.width, d.height, fun i j => d.fill i j = some (str "black")⟩
  | none => ⟨0, 0, fun _ _ => False⟩

/-- What an image shows. -/
def Output.picture : Output → Picture
  | .png _ x y comp data stride => bitmapPicture x y comp stride data
  | .jpg _ x y comp data _ => bitmapPicture x y comp (x * comp) data
  | .svg _ text => svgPicture text

/-- Where the matrix begins in an image. -/
def Output.offset (margin : ℤ) : Output → ℤ
  | .svg _ _ => margin
  | _ => 0

/-- Every module of the matrix is in the picture, at its own position from `offset` on, and black
if it is set. Nothing else is black. -/
def Picture.Shows (p : Picture) (matrix : BitMatrix) (offset : ℤ) : Prop :=
  (∀ x y : ℕ, x < matrix.width → y < matrix.height →
    (0 ≤ x + offset ∧ x + offset < p.width) ∧ (0 ≤ y + offset ∧ y + offset < p.height) ∧
      (p.black (x + offset) (y + offset) ↔ matrix.bit x y = true)) ∧
  ∀ i j, p.black i j →
    ∃ x y : ℕ, x < matrix.width ∧ y < matrix.height ∧ i = x + offset ∧ j = y + offset

variable {F : Type}

/-- Whatever the writers of images do: when `barqr::encode` returns 1, it has handed one image to
them, which shows the matrix that the barcode writer has made. -/
def ImageComplete (zxing : BarcodeWriter F) (content : Bytes) (fileOutput : Path)
    (width height margin : ℤ) (format : F) : Prop :=
  ∀ (W : Type) (io : ImageIo W) (w : W) s,
    barqrEncode io zxing content fileOutput width height margin format 4 (w, []) = some (1, s) →
      ∃ matrix o, zxing format (atLeast0 margin) content (atLeast256 width) (atLeast256 height) =
          .ok matrix ∧
        s.2 = [o] ∧ o.picture.Shows matrix (o.offset (atLeast0 margin))

/-! ### Reading past the end -/

variable {matrix : BitMatrix} {w h x y : ℕ}

/-- The last read is the one with the largest index. -/
theorem covers_coords_iff (hw : 0 < w) (hh : 0 < h) :
    matrix.Covers (coords w h) ↔ (h - 1) * matrix.width + w ≤ matrix.height * matrix.width := by
  rw [← matrix.length_bits]
  constructor
  · intro hcovers
    have hlast := hcovers (w - 1, h - 1) (mem_coords.2 ⟨by omega, by omega⟩)
    simp only at hlast
    omega
  · rintro hle ⟨x, y⟩ hxy
    obtain ⟨hx, hy⟩ := mem_coords.1 hxy
    have hrow := Nat.mul_le_mul_right matrix.width (show y ≤ h - 1 by omega)
    simp only
    omega

theorem pos_of_covers (hw : 0 < w) (hh : 0 < h) (hcovers : matrix.Covers (coords w h)) :
    0 < matrix.width ∧ 0 < matrix.height := by
  rw [covers_coords_iff hw hh] at hcovers
  have hpos : 0 < matrix.height * matrix.width := by omega
  exact ⟨Nat.pos_of_mul_pos_left hpos, Nat.pos_of_mul_pos_right hpos⟩

/-- A matrix that is read and not larger than the image has the size of the image. -/
theorem eq_of_covers (hw : 0 < w) (hh : 0 < h) (hcovers : matrix.Covers (coords w h))
    (hwidth : matrix.width ≤ w) (hheight : matrix.height ≤ h) :
    matrix.width = w ∧ matrix.height = h := by
  have hpos := (pos_of_covers hw hh hcovers).1
  rw [covers_coords_iff hw hh] at hcovers
  have hrows := Nat.mul_le_mul_right matrix.width hheight
  have hlast : h * matrix.width = (h - 1) * matrix.width + matrix.width := by
    rw [← Nat.succ_mul, Nat.succ_eq_add_one, Nat.sub_add_cancel hh]
  refine ⟨by omega, Nat.eq_of_mul_eq_mul_right hpos ?_⟩
  omega

/-! ### The run -/

/-- The pixels of a bitmap. -/
def pixels (matrix : BitMatrix) (w h : ℕ) : Bytes :=
  ((coords w h).map fun p => rgba (matrix.bit p.1 p.2)).flatten

/-- The squares of a document. -/
def squares (matrix : BitMatrix) (w h : ℕ) (margin : ℤ) : List (ℤ × ℤ) :=
  ((coords w h).filter fun p => matrix.bit p.1 p.2).map fun p =>
    ((p.1 : ℤ) + margin, (p.2 : ℤ) + margin)

theorem int32_of_lt {n : ℤ} (h0 : 0 ≤ n) (hn : n < 2 ^ 31) : int32 n = some n :=
  if_pos ⟨by omega, hn⟩

theorem int32_of_le {n : ℤ} (hn : 2 ^ 31 ≤ n) : int32 n = none := if_neg (by omega)

theorem le_atLeast256 (size : ℤ) : 256 ≤ atLeast256 size := by
  rw [atLeast256]
  split_ifs <;> omega

theorem bitmapSize_nonneg (width height : ℤ) : 0 ≤ atLeast256 width * atLeast256 height * 4 := by
  have hw := le_atLeast256 width
  have hh := le_atLeast256 height
  exact Int.mul_nonneg (Int.mul_nonneg (by omega) (by omega)) (by omega)

theorem atLeast0_nonneg (margin : ℤ) : 0 ≤ atLeast0 margin := by
  rw [atLeast0]
  split_ifs <;> omega

theorem imageSize_eq {width height channels : ℤ} (hwidth : 256 ≤ width) (hheight : 256 ≤ height)
    (hchannels : 1 ≤ channels) :
    imageSize width height channels =
      if width * height * channels < 2 ^ 31 then some (width * height * channels) else none := by
  have hpos : 0 ≤ width * height := Int.mul_nonneg (by omega) (by omega)
  have hle : width * height ≤ width * height * channels := le_mul_of_one_le_right hpos hchannels
  rw [imageSize]
  by_cases harea : width * height < 2 ^ 31
  · rw [int32_of_lt hpos harea, Option.bind_some]
    split_ifs with hsize
    · exact int32_of_lt (by omega) hsize
    · exact int32_of_le (not_lt.1 hsize)
  · rw [int32_of_le (not_lt.1 harea), if_neg (by omega)]
    rfl

/-- What the loop makes of the new vector, when no read is past the end. -/
theorem fillPixels_of_covers (hcovers : matrix.Covers (coords w h)) :
    fillPixels matrix w (coords w h) (List.replicate (4 * (h * w)) 0) =
      some (.ok (pixels matrix w h)) := by
  have hindex : (coords w h).map (fun p => p.2 * w + p.1) =
      List.range' 0 (coords w h).length := by
    rw [map_index_coords, length_coords, List.range_eq_range']
  have hfill := @fillPixels_eq _ _ _ _ hcovers hindex [] (List.replicate (4 * (h * w)) 0) rfl
    (by simp)
  rwa [List.nil_append, List.nil_append, length_coords, List.drop_of_length_le (by simp),
    List.append_nil] at hfill

theorem fillPixels_coords {width height : ℤ} (hwidth : 256 ≤ width) (hheight : 256 ≤ height) :
    fillPixels matrix width.toNat (coords width.toNat height.toNat)
      (List.replicate (width * height * 4).toNat 0) =
      some (if matrix.height * matrix.width <
          (height.toNat - 1) * matrix.width + width.toNat then .error ()
        else .ok (pixels matrix width.toNat height.toNat)) := by
  lift width to ℕ using by omega
  lift height to ℕ using by omega
  simp only [Int.toNat_natCast]
  have hsize : ((width : ℤ) * height * 4).toNat = 4 * (height * width) := by
    rw [Int.mul_comm, Int.mul_comm (width : ℤ)]
    exact Int.toNat_natCast (4 * (height * width))
  have hcovers := @covers_coords_iff matrix width height (by omega) (by omega)
  rw [hsize]
  split_ifs with hpast
  · refine fillPixels_throws (fun h => ?_) ?_
    · exact absurd (hcovers.1 h) (not_le.2 hpast)
    · rintro ⟨x, y⟩ hp
      obtain ⟨hx, hy⟩ := mem_coords.1 hp
      have hlt := index_lt hx hy
      rw [List.length_replicate]
      simp only
      omega
  · exact fillPixels_of_covers (hcovers.2 (not_lt.1 hpast))

section Run

variable {W : Type} {io : ImageIo W} {zxing : BarcodeWriter F} {content : Bytes} {path : Path}
  {width height margin : ℤ} {format : F} {s s' : W × List Output}

/-- When the barcode writer has made a matrix, the size of the bitmap is an `int32_t` and no read is
past the end, what is left of `encode` is writing the image. -/
theorem barqrEncode_of_ok
    (hzxing : zxing format (atLeast0 margin) content (atLeast256 width) (atLeast256 height) =
      .ok matrix)
    (hsize : atLeast256 width * atLeast256 height * 4 < 2 ^ 31)
    (hpast : ¬ matrix.height * matrix.width <
      ((atLeast256 height).toNat - 1) * matrix.width + (atLeast256 width).toNat) :
    barqrEncode io zxing content path width height margin format 4 s =
      writeImage io path matrix (pixels matrix (atLeast256 width).toNat (atLeast256 height).toNat)
        (atLeast256 width) (atLeast256 height) (atLeast0 margin) s := by
  have hw := le_atLeast256 width
  have hh := le_atLeast256 height
  have hpos := not_lt.2 (bitmapSize_nonneg width height)
  have himage := imageSize_eq hw hh (show (1 : ℤ) ≤ 4 by decide)
  have hfill := @fillPixels_coords matrix _ _ hw hh
  rw [if_pos hsize] at himage
  rw [if_neg hpast] at hfill
  simp only [barqrEncode, hzxing, himage, Prog.bind_apply, Prog.lift_apply, Option.map_some,
    Option.bind_some, if_neg hpos, hfill]

/-- `encode` returns 1 when the barcode writer has made a matrix, the size of the bitmap is an
`int32_t`, no read is past the end, and writing the image returns 1. -/
theorem barqrEncode_eq_one_iff :
    barqrEncode io zxing content path width height margin format 4 s = some (1, s') ↔
      ∃ matrix, zxing format (atLeast0 margin) content (atLeast256 width) (atLeast256 height) =
          .ok matrix ∧
        atLeast256 width * atLeast256 height * 4 < 2 ^ 31 ∧
        ¬ matrix.height * matrix.width <
          ((atLeast256 height).toNat - 1) * matrix.width + (atLeast256 width).toNat ∧
        writeImage io path matrix
          (pixels matrix (atLeast256 width).toNat (atLeast256 height).toNat) (atLeast256 width)
          (atLeast256 height) (atLeast0 margin) s = some (1, s') := by
  have hw := le_atLeast256 width
  have hh := le_atLeast256 height
  have hpos := not_lt.2 (bitmapSize_nonneg width height)
  cases hzxing : zxing format (atLeast0 margin) content (atLeast256 width) (atLeast256 height) with
  | error e => simp [barqrEncode, hzxing]
  | ok matrix =>
    have himage := imageSize_eq hw hh (show (1 : ℤ) ≤ 4 by decide)
    have hfill := @fillPixels_coords matrix _ _ hw hh
    simp only [Except.ok.injEq, exists_eq_left']
    by_cases hsize : atLeast256 width * atLeast256 height * 4 < 2 ^ 31
    · rw [if_pos hsize] at himage
      by_cases hpast : matrix.height * matrix.width <
          ((atLeast256 height).toNat - 1) * matrix.width + (atLeast256 width).toNat
      · rw [if_pos hpast] at hfill
        simp [barqrEncode, hzxing, himage, hpos, hfill, hpast]
      · rw [barqrEncode_of_ok hzxing hsize hpast]
        exact (and_iff_right hsize).trans (and_iff_right hpast) |>.symm
    · rw [if_neg hsize] at himage
      simp only [barqrEncode, hzxing, himage, Prog.bind_apply, Prog.lift_apply, Option.map_none,
        Option.bind_none]
      exact iff_of_false (by simp) fun h => hsize h.1

variable {w w' : W} {data : Bytes} {outs outs' : List Output}

/-- Writing a bitmap returns 1 when `stbi_write_png` does. -/
theorem writeImage_png (hpath : str ".png" <:+ path) (hwidth : 0 ≤ width)
    (hint : width * 4 < 2 ^ 31) :
    writeImage io path matrix data width height margin (w, outs) =
      some (let o := Output.png (cString path) width height 4 data (width * 4)
        ((io.stbiWrite o w).1, (io.stbiWrite o w).2, outs ++ [o])) := by
  have hpng := inputEndsWith_eq_one_iff.2 hpath
  simp [writeImage, bufferToPng, stbiWrite, hpng, int32_of_lt (show 0 ≤ width * 4 by omega) hint]

/-- No path has both extensions of a JPEG file, so that every path is refused. -/
theorem bufferToJpg_refuses (buffer : Bytes) (width height comp : ℤ) (s : W × List Output) :
    bufferToJpg io path buffer width height comp s = some (-1, s) := by
  have hboth : inputEndsWith path (str ".jpg") ≠ 1 ∨ inputEndsWith path (str ".jpeg") ≠ 1 := by
    by_contra hnot
    push Not at hnot
    have hsuffix := List.suffix_of_suffix_length_le (inputEndsWith_eq_one_iff.1 hnot.1)
      (inputEndsWith_eq_one_iff.1 hnot.2) (by decide)
    exact absurd hsuffix (by decide)
  simp [bufferToJpg, hboth]

theorem writeImage_jpg (hpng : ¬ str ".png" <:+ path)
    (hjpg : str ".jpg" <:+ path ∨ str ".jpeg" <:+ path) :
    writeImage io path matrix data width height margin s = some (-1, s) := by
  rw [← inputEndsWith_eq_one_iff] at hpng
  rw [← inputEndsWith_eq_one_iff, ← inputEndsWith_eq_one_iff] at hjpg
  rw [writeImage, if_neg hpng]
  by_cases h : inputEndsWith path (str ".jpg") = 1
  · rw [if_pos h, bufferToJpg_refuses]
  · rw [if_neg h, if_pos (hjpg.resolve_left h), bufferToJpg_refuses]

/-- Writing a document returns 1 when the stream is open. -/
theorem writeImage_svg (hpng : ¬ str ".png" <:+ path) (hjpg : ¬ str ".jpg" <:+ path)
    (hjpeg : ¬ str ".jpeg" <:+ path)
    (hcovers : matrix.Covers (coords width.toNat height.toNat)) :
    writeImage io path matrix data width height margin (w, outs) =
      ((int32 (2 * margin)).bind fun m => (int32 (width + m)).bind fun svgWidth =>
        (int32 (height + m)).map fun svgHeight =>
          let doc : Svg := ⟨svgWidth, svgHeight, squares matrix width.toNat height.toNat margin⟩
          let r := io.isOpen (cString path) w
          if r.1 then
            (1, io.put (cString path) doc.text r.2, outs ++ [.svg (cString path) doc.text])
          else (-2, r.2, outs)) := by
  simp only [← inputEndsWith_eq_one_iff] at hpng hjpg hjpeg
  rw [writeImage, if_neg hpng, if_neg hjpg, if_neg hjpeg]
  simp only [matrixToSvg, svgRects_eq hcovers]
  cases hm : int32 (2 * margin) with
  | none => simp
  | some m =>
    cases hw : int32 (width + m) with
    | none => simp [hw]
    | some svgWidth =>
      cases hh : int32 (height + m) with
      | none => simp [hw, hh]
      | some svgHeight =>
        by_cases hopen : (io.isOpen (cString path) w).1 = true
        · simp [hw, hh, hopen, squares]
        · simp [hw, hh, hopen]

end Run

/-! ### What the images show -/

theorem slice_pixels (hx : x < w) (hy : y < h) :
    ((pixels matrix w h).drop (y * (w * 4) + x * 4)).take 4 = rgba (matrix.bit x y) := by
  have hat : y * (w * 4) + x * 4 = 4 * (y * w + x) := by
    rw [Nat.mul_add, ← Nat.mul_assoc, Nat.mul_comm (y * w), Nat.mul_comm x]
  rw [hat]
  exact slice_flatten_map (fun p => length_rgba (matrix.bit p.1 p.2)) (getElem?_coords hx hy)

theorem black_bitmapPicture_iff :
    (bitmapPicture w h 4 (w * 4) (pixels matrix w h)).black x y ↔
      x < w ∧ y < h ∧ matrix.bit x y = true := by
  have hat : ((y : ℤ) * (w * 4) + x * 4).toNat = y * (w * 4) + x * 4 :=
    Int.toNat_natCast (y * (w * 4) + x * 4)
  simp only [bitmapPicture, hat]
  constructor
  · rintro ⟨⟨-, hx⟩, ⟨-, hy⟩, hslice⟩
    rw [slice_pixels (by omega) (by omega), rgba_eq_black_iff] at hslice
    exact ⟨by omega, by omega, hslice⟩
  · rintro ⟨hx, hy, hbit⟩
    rw [slice_pixels hx hy, rgba_eq_black_iff]
    exact ⟨⟨by omega, by omega⟩, ⟨by omega, by omega⟩, hbit⟩

/-- A bitmap of a matrix that is read shows the matrix when the sizes agree. -/
theorem shows_bitmap_iff (hw : 0 < w) (hh : 0 < h) (hcovers : matrix.Covers (coords w h)) :
    (bitmapPicture w h 4 (w * 4) (pixels matrix w h)).Shows matrix 0 ↔
      matrix.width = w ∧ matrix.height = h := by
  obtain ⟨hcols, hrows⟩ := pos_of_covers hw hh hcovers
  constructor
  · rintro ⟨hmodules, -⟩
    -- The last column and the last row of the matrix are in the bitmap.
    obtain ⟨⟨-, hx⟩, -⟩ := hmodules (matrix.width - 1) 0 (by omega) hrows
    obtain ⟨-, ⟨-, hy⟩, -⟩ := hmodules 0 (matrix.height - 1) hcols (by omega)
    simp only [bitmapPicture] at hx hy
    exact eq_of_covers hw hh hcovers (by omega) (by omega)
  · rintro ⟨rfl, rfl⟩
    constructor
    · intro x y hx hy
      rw [Int.add_zero, Int.add_zero, black_bitmapPicture_iff]
      refine ⟨?_, ?_, ?_⟩
      · simp only [bitmapPicture]
        omega
      · simp only [bitmapPicture]
        omega
      · exact ⟨fun h => h.2.2, fun h => ⟨hx, hy, h⟩⟩
    · rintro i j ⟨⟨hi, hi'⟩, ⟨hj, hj'⟩, -⟩
      exact ⟨i.toNat, j.toNat, by omega, by omega, by omega, by omega⟩

/-- The matrix fits into a document with the given margin: it does not reach beyond the margin,
no module outside of the loops is set, and no read that goes on in the next row finds a set
module there. -/
structure FitsDocument (matrix : BitMatrix) (w h : ℕ) (margin : ℤ) : Prop where
  width_le : (matrix.width : ℤ) ≤ w + margin
  height_le : (matrix.height : ℤ) ≤ h + margin
  lt_of_bit : ∀ x y, x < matrix.width → y < matrix.height → matrix.bit x y = true → x < w ∧ y < h
  bit_wrapped : ∀ x y, matrix.width ≤ x → x < w → y < h → matrix.bit x y = false

theorem mem_squares {margin i j : ℤ} : (i, j) ∈ squares matrix w h margin ↔
    ∃ x y : ℕ, x < w ∧ y < h ∧ matrix.bit x y = true ∧ i = x + margin ∧ j = y + margin := by
  simp only [squares, List.mem_map, List.mem_filter, Prod.exists, Prod.mk.injEq, mem_coords]
  grind

/-- A module that is read is a module of the matrix, if it is set. -/
theorem FitsDocument.lt_of_read {margin : ℤ} (hfits : FitsDocument matrix w h margin)
    (hcovers : matrix.Covers (coords w h)) (hx : x < w) (hy : y < h)
    (hbit : matrix.bit x y = true) : x < matrix.width ∧ y < matrix.height := by
  constructor
  · by_contra hwrap
    rw [hfits.bit_wrapped x y (by omega) hx hy] at hbit
    cases hbit
  · have hread := hcovers (x, y) (mem_coords.2 ⟨hx, hy⟩)
    rw [matrix.length_bits] at hread
    by_contra hge
    have hrow := Nat.mul_le_mul_right matrix.width (not_lt.1 hge)
    simp only at hread
    omega

/-- The squares lie inside of the background, which begins at the origin. -/
def Svg.Inside (doc : Svg) : Prop :=
  ∀ p ∈ doc.rects, (0 ≤ p.1 ∧ p.1 + 1 ≤ doc.width) ∧ (0 ≤ p.2 ∧ p.2 + 1 ≤ doc.height)

theorem inside_squares {margin : ℤ} (hmargin : 0 ≤ margin) :
    (⟨w + 2 * margin, h + 2 * margin, squares matrix w h margin⟩ : Svg).Inside := by
  rintro ⟨i, j⟩ hp
  obtain ⟨x, y, hx, hy, -, rfl, rfl⟩ := mem_squares.1 hp
  simp only
  omega

/-- A pixel of a document with its squares inside is black when a square is there. -/
theorem Svg.Inside.fill_eq_black_iff {doc : Svg} (h : doc.Inside) (i j : ℤ) :
    doc.drawing.fill i j = some (str "black") ↔ (i, j) ∈ doc.rects := by
  rw [Svg.drawing, VectorImage.fill_background]
  by_cases hcorner : (i, j) ∈ doc.rects
  · obtain ⟨hi, hj⟩ := h _ hcorner
    rw [if_pos hcorner, if_pos ⟨⟨hi.1, Int.lt_of_add_one_le hi.2⟩, hj.1,
      Int.lt_of_add_one_le hj.2⟩]
    exact iff_of_true rfl hcorner
  · rw [if_neg hcorner]
    refine iff_of_false (fun hblack => ?_) hcorner
    split at hblack
    · exact absurd (Option.some.inj hblack) (by decide)
    · cases hblack

/-- What the text of a document shows: its squares. -/
theorem Svg.Inside.picture_text {doc : Svg} (h : doc.Inside) :
    svgPicture doc.text = ⟨doc.width, doc.height, fun i j => (i, j) ∈ doc.rects⟩ := by
  have hblack : (fun i j => doc.drawing.fill i j = some (str "black")) =
      fun i j => (i, j) ∈ doc.rects :=
    funext fun i => funext fun j => propext (h.fill_eq_black_iff i j)
  rw [svgPicture, read_text]
  exact congrArg _ hblack

/-- A document of a matrix that is read shows the matrix when it fits. -/
theorem shows_document_iff {margin : ℤ} (hmargin : 0 ≤ margin) (hw : 0 < w) (hh : 0 < h)
    (hcovers : matrix.Covers (coords w h)) :
    (svgPicture (⟨w + 2 * margin, h + 2 * margin, squares matrix w h margin⟩ : Svg).text).Shows
      matrix margin ↔ FitsDocument matrix w h margin := by
  obtain ⟨hcols, hrows⟩ := pos_of_covers hw hh hcovers
  rw [(inside_squares hmargin).picture_text]
  simp only [Picture.Shows, mem_squares]
  constructor
  · rintro ⟨hmodules, hblack⟩
    constructor
    · obtain ⟨⟨-, hx⟩, -⟩ := hmodules (matrix.width - 1) 0 (by omega) hrows
      omega
    · obtain ⟨-, ⟨-, hy⟩, -⟩ := hmodules 0 (matrix.height - 1) hcols (by omega)
      omega
    · intro x y hx hy hbit
      obtain ⟨x', y', hx', hy', -, hxx, hyy⟩ := (hmodules x y hx hy).2.2.2 hbit
      omega
    · intro x y hwrap hx hy
      by_contra hbit
      obtain ⟨x', y', hx', -, hxx, -⟩ :=
        hblack _ _ ⟨x, y, hx, hy, by simpa using hbit, rfl, rfl⟩
      omega
  · intro hfits
    constructor
    · intro x y hx hy
      have hwidth := hfits.width_le
      have hheight := hfits.height_le
      refine ⟨by omega, by omega, ?_, ?_⟩
      · rintro ⟨x', y', -, -, hbit, hxx, hyy⟩
        obtain ⟨rfl, rfl⟩ : x = x' ∧ y = y' := by omega
        exact hbit
      · intro hbit
        obtain ⟨hx', hy'⟩ := hfits.lt_of_bit x y hx hy hbit
        exact ⟨x, y, hx', hy', hbit, rfl, rfl⟩
    · rintro i j ⟨x, y, hx, hy, hbit, rfl, rfl⟩
      obtain ⟨hx', hy'⟩ := hfits.lt_of_read hcovers hx hy hbit
      exact ⟨x, y, hx', hy', rfl, rfl⟩

/-! ### Complete images -/

/-- The condition for a path, for which the image is a bitmap or a document. Nothing is written to
the path of a JPEG file, and nothing when the size of the document overflows. -/
def FitsImage (matrix : BitMatrix) (path : Path) (w h : ℕ) (margin : ℤ) : Prop :=
  if str ".png" <:+ path then matrix.width = w ∧ matrix.height = h
  else str ".jpg" <:+ path ∨ str ".jpeg" <:+ path ∨ 2 ^ 31 ≤ w + 2 * margin ∨
    2 ^ 31 ≤ h + 2 * margin ∨ FitsDocument matrix w h margin

/-- Writers with which everything works. -/
def workingIo : ImageIo Unit where
  stbiWrite _ w := (1, w)
  isOpen _ w := (true, w)
  put _ _ w := w

/-- What is written when writing the image returns 1 shows the matrix. -/
def WritesComplete (matrix : BitMatrix) (path : Path) (w h : ℕ) (margin : ℤ) : Prop :=
  ∀ (W : Type) (io : ImageIo W) (v : W) s,
    writeImage io path matrix (pixels matrix w h) w h margin (v, []) = some (1, s) →
      ∃ o, s.2 = [o] ∧ o.picture.Shows matrix (o.offset margin)

section Complete

variable {margin : ℤ} {path : Path}

theorem writesComplete_png_iff (hw : 0 < w) (hh : 0 < h) (hcovers : matrix.Covers (coords w h))
    (hint : (w : ℤ) * 4 < 2 ^ 31) (hpng : str ".png" <:+ path) :
    WritesComplete matrix path w h margin ↔ matrix.width = w ∧ matrix.height = h := by
  have hrun := fun (W : Type) (io : ImageIo W) (v : W) =>
    @writeImage_png matrix W io path w h margin v (pixels matrix w h) [] hpng (by omega) hint
  have hshows := shows_bitmap_iff hw hh hcovers
  constructor
  · intro hall
    obtain ⟨o, ho, hpicture⟩ := hall Unit workingIo () _ (hrun Unit workingIo ())
    obtain rfl := List.singleton_injective ho
    exact hshows.1 hpicture
  · intro hsizes W io v s hone
    rw [hrun] at hone
    obtain ⟨-, rfl⟩ := Prod.mk.inj (Option.some_inj.1 hone)
    exact ⟨_, rfl, hshows.2 hsizes⟩

theorem writesComplete_jpg (hpng : ¬ str ".png" <:+ path)
    (hjpg : str ".jpg" <:+ path ∨ str ".jpeg" <:+ path) :
    WritesComplete matrix path w h margin := by
  intro W io v s hone
  rw [writeImage_jpg hpng hjpg] at hone
  have hcode := (Prod.mk.inj (Option.some_inj.1 hone)).1
  exact absurd hcode (by decide)

theorem writesComplete_svg_iff (hmargin : 0 ≤ margin) (hw : 0 < w) (hh : 0 < h)
    (hcovers : matrix.Covers (coords w h)) (hpng : ¬ str ".png" <:+ path)
    (hjpg : ¬ str ".jpg" <:+ path) (hjpeg : ¬ str ".jpeg" <:+ path)
    (hwidth : w + 2 * margin < 2 ^ 31) (hheight : h + 2 * margin < 2 ^ 31) :
    WritesComplete matrix path w h margin ↔ FitsDocument matrix w h margin := by
  have hrun : ∀ (W : Type) (io : ImageIo W) (v : W),
      writeImage io path matrix (pixels matrix w h) w h margin (v, []) = some
        (let doc : Svg := ⟨w + 2 * margin, h + 2 * margin, squares matrix w h margin⟩
        let r := io.isOpen (cString path) v
        if r.1 then (1, io.put (cString path) doc.text r.2, [.svg (cString path) doc.text])
        else (-2, r.2, [])) := by
    intro W io v
    rw [writeImage_svg hpng hjpg hjpeg (by simpa using hcovers), int32_of_lt (by omega) (by omega),
      Option.bind_some, int32_of_lt (by omega) hwidth, Option.bind_some,
      int32_of_lt (by omega) hheight]
    rfl
  have hshows := shows_document_iff hmargin hw hh hcovers
  constructor
  · intro hall
    obtain ⟨o, ho, hpicture⟩ := hall Unit workingIo () _ (hrun Unit workingIo ())
    obtain rfl := List.singleton_injective ho
    exact hshows.1 hpicture
  · intro hfits W io v s hone
    rw [hrun, Option.some_inj] at hone
    by_cases hopen : (io.isOpen (cString path) v).1 = true
    · simp only [if_pos hopen] at hone
      obtain ⟨-, rfl⟩ := Prod.mk.inj hone
      exact ⟨_, rfl, hshows.2 hfits⟩
    · simp only [if_neg hopen] at hone
      exact absurd (Prod.mk.inj hone).1 (by decide)

/-- Writing a document whose size overflows has no outcome. -/
theorem writesComplete_svg_overflow (hmargin : 0 ≤ margin)
    (hcovers : matrix.Covers (coords w h)) (hpng : ¬ str ".png" <:+ path)
    (hjpg : ¬ str ".jpg" <:+ path) (hjpeg : ¬ str ".jpeg" <:+ path)
    (hsize : 2 ^ 31 ≤ w + 2 * margin ∨ 2 ^ 31 ≤ h + 2 * margin) :
    WritesComplete matrix path w h margin := by
  intro W io v s hone
  rw [writeImage_svg hpng hjpg hjpeg (by simpa using hcovers)] at hone
  by_cases hm : 2 * margin < 2 ^ 31
  · rw [int32_of_lt (by omega) hm, Option.bind_some] at hone
    by_cases hwidth : w + 2 * margin < 2 ^ 31
    · have hheight := hsize.resolve_left (not_le.2 hwidth)
      rw [int32_of_lt (by omega) hwidth, Option.bind_some, int32_of_le hheight] at hone
      cases hone
    · rw [int32_of_le (not_lt.1 hwidth)] at hone
      cases hone
  · rw [int32_of_le (not_lt.1 hm)] at hone
    cases hone

/-- The image that is written shows the matrix exactly when it fits. -/
theorem writesComplete_iff (hmargin : 0 ≤ margin) (hw : 0 < w) (hh : 0 < h)
    (hcovers : matrix.Covers (coords w h)) (hint : (w : ℤ) * 4 < 2 ^ 31) :
    WritesComplete matrix path w h margin ↔ FitsImage matrix path w h margin := by
  rw [FitsImage]
  split_ifs with hpng
  · exact writesComplete_png_iff hw hh hcovers hint hpng
  by_cases hjpg : str ".jpg" <:+ path ∨ str ".jpeg" <:+ path
  · exact iff_of_true (writesComplete_jpg hpng hjpg) (or_assoc.1 (Or.inl hjpg))
  obtain ⟨hjpg, hjpeg⟩ := not_or.1 hjpg
  simp only [hjpg, hjpeg, false_or]
  by_cases hsize : 2 ^ 31 ≤ w + 2 * margin ∨ 2 ^ 31 ≤ h + 2 * margin
  · exact iff_of_true (writesComplete_svg_overflow hmargin hcovers hpng hjpg hjpeg hsize)
      (or_assoc.1 (Or.inl hsize))
  · obtain ⟨hwidth, hheight⟩ := not_or.1 hsize
    rw [writesComplete_svg_iff hmargin hw hh hcovers hpng hjpg hjpeg (not_le.1 hwidth)
      (not_le.1 hheight), or_iff_right hwidth, or_iff_right hheight]

/-- The size of a bitmap that fits an `int32_t` bounds its rows. -/
theorem writesComplete_iff_of_size (hmargin : 0 ≤ margin) (hw : 0 < w) (hh : 0 < h)
    (hsize : (w : ℤ) * h * 4 < 2 ^ 31)
    (hread : (h - 1) * matrix.width + w ≤ matrix.height * matrix.width) :
    WritesComplete matrix path w h margin ↔ FitsImage matrix path w h margin := by
  have hint : (w : ℤ) * 4 < 2 ^ 31 := by
    have hle : (w : ℤ) * 1 ≤ w * h := Int.mul_le_mul_of_nonneg_left (by omega) (by omega)
    omega
  exact writesComplete_iff hmargin hw hh ((covers_coords_iff hw hh).2 hread) hint

end Complete

/-- **Complete images.** Whatever the barcode writer makes of the content and the format, for every
path, size and margin: the image that `barqr::encode` reports as written shows every module exactly
when for each matrix made the bitmap is too large for an `int32_t`, the matrix is read past its end,
or it fits. -/
theorem imageComplete_iff (zxing : BarcodeWriter F) (content : Bytes) (path : Path)
    (width height margin : ℤ) (format : F) :
    ImageComplete zxing content path width height margin format ↔
      ∀ matrix, zxing format (atLeast0 margin) content (atLeast256 width) (atLeast256 height) =
          .ok matrix →
        2 ^ 31 ≤ atLeast256 width * atLeast256 height * 4 ∨
        matrix.height * matrix.width <
          ((atLeast256 height).toNat - 1) * matrix.width + (atLeast256 width).toNat ∨
        FitsImage matrix path (atLeast256 width).toNat (atLeast256 height).toNat
          (atLeast0 margin) := by
  have hw := le_atLeast256 width
  have hh := le_atLeast256 height
  have hm := atLeast0_nonneg margin
  simp only [ImageComplete, barqrEncode_eq_one_iff]
  generalize atLeast256 width = width at *
  generalize atLeast256 height = height at *
  generalize atLeast0 margin = margin at *
  lift width to ℕ using by omega
  lift height to ℕ using by omega
  simp only [Int.toNat_natCast]
  have hcomplete : ∀ matrix : BitMatrix, (width : ℤ) * height * 4 < 2 ^ 31 →
      ¬ matrix.height * matrix.width < (height - 1) * matrix.width + width →
      (WritesComplete matrix path width height margin ↔
        FitsImage matrix path width height margin) := fun matrix hsize hpast =>
    writesComplete_iff_of_size hm (by omega) (by omega) hsize (not_lt.1 hpast)
  constructor
  · intro hall matrix hzxing
    by_contra hbad
    push Not at hbad
    obtain ⟨hsize, hpast, hfits⟩ := hbad
    refine hfits ((hcomplete matrix hsize (not_lt.2 hpast)).1 fun W io v s hone => ?_)
    obtain ⟨matrix', o, hzxing', ho, hshows⟩ :=
      hall W io v s ⟨matrix, hzxing, hsize, not_lt.2 hpast, hone⟩
    obtain rfl := Except.ok.inj (hzxing.symm.trans hzxing')
    exact ⟨o, ho, hshows⟩
  · rintro hall W io v s ⟨matrix, hzxing, hsize, hpast, hone⟩
    have hfits := ((hall matrix hzxing).resolve_left (not_le.2 hsize)).resolve_left hpast
    obtain ⟨o, ho, hshows⟩ := (hcomplete matrix hsize hpast).2 hfits W io v s hone
    exact ⟨matrix, o, hzxing, ho, hshows⟩

/-- A matrix of 261 by 261 modules that are all set, as large as a QR code of 21 modules with a
margin of 120. -/
def wideMatrix : BitMatrix where
  width := 261
  height := 261
  bits := List.replicate (261 * 261) true
  length_bits := List.length_replicate
  area_lt := by decide

/-- A matrix that is larger than the bitmap is cut off. -/
theorem not_imageComplete_wide :
    ¬ ImageComplete (fun (_ : Unit) _ _ _ _ => .ok wideMatrix) (str "a") (str "qr.png") 256 256 120
      () := by
  rw [imageComplete_iff]
  intro hall
  rcases hall wideMatrix rfl with hsize | hpast | hfits
  · revert hsize
    decide
  · revert hpast
    decide
  · rw [FitsImage, if_pos (by decide)] at hfits
    exact absurd hfits.1 (by decide)

end Behh
