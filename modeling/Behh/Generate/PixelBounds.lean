import Behh.Generate.BarqrImages

/-!
# The pixels of a barcode image

`barqr::encode`, lines 146–190 of `src/generate.cc`, takes a vector of `_channels` bytes for each
pixel, and writes four bytes for each pixel into it. The size and the indices are products of
`int32_t`. With fewer than four channels the last pixels are written past the end of the vector, and
for large images the size overflows; in no other case does anything go wrong.

## Main definitions

* `pixelIndex`: the index of the first byte that is written for a pixel.
* `PixelsInBounds`: the size and the indices do not overflow, and the bytes written are in the
  vector.

## Main results

* `fillPixels_ne_none_iff`: when the loops stay inside the vector.
* `pixelsInBounds_iff`: the sizes and the channels for which they do.
-/

namespace Behh

/-- `pixel_index`, `(y * _width + x) * 4`. -/
def pixelIndex (width x y : ℤ) : Option ℤ :=
  (int32 (y * width)).bind fun row => (int32 (row + x)).bind fun pixel => int32 (pixel * 4)

/-- The size of the vector and the indices of all pixels are computed without an overflow, and the
four bytes of each pixel are in the vector. -/
def PixelsInBounds (width height channels : ℤ) : Prop :=
  ∃ size, imageSize width height channels = some size ∧
    ∀ x y, 0 ≤ x → x < width → 0 ≤ y → y < height →
      ∃ index, pixelIndex width x y = some index ∧ 0 ≤ index ∧ index + 3 < size

variable {width height channels x y : ℤ}

theorem int32_eq_some {n m : ℤ} (h : int32 n = some m) : m = n := by
  rw [int32] at h
  split at h
  · exact (Option.some.inj h).symm
  · cases h

/-- An index that does not overflow is the product. -/
theorem pixelIndex_eq_some {index : ℤ} (h : pixelIndex width x y = some index) :
    index = (y * width + x) * 4 := by
  obtain ⟨row, hrow, h⟩ := Option.bind_eq_some_iff.1 h
  obtain ⟨pixel, hpixel, h⟩ := Option.bind_eq_some_iff.1 h
  rw [int32_eq_some h, int32_eq_some hpixel, int32_eq_some hrow]

/-- A pixel of the image lies in front of the end of the last row. -/
theorem pixel_lt (hx : x < width) (hy : y < height) (hwidth : 0 ≤ width) :
    y * width + x < width * height := by
  have hrow : (y + 1) * width ≤ height * width := Int.mul_le_mul_of_nonneg_right hy hwidth
  rw [Int.add_mul, Int.one_mul, Int.mul_comm height] at hrow
  omega

/-- The indices of the pixels do not overflow when four times the number of pixels does not. -/
theorem pixelIndex_eq (hx0 : 0 ≤ x) (hx : x < width) (hy0 : 0 ≤ y) (hy : y < height)
    (hsize : width * height * 4 < 2 ^ 31) :
    pixelIndex width x y = some ((y * width + x) * 4) := by
  have hwidth : 0 ≤ width := by omega
  have hlt := pixel_lt hx hy hwidth
  have hrow : 0 ≤ y * width := Int.mul_nonneg hy0 hwidth
  rw [pixelIndex, int32_of_lt hrow (by omega), Option.bind_some,
    int32_of_lt (by omega) (by omega), Option.bind_some, int32_of_lt (by omega) (by omega)]

/-- The vector has four bytes for each pixel when there are four channels. -/
theorem four_le_channels_iff (channels : ℤ) (hwidth : 0 < width) (hheight : 0 < height) :
    width * height * 4 ≤ width * height * channels ↔ 4 ≤ channels :=
  mul_le_mul_iff_right₀ (Int.mul_pos hwidth hheight)

theorem pixelsInBounds_iff_of_size (hwidth : 256 ≤ width) (hheight : 256 ≤ height)
    (hchannels : 1 ≤ channels) :
    PixelsInBounds width height channels ↔
      4 ≤ channels ∧ width * height * channels < 2 ^ 31 := by
  have hfour := four_le_channels_iff channels (show 0 < width by omega)
    (show 0 < height by omega)
  rw [PixelsInBounds, imageSize_eq hwidth hheight hchannels]
  constructor
  · rintro ⟨size, hsize, hindices⟩
    split at hsize
    · next hlt =>
      obtain rfl := Option.some.inj hsize
      obtain ⟨index, hindex, -, hin⟩ := hindices (width - 1) (height - 1) (by omega) (by omega)
        (by omega) (by omega)
      have hend : (height - 1) * width + (width - 1) = width * height - 1 := by ring
      rw [pixelIndex_eq_some hindex, hend] at hin
      exact ⟨hfour.1 (by omega), hlt⟩
    · cases hsize
  · rintro ⟨hle, hlt⟩
    refine ⟨_, if_pos hlt, fun x y hx0 hx hy0 hy => ?_⟩
    have hbytes := hfour.2 hle
    have hpixel := pixel_lt hx hy (show 0 ≤ width by omega)
    have hrow : 0 ≤ y * width := Int.mul_nonneg hy0 (by omega)
    exact ⟨_, pixelIndex_eq hx0 hx hy0 hy (by omega), by omega, by omega⟩

/-! ### The loops -/

variable {matrix : BitMatrix}

/-- Loops over a matrix that is read nowhere past its end stay inside the vector when each of the
pixels does. -/
theorem fillPixels_ne_none_iff {positions : List (ℕ × ℕ)} (hcovers : matrix.Covers positions)
    (w : ℕ) (data : Bytes) :
    fillPixels matrix w positions data ≠ none ↔
      ∀ p ∈ positions, (p.2 * w + p.1) * 4 + 4 ≤ data.length := by
  induction positions generalizing data with
  | nil => exact iff_of_true (Option.some_ne_none _) fun p hp => absurd hp List.not_mem_nil
  | cons p positions ih =>
    obtain ⟨x, y⟩ := p
    have ih' := ih fun q hq => hcovers q (List.mem_cons_of_mem _ hq)
    rw [fillPixels, BitMatrix.get_of_lt (hcovers _ List.mem_cons_self), List.forall_mem_cons]
    simp only [writePixel]
    split
    · next hfits =>
      -- the vector keeps its length
      have hlength : (data.take ((y * w + x) * 4) ++ rgba (matrix.bit x y) ++
          data.drop ((y * w + x) * 4 + 4)).length = data.length := by
        simp only [List.length_append, List.length_take, List.length_drop, length_rgba]
        omega
      rw [Option.bind_some, ih', hlength, and_iff_right hfits]
    · next hfits => exact iff_of_false (fun h => h rfl) fun h => hfits h.1

/-- All pixels of an image are in a vector when it has four bytes for each of them. -/
theorem forall_mem_coords_iff {w h n : ℕ} (hw : 0 < w) (hh : 0 < h) :
    (∀ p ∈ coords w h, (p.2 * w + p.1) * 4 + 4 ≤ n) ↔ h * w * 4 ≤ n := by
  constructor
  · intro hall
    have hlast := hall (w - 1, h - 1) (mem_coords.2 ⟨by omega, by omega⟩)
    have hrows : (h - 1) * w + w = h * w := by
      rw [← Nat.succ_mul, Nat.succ_eq_add_one, Nat.sub_add_cancel hh]
    simp only at hlast
    omega
  · rintro hle ⟨x, y⟩ hp
    obtain ⟨hx, hy⟩ := mem_coords.1 hp
    have hlt := index_lt hx hy
    simp only
    omega

/-- The loops of an image stay inside the vector exactly when its pixels are in bounds. -/
theorem fillPixels_imageSize_iff (hwidth : 256 ≤ width) (hheight : 256 ≤ height)
    (hchannels : 1 ≤ channels) (hcovers : matrix.Covers (coords width.toNat height.toNat)) :
    ((imageSize width height channels).bind fun size =>
        fillPixels matrix width.toNat (coords width.toNat height.toNat)
          (List.replicate size.toNat 0)) ≠ none ↔
      PixelsInBounds width height channels := by
  have hfour := four_le_channels_iff channels (show 0 < width by omega)
    (show 0 < height by omega)
  have hpos : 0 ≤ width * height * channels :=
    Int.mul_nonneg (Int.mul_nonneg (by omega) (by omega)) (by omega)
  rw [pixelsInBounds_iff_of_size hwidth hheight hchannels,
    imageSize_eq hwidth hheight hchannels]
  split
  · next hlt =>
    have hbytes : ((height.toNat * width.toNat * 4 : ℕ) : ℤ) = width * height * 4 := by
      push_cast [Int.toNat_of_nonneg (show 0 ≤ width by omega),
        Int.toNat_of_nonneg (show 0 ≤ height by omega)]
      ring
    rw [Option.bind_some, fillPixels_ne_none_iff hcovers, List.length_replicate,
      forall_mem_coords_iff (by omega) (by omega), and_iff_left hlt, ← hfour, ← hbytes]
    exact Int.le_toNat hpos
  · next hlt => exact iff_of_false (fun h => h rfl) fun h => hlt h.2

/-- **The pixels stay inside the vector.** For every width, height and positive number of channels,
the arithmetic of the loops does not overflow and the bytes written are in the vector exactly when
there are at least four channels and the size of the vector is an `int32_t`; and where reading the
matrix does not throw, these are the images for which the loops have an outcome. -/
theorem pixelsInBounds_iff (width height : ℤ) {channels : ℤ} (hchannels : 1 ≤ channels) :
    (PixelsInBounds (atLeast256 width) (atLeast256 height) channels ↔
        4 ≤ channels ∧ atLeast256 width * atLeast256 height * channels < 2 ^ 31) ∧
      ∀ matrix : BitMatrix,
        matrix.Covers (coords (atLeast256 width).toNat (atLeast256 height).toNat) →
        (((imageSize (atLeast256 width) (atLeast256 height) channels).bind fun size =>
            fillPixels matrix (atLeast256 width).toNat
              (coords (atLeast256 width).toNat (atLeast256 height).toNat)
              (List.replicate size.toNat 0)) ≠ none ↔
          PixelsInBounds (atLeast256 width) (atLeast256 height) channels) :=
  ⟨pixelsInBounds_iff_of_size (le_atLeast256 width) (le_atLeast256 height) hchannels,
    fun _ => fillPixels_imageSize_iff (le_atLeast256 width) (le_atLeast256 height) hchannels⟩

/-- The default of four channels, for a small image. -/
theorem pixelsInBounds_default :
    (PixelsInBounds (atLeast256 0) (atLeast256 0) 4 ↔
        4 ≤ (4 : ℤ) ∧ atLeast256 0 * atLeast256 0 * 4 < 2 ^ 31) ∧
      ∀ matrix : BitMatrix,
        matrix.Covers (coords (atLeast256 0).toNat (atLeast256 0).toNat) →
        (((imageSize (atLeast256 0) (atLeast256 0) 4).bind fun size =>
            fillPixels matrix (atLeast256 0).toNat
              (coords (atLeast256 0).toNat (atLeast256 0).toNat)
              (List.replicate size.toNat 0)) ≠ none ↔
          PixelsInBounds (atLeast256 0) (atLeast256 0) 4) :=
  pixelsInBounds_iff 0 0 (by decide)

/-- With three channels the last pixels of the smallest image are not in the vector, and with four
channels the size of an image of 23171 by 23171 pixels overflows. -/
theorem not_pixelsInBounds_three :
    ¬PixelsInBounds (atLeast256 256) (atLeast256 256) 3 ∧
      ¬PixelsInBounds (atLeast256 23171) (atLeast256 23171) 4 ∧
      imageSize (atLeast256 23171) (atLeast256 23171) 4 = none := by
  refine ⟨fun h => ?_, fun h => ?_, by decide⟩
  · rw [pixelsInBounds_iff_of_size (by decide) (by decide) (by decide)] at h
    exact absurd h.1 (by decide)
  · rw [pixelsInBounds_iff_of_size (by decide) (by decide) (by decide)] at h
    exact absurd h.2 (by decide)

end Behh
