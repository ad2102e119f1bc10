import Behh.Library.BinaryFloat
import Behh.Library.Raster
import Behh.Std.Bytes
import Mathlib.Data.List.GetD

/-!
# Luminance

`rasterize::from_svg` and `barqr::decode` of `src/generate.cc` turn the pixels of an image into
shades of gray with one formula, `0.2126 * r + 0.7152 * g + 0.0722 * b`, computed with `double` and
truncated to a byte. The three weights make up one, but not their roundings: a shade of gray may
come out one darker than it is, and white does.

The conversion of a `double` to a byte has no outcome when the number is too large, and neither has
a read or a write outside of a buffer.

## Main definitions

* `luminance`: the formula.
* `grayscale`: the loops over the pixels.
* `weighted`: ten thousand times the exact value of the formula.

## Main results

* `luminance_spec`: every pixel has a luminance, which is the exact value rounded down, or one less
  where the exact value is an integer.
* `grayscale_coords`: the loops over all pixels write the luminance of each one, row by row.
-/

namespace Behh

/-! ### The formula -/

/-- The result of an operation on `double` with the exact result `q`. -/
def float64 (q : ℚ) : ℚ := roundBinary 53 q

/-- The integer part of a floating-point number. -/
def truncate (q : ℚ) : ℤ := if 0 ≤ q then ⌊q⌋ else ⌈q⌉

/-- `static_cast<uint8_t>`. -/
def toUInt8 (q : ℚ) : Option UInt8 :=
  if 0 ≤ truncate q ∧ truncate q < 256 then some (UInt8.ofNat (truncate q).toNat) else none

/-- `static_cast<uint8_t>(0.2126 * r + 0.7152 * g + 0.0722 * b)`. -/
def luminance (r g b : UInt8) : Option UInt8 :=
  let red := float64 (float64 (2126 / 10000) * r.toNat)
  let green := float64 (float64 (7152 / 10000) * g.toNat)
  let blue := float64 (float64 (722 / 10000) * b.toNat)
  toUInt8 (float64 (float64 (red + green) + blue))

/-- Ten thousand times the exact value of the formula. -/
def weighted (r g b : UInt8) : ℕ := 2126 * r.toNat + 7152 * g.toNat + 722 * b.toNat

theorem float64_nonneg {q : ℚ} (h : 0 ≤ q) : 0 ≤ float64 q := roundBinary_nonneg 53 h

/-- The error of an operation whose exact result is not larger than 512. -/
theorem abs_float64_sub_le {q : ℚ} (h0 : 0 ≤ q) (h : q ≤ 512) :
    |float64 q - q| ≤ 1 / 1000000000000 := by
  have herror : |float64 q - q| ≤ 512 / 2 ^ 53 :=
    abs_roundBinary_sub_le_of_le (by rwa [abs_of_nonneg h0])
  exact herror.trans (by norm_num)

theorem float64_weight_mul (weight : ℚ) (h0 : 0 ≤ weight) (h1 : weight ≤ 1) (c : UInt8) :
    0 ≤ float64 (float64 weight * c.toNat) ∧
      |float64 (float64 weight * c.toNat) - weight * c.toNat| ≤ 1 / 1000000000 := by
  have hbyte : (c.toNat : ℚ) ≤ 255 := by
    have hlt := c.toNat_lt
    exact_mod_cast (by omega : c.toNat ≤ 255)
  have hbyte0 : (0 : ℚ) ≤ c.toNat := Nat.cast_nonneg _
  have hweight := abs_le.1 (abs_float64_sub_le h0 (by linarith))
  have hweight0 := float64_nonneg h0
  have hproduct0 : 0 ≤ float64 weight * c.toNat := mul_nonneg hweight0 hbyte0
  have hproduct : float64 weight * c.toNat ≤ 512 := by
    have hle : float64 weight * c.toNat ≤ float64 weight * 255 :=
      mul_le_mul_of_nonneg_left hbyte hweight0
    linarith
  have hround := abs_le.1 (abs_float64_sub_le hproduct0 hproduct)
  have hscaled : |float64 weight * c.toNat - weight * c.toNat| ≤ 255 / 1000000000000 := by
    rw [← sub_mul, abs_mul, abs_of_nonneg hbyte0]
    calc |float64 weight - weight| * c.toNat
        ≤ 1 / 1000000000000 * 255 :=
          mul_le_mul (abs_le.2 hweight) hbyte hbyte0 (by norm_num)
      _ = 255 / 1000000000000 := by norm_num
  have hscaled' := abs_le.1 hscaled
  refine ⟨float64_nonneg hproduct0, abs_le.2 ⟨?_, ?_⟩⟩ <;> linarith

/-- Two additions of three numbers that are close to exact ones. -/
theorem float64_add_add {red green blue x y z : ℚ} (hred0 : 0 ≤ red) (hgreen0 : 0 ≤ green)
    (hblue0 : 0 ≤ blue) (hred : |red - x| ≤ 1 / 1000000000)
    (hgreen : |green - y| ≤ 1 / 1000000000) (hblue : |blue - z| ≤ 1 / 1000000000)
    (hsum : x + y + z ≤ 255) :
    0 ≤ float64 (float64 (red + green) + blue) ∧
      |float64 (float64 (red + green) + blue) - (x + y + z)| ≤ 1 / 100000000 := by
  obtain ⟨hred₁, hred₂⟩ := abs_le.1 hred
  obtain ⟨hgreen₁, hgreen₂⟩ := abs_le.1 hgreen
  obtain ⟨hblue₁, hblue₂⟩ := abs_le.1 hblue
  have hfirst0 : 0 ≤ red + green := add_nonneg hred0 hgreen0
  obtain ⟨hfirst₁, hfirst₂⟩ := abs_le.1 (abs_float64_sub_le hfirst0 (by linarith))
  have hsecond0 : 0 ≤ float64 (red + green) + blue := add_nonneg (float64_nonneg hfirst0) hblue0
  obtain ⟨hsecond₁, hsecond₂⟩ := abs_le.1 (abs_float64_sub_le hsecond0 (by linarith))
  refine ⟨float64_nonneg hsecond0, abs_le.2 ⟨?_, ?_⟩⟩ <;> linarith

theorem weighted_le (r g b : UInt8) : weighted r g b ≤ 2550000 := by
  have hr := r.toNat_lt
  have hg := g.toNat_lt
  have hb := b.toNat_lt
  rw [weighted]
  omega

theorem toUInt8_of_close {v : ℚ} {q m : ℕ} (h0 : 0 ≤ v) (hq : q ≤ 255) (hm : m < 10000)
    (hclose : |v - (q + m / 10000)| ≤ 1 / 100000000) :
    ∃ l, toUInt8 v = some l ∧ l.toNat ≤ q ∧ q ≤ l.toNat + 1 ∧ (m ≠ 0 → l.toNat = q) := by
  obtain ⟨hlow, hhigh⟩ := abs_le.1 hclose
  have hm0 : (0 : ℚ) ≤ m := Nat.cast_nonneg _
  have hm1 : (m : ℚ) ≤ 9999 := by exact_mod_cast Nat.le_of_lt_succ hm
  have hfloor0 : 0 ≤ ⌊v⌋ := Int.floor_nonneg.2 h0
  have hle : ⌊v⌋ ≤ q := by
    refine Int.lt_add_one_iff.1 (Int.floor_lt.2 ?_)
    push_cast
    linarith
  have hge : (q : ℤ) - 1 ≤ ⌊v⌋ := by
    refine Int.le_floor.2 ?_
    push_cast
    linarith
  have heq (hne : m ≠ 0) : (q : ℤ) ≤ ⌊v⌋ := by
    have hm2 : (1 : ℚ) ≤ m := by exact_mod_cast Nat.pos_of_ne_zero hne
    refine Int.le_floor.2 ?_
    push_cast
    linarith
  have htrunc : truncate v = ⌊v⌋ := if_pos h0
  have hnat : (UInt8.ofNat ⌊v⌋.toNat).toNat = ⌊v⌋.toNat :=
    UInt8.toNat_ofNat_of_lt (by simp [UInt8.size]; omega)
  refine ⟨UInt8.ofNat ⌊v⌋.toNat, ?_, ?_⟩
  · rw [toUInt8, htrunc, if_pos ⟨hfloor0, by omega⟩]
  · rw [hnat]
    refine ⟨by omega, by omega, fun hne => ?_⟩
    have hfull := heq hne
    omega

/-- **Every pixel has a luminance.** It is the exact value rounded down, or one less where the
exact value is an integer. -/
theorem luminance_spec (r g b : UInt8) :
    ∃ l, luminance r g b = some l ∧ l.toNat ≤ weighted r g b / 10000 ∧
      weighted r g b / 10000 ≤ l.toNat + 1 ∧
      (¬ 10000 ∣ weighted r g b → l.toNat = weighted r g b / 10000) := by
  have hle := weighted_le r g b
  obtain ⟨hred0, hred⟩ :=
    float64_weight_mul (2126 / 10000) (by norm_num) (by norm_num) r
  obtain ⟨hgreen0, hgreen⟩ :=
    float64_weight_mul (7152 / 10000) (by norm_num) (by norm_num) g
  obtain ⟨hblue0, hblue⟩ :=
    float64_weight_mul (722 / 10000) (by norm_num) (by norm_num) b
  have hexact : 2126 / 10000 * r.toNat + 7152 / 10000 * g.toNat + 722 / 10000 * b.toNat =
      (weighted r g b : ℚ) / 10000 := by
    rw [weighted]
    push_cast
    ring
  have hsum : (weighted r g b : ℚ) / 10000 ≤ 255 := by
    have hcast : (weighted r g b : ℚ) ≤ 2550000 := by exact_mod_cast hle
    linarith
  obtain ⟨h0, hclose⟩ := float64_add_add hred0 hgreen0 hblue0 hred hgreen hblue
    (hexact.trans_le hsum)
  have hdigits : (weighted r g b : ℚ) / 10000 =
      (weighted r g b / 10000 : ℕ) + (weighted r g b % 10000 : ℕ) / 10000 := by
    have hcast : (weighted r g b : ℚ) =
        10000 * (weighted r g b / 10000 : ℕ) + (weighted r g b % 10000 : ℕ) := by
      exact_mod_cast (Nat.div_add_mod (weighted r g b) 10000).symm
    linarith
  rw [hexact, hdigits] at hclose
  obtain ⟨l, hl, hlow, hhigh, hfull⟩ :=
    toUInt8_of_close h0 (by omega) (Nat.mod_lt _ (by decide)) hclose
  exact ⟨l, hl, hlow, hhigh, fun h => hfull fun hmod => h (Nat.dvd_of_mod_eq_zero hmod)⟩

/-! ### The loops -/

/-- One iteration: three bytes from `source` on are read, and one byte is written. -/
def grayPixel (image output : Bytes) (source destination : ℕ) : Option Bytes :=
  match image[source]?, image[source + 1]?, image[source + 2]? with
  | some r, some g, some b =>
    (luminance r g b).bind fun l =>
      if destination < output.length then some (output.set destination l) else none
  | _, _, _ => none

/-- The loops over the pixels of an image with some bytes for each pixel, of which `positions` are
left. -/
def grayscale (image : Bytes) (width channels : ℕ) : List (ℕ × ℕ) → Bytes → Option Bytes
  | [], output => some output
  | (x, y) :: positions, output =>
    (grayPixel image output ((y * width + x) * channels) (y * width + x)).bind
      (grayscale image width channels positions)

/-- The shade of gray of the pixel with an index. -/
def shade (image : Bytes) (channels i : ℕ) : UInt8 :=
  (luminance (image.getD (i * channels) 0) (image.getD (i * channels + 1) 0)
    (image.getD (i * channels + 2) 0)).getD 0

variable {image : Bytes} {width channels k : ℕ} {positions : List (ℕ × ℕ)}

theorem grayPixel_eq {first rest : Bytes} {c : UInt8}
    (himage : first.length * channels + 3 ≤ image.length) :
    grayPixel image (first ++ c :: rest) (first.length * channels) first.length =
      some (first ++ shade image channels first.length :: rest) := by
  obtain ⟨l, hl, -⟩ := luminance_spec image[first.length * channels]
    image[first.length * channels + 1] image[first.length * channels + 2]
  have hshade : shade image channels first.length = l := by
    rw [shade, List.getD_eq_getElem _ _ (by omega), List.getD_eq_getElem _ _ (by omega),
      List.getD_eq_getElem _ _ (by omega), hl, Option.getD_some]
  rw [grayPixel, List.getElem?_eq_getElem (by omega), List.getElem?_eq_getElem (by omega),
    List.getElem?_eq_getElem (by omega), hshade]
  simp [hl]

/-- The loops over consecutive positions, the first of which has the index `k`, write one byte
behind the other. -/
theorem grayscale_eq (hchannels : 3 ≤ channels)
    (hindex : positions.map (fun p => p.2 * width + p.1) = List.range' k positions.length)
    (himage : (k + positions.length) * channels ≤ image.length) {first rest : Bytes}
    (hfirst : first.length = k) (hrest : rest.length = positions.length) :
    grayscale image width channels positions (first ++ rest) =
      some (first ++ (List.range' k positions.length).map (shade image channels)) := by
  induction positions generalizing k first rest with
  | nil =>
    obtain rfl : rest = [] := List.eq_nil_of_length_eq_zero hrest
    rfl
  | cons p positions ih =>
    obtain ⟨x, y⟩ := p
    cases rest with
    | nil => simp at hrest
    | cons c rest =>
      rw [List.map_cons, List.length_cons, List.range'_succ] at hindex
      obtain ⟨hk, hindex⟩ := List.cons.inj hindex
      rw [List.length_cons] at himage
      have hroom : first.length * channels + 3 ≤ image.length := by
        have hpixel : (k + 1) * channels ≤ (k + (positions.length + 1)) * channels :=
          Nat.mul_le_mul_right channels (by omega)
        rw [Nat.succ_mul] at hpixel
        rw [hfirst]
        omega
      have hnext := @ih (k + 1) hindex (by rwa [Nat.add_right_comm, Nat.add_assoc])
        (first ++ [shade image channels k]) rest (by simp [hfirst]) (by simpa using hrest)
      rw [grayscale, show y * width + x = first.length from hk.trans hfirst.symm,
        grayPixel_eq hroom, hfirst, Option.bind_some, List.length_cons, List.range'_succ,
        List.map_cons]
      simpa using hnext

/-- **The loops write one byte for each pixel.** -/
theorem grayscale_coords (hchannels : 3 ≤ channels) {height : ℕ} {output : Bytes}
    (himage : height * width * channels ≤ image.length)
    (houtput : output.length = height * width) :
    grayscale image width channels (coords width height) output =
      some ((List.range (height * width)).map (shade image channels)) := by
  have hindex : (coords width height).map (fun p => p.2 * width + p.1) =
      List.range' 0 (coords width height).length := by
    rw [map_index_coords, length_coords, List.range_eq_range']
  have hall := @grayscale_eq image width channels 0 (coords width height) hchannels hindex
    (by rwa [length_coords, Nat.zero_add]) [] output rfl (by rw [houtput, length_coords])
  rwa [List.nil_append, List.nil_append, length_coords, ← List.range_eq_range'] at hall

end Behh
