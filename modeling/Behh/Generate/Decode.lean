import Behh.Generate.BarqrImages
import Behh.Generate.Luminance

/-!
# Reading barcodes

`rasterize::from_svg` and `barqr::decode` of `src/generate.cc`. An SVG document is parsed and
rasterized, any other image is loaded; either is turned into shades of gray, and handed to the
barcode reader as a view of one byte for each pixel.

The libraries are parameters: `stb_image`, `nanosvg` and the barcode reader. What they allocate
is counted until it is freed. A document is rasterized with a width of 256, and its height in
proportion to it. The height may come out negative, and then the allocation of the pixels throws
where nothing frees the document and the rasterizer.

A conversion to `int32_t` of a number that does not fit and an overflow are no outcome.

## Main definitions

* `ReaderLib`: the libraries.
* `Live`: how many of their objects have not been freed.
* `fromSvg`, `decode`: the functions.
* `leaks`: the documents with a negative height.

## Main results

* `decode_cases`: the ways out of `decode`.
* `decode_eq_none_iff`: when there is none.
* `decodeAll_live`: what a sequence of calls leaves allocated.
-/

namespace Behh

/-! ### The libraries -/

/-- An image that `stbi_load` has decoded. The library refuses one with a size that is no `int`. -/
structure StbImage where
  /-- `width`. -/
  width : ℕ
  /-- `height`. -/
  height : ℕ
  /-- `channels`. -/
  channels : ℕ
  /-- The bytes, `channels` for each pixel. -/
  data : Bytes
  /-- There are `channels` bytes for each pixel. -/
  length_data : data.length = height * width * channels
  /-- The number of bytes is an `int`. -/
  size_lt : height * width * channels < 2 ^ 31

/-- `NSVGimage`. -/
structure NsvgImage (S : Type) where
  /-- The width of the document. -/
  width : ℚ
  /-- The height of the document. -/
  height : ℚ
  /-- Its shapes. -/
  shapes : S

/-- A `ZXing::ImageView` of the format `Lum`. -/
structure LumView where
  /-- One byte for each pixel, row by row. -/
  data : Bytes
  /-- `_width`. -/
  width : ℤ
  /-- `_height`. -/
  height : ℤ

/-- The members of `ZXing::ReaderOptions` that are set. -/
structure ReaderOptions (F : Type) where
  /-- `setTryHarder`. -/
  tryHarder : Bool
  /-- `setFormats`. -/
  formats : F

/-- What is used of the result of `ZXing::ReadBarcode`. -/
structure Barcode where
  /-- `isValid()`. -/
  isValid : Bool
  /-- `text()`. -/
  text : Bytes

/-- The libraries that `decode` calls, with their states. -/
structure ReaderLib (W F S : Type) where
  /-- `stbi_load(path, .., 0)`. -/
  load : Path → W → Option StbImage × W
  /-- `nsvgParseFromFile(path, "px", 96.0f)`. -/
  parse : Path → W → Option (NsvgImage S) × W
  /-- `nsvgCreateRasterizer()`: whether there is one. -/
  createRasterizer : W → Bool × W
  /-- `nsvgRasterize(pRast, pImage, 0, 0, scale, .., w, h, 4 * w)`: the bytes, by their index.
  The scale is missing when it is not finite. -/
  rasterize : NsvgImage S → Option ℚ → ℕ → ℕ → W → (ℕ → UInt8) × W
  /-- `ZXing::ReadBarcode`. -/
  readBarcode : LumView → ReaderOptions F → W → Except Unit Barcode × W

/-- The number of objects of the libraries that have been allocated and not been freed. -/
structure Live where
  /-- Images of `stbi_load`. -/
  images : ℤ
  /-- Documents of `nsvgParseFromFile`. -/
  svgs : ℤ
  /-- Rasterizers. -/
  rasterizers : ℤ
  deriving DecidableEq

variable {W F S : Type} (lib : ReaderLib W F S)

/-- `stbi_load`. -/
def stbiLoad (path : Path) : Prog (W × Live) (Option StbImage) := Prog.call fun s =>
  let r := lib.load (cString path) s.1
  (r.1, r.2, if r.1.isSome then { s.2 with images := s.2.images + 1 } else s.2)

/-- `stbi_image_free`. -/
def stbiImageFree : Prog (W × Live) Unit := Prog.call fun s =>
  ((), s.1, { s.2 with images := s.2.images - 1 })

/-- `nsvgParseFromFile`. -/
def nsvgParseFromFile (path : Path) : Prog (W × Live) (Option (NsvgImage S)) := Prog.call fun s =>
  let r := lib.parse (cString path) s.1
  (r.1, r.2, if r.1.isSome then { s.2 with svgs := s.2.svgs + 1 } else s.2)

/-- `nsvgDelete`. -/
def nsvgDelete : Prog (W × Live) Unit := Prog.call fun s =>
  ((), s.1, { s.2 with svgs := s.2.svgs - 1 })

/-- `nsvgCreateRasterizer`. -/
def nsvgCreateRasterizer : Prog (W × Live) Bool := Prog.call fun s =>
  let r := lib.createRasterizer s.1
  (r.1, r.2, if r.1 then { s.2 with rasterizers := s.2.rasterizers + 1 } else s.2)

/-- `nsvgDeleteRasterizer`. -/
def nsvgDeleteRasterizer : Prog (W × Live) Unit := Prog.call fun s =>
  ((), s.1, { s.2 with rasterizers := s.2.rasterizers - 1 })

/-- `nsvgRasterize` on a buffer of four bytes for each pixel. -/
def nsvgRasterize (image : NsvgImage S) (scale : Option ℚ) (w h : ℕ) : Prog (W × Live) Bytes :=
  Prog.call fun s =>
    let r := lib.rasterize image scale w h s.1
    ((List.range (h * w * 4)).map r.1, r.2, s.2)

/-! ### Rasterizing a document -/

/-- The result of an operation on `float` with the exact result `q`, if it is finite. -/
def float32 (q : ℚ) : Option ℚ :=
  if |roundBinary 24 q| < 2 ^ 128 then some (roundBinary 24 q) else none

/-- A quotient of two `float` values, if it is finite. -/
def float32Div (a b : ℚ) : Option ℚ := if b = 0 then none else float32 (a / b)

/-- `static_cast<int32_t>(256 * pImage->height / pImage->width)`. -/
def scaledHeight (image : NsvgImage S) : Option ℤ :=
  (float32 (256 * image.height)).bind fun product =>
    (float32Div product image.width).bind fun quotient => int32 (truncate quotient)

/-- `output`, `width` and `height`. -/
structure Raster where
  /-- The shades of gray. -/
  output : Bytes
  /-- The number of columns. -/
  width : ℤ
  /-- The number of rows. -/
  height : ℤ

/-- The default output dimensions. -/
def Raster.sized (r : Raster) (image : NsvgImage S) : Option Raster :=
  if r.width < 256 ∨ r.height < 256 then
    (scaledHeight image).map fun height => { r with width := 256, height := height }
  else some r

/-- `width / pImage->width`, if it is finite. -/
def rasterScale (image : NsvgImage S) (r : Raster) : Option ℚ :=
  (float32 r.width).bind fun width => float32Div width image.width

/-- From the allocation of the pixels on, which throws when their number is negative. -/
def render (image : NsvgImage S) (r : Raster) : Prog (W × Live) (Except Unit ℤ × Raster) := do
  let size ← Prog.lift (imageSize r.width r.height 4)
  if size < 0 then return (.error (), r)
  let w := r.width.toNat
  let h := r.height.toNat
  let rgbaImage ← nsvgRasterize lib image (rasterScale image r) w h
  let output ← Prog.lift (grayscale rgbaImage w 4 (coords w h) (resize r.output (h * w)))
  nsvgDeleteRasterizer
  nsvgDelete
  return (.ok 1, { r with output := output })

/-- `rasterize::from_svg`: the code, or an exception, and what has become of the arguments. -/
def fromSvg (filePath : Path) (r : Raster) : Prog (W × Live) (Except Unit ℤ × Raster) := do
  if inputEndsWith filePath (str ".svg") ≠ 1 then return (.ok (-1), r)
  match ← nsvgParseFromFile lib filePath with
  | none => return (.ok (-2), r)
  | some image =>
    let r ← Prog.lift (r.sized image)
    if !(← nsvgCreateRasterizer lib) then
      nsvgDelete
      return (.ok (-3), r)
    render lib image r

/-! ### Reading a barcode -/

/-- `content` ends with `.svg`. -/
def isSvg (content : Bytes) : Bool :=
  4 ≤ content.length ∧ content.drop (content.length - 4) = str ".svg"

/-- What `decode` makes of the result of `from_svg`; an exception is caught. -/
def ofSvg : Except Unit ℤ × Raster → Except ℤ Raster
  | (.error _, _) => .error (-69)
  | (.ok code, r) => if code ≠ 1 then .error (-1) else .ok r

/-- The luminance of a document, or the code returned. -/
def svgLuminance (content : Bytes) : Prog (W × Live) (Except ℤ Raster) := do
  let r ← fromSvg lib content ⟨[], 0, 0⟩
  return ofSvg r

/-- The luminance of any other image, or the code returned. -/
def imageLuminance (content : Bytes) : Prog (W × Live) (Except ℤ Raster) := do
  match ← stbiLoad lib content with
  | none => return .error (-2)
  | some image =>
    let w := image.width
    let h := image.height
    if image.channels = 3 ∨ image.channels = 4 then
      let output ← Prog.lift (grayscale image.data w image.channels (coords w h)
        (resize [] (h * w)))
      stbiImageFree
      return .ok ⟨output, w, h⟩
    else if image.channels = 1 then
      stbiImageFree
      return .ok ⟨image.data.take (h * w), w, h⟩
    else
      stbiImageFree
      return .error (-3)

/-- The code and the text for a result of the reader; an exception is caught. -/
def reading (result : Except Unit Barcode) (fileOutput : Bytes) : ℤ × Bytes :=
  match result with
  | .error _ => (-69, fileOutput)
  | .ok result => if !result.isValid then (-5, fileOutput) else (1, result.text)

/-- From the construction of the view on. It throws for a width or a height that is not positive,
unless both are zero and there is no data. -/
def readLuminance (r : Raster) (fileOutput : Bytes) (format : F) (tryhard : Bool) :
    Prog (W × Live) (ℤ × Bytes) := do
  if (r.width ≤ 0 ∨ r.height ≤ 0) ∧ ¬ (r.width = 0 ∧ r.height = 0) then return (-69, fileOutput)
  let result ← Prog.call fun s =>
    let read := lib.readBarcode ⟨r.output, r.width, r.height⟩ ⟨tryhard, format⟩ s.1
    (read.1, read.2, s.2)
  return reading result fileOutput

/-- `barqr::decode`: the code returned, and what has become of `file_output`. `isOk` is true on
both ways to the view, so that -4 is returned nowhere. -/
def decode (content fileOutput : Bytes) (format : F) (tryhard : Bool) :
    Prog (W × Live) (ℤ × Bytes) := do
  let luminance ← (if isSvg content then svgLuminance lib content
    else imageLuminance lib content)
  match luminance with
  | .error code => return (code, fileOutput)
  | .ok r => readLuminance lib r fileOutput format tryhard

/-! ### Documents -/

/-- The document comes out with a negative height, and there is a rasterizer for it. -/
def leaks (content : Bytes) (w : W) : Bool :=
  isSvg content &&
    match lib.parse (cString content) w with
    | (none, _) => false
    | (some image, w) =>
      (lib.createRasterizer w).1 && (scaledHeight image).any fun height => height < 0

/-- The height of the document is no `int32_t`, or the number of its pixels is none. -/
def Overflows (content : Bytes) (w : W) : Prop :=
  ∃ image w', lib.parse (cString content) w = (some image, w') ∧
    (scaledHeight image = none ∨ (lib.createRasterizer w').1 = true ∧
      ∃ height, scaledHeight image = some height ∧ ¬ (-2 ^ 21 ≤ height ∧ height < 2 ^ 21))

/-- A document and a rasterizer are not freed. -/
def Live.leak (live : Live) : Live :=
  { live with svgs := live.svgs + 1, rasterizers := live.rasterizers + 1 }

variable {lib} {content : Bytes} {w : W} {live : Live}

/-- The shades of gray of the pixels of an image. -/
def shades (image : Bytes) (channels n : ℕ) : Bytes := (List.range n).map (shade image channels)

theorem imageSize_256 (height : ℤ) :
    imageSize 256 height 4 =
      if -2 ^ 21 ≤ height ∧ height < 2 ^ 21 then some (256 * height * 4) else none := by
  rw [imageSize, int32]
  split_ifs with harea hheight hheight
  · rw [Option.bind_some, int32, if_pos (by omega)]
  · rw [Option.bind_some, int32, if_neg (by omega)]
  · exact absurd (by omega) harea
  · rfl

/-- A document of which the height is not negative is rasterized, and everything is freed. -/
theorem render_of_nonneg (image : NsvgImage S) {height : ℤ} (h0 : 0 ≤ height)
    (hlt : height < 2 ^ 21) (output : Bytes) :
    let r := lib.rasterize image (rasterScale image ⟨output, 256, height⟩) 256 height.toNat w
    let n := height.toNat * 256
    render lib image ⟨output, 256, height⟩ (w, live) =
      some ((.ok 1, ⟨shades ((List.range (n * 4)).map r.1) 4 n, 256, height⟩),
        r.2, { live with svgs := live.svgs - 1, rasterizers := live.rasterizers - 1 }) := by
  intro r n
  have hsize := imageSize_256 height
  rw [if_pos ⟨by omega, hlt⟩] at hsize
  have hpos : ¬ 256 * height * 4 < 0 := by omega
  have hgray := @grayscale_coords ((List.range (n * 4)).map r.1) 256 4 (by decide) height.toNat
    (resize output n) (by simp [n]) (length_resize _ _)
  have hwidth : (256 : ℤ).toNat = 256 := rfl
  simp only [render, nsvgRasterize, nsvgDeleteRasterizer, nsvgDelete, Prog.bind_apply,
    Prog.lift_apply, Prog.call_apply, Prog.pure_apply, hsize, Option.map_some, Option.bind_some,
    if_neg hpos, hwidth]
  rw [hgray]
  rfl

/-- The allocation of a negative number of pixels throws. -/
theorem render_of_neg (image : NsvgImage S) {height : ℤ} (h0 : height < 0)
    (hlt : -2 ^ 21 ≤ height) (output : Bytes) :
    render lib image ⟨output, 256, height⟩ (w, live) =
      some ((.error (), ⟨output, 256, height⟩), w, live) := by
  have hsize := imageSize_256 height
  rw [if_pos ⟨hlt, by omega⟩] at hsize
  have hneg : 256 * height * 4 < 0 := by omega
  simp only [render, Prog.bind_apply, Prog.lift_apply, hsize, Option.map_some, Option.bind_some,
    if_pos hneg, Prog.pure_apply]

/-- A number of pixels that is no `int` is no outcome. -/
theorem render_of_overflow (image : NsvgImage S) {height : ℤ}
    (h : ¬ (-2 ^ 21 ≤ height ∧ height < 2 ^ 21)) (output : Bytes) :
    render lib image ⟨output, 256, height⟩ (w, live) = none := by
  have hsize := imageSize_256 height
  rw [if_neg h] at hsize
  simp only [render, Prog.bind_apply, Prog.lift_apply, hsize, Option.map_none, Option.bind_none]

theorem svgLuminance_eq (hsvg : isSvg content = true) :
    svgLuminance lib content (w, live) =
      match lib.parse (cString content) w with
      | (none, w') => some (.error (-1), w', live)
      | (some image, w') =>
        (scaledHeight image).bind fun height =>
          let created := lib.createRasterizer w'
          if created.1 then
            (render lib image ⟨[], 256, height⟩ (created.2, live.leak)).map fun r =>
              (ofSvg r.1, r.2)
          else some (.error (-1), created.2, live) := by
  have hends : inputEndsWith content (str ".svg") = 1 := by
    rw [inputEndsWith_eq_one_iff, List.suffix_iff_eq_drop]
    simp only [isSvg, decide_eq_true_eq] at hsvg
    exact hsvg.2.symm
  rcases hparse : lib.parse (cString content) w with ⟨_ | image, w'⟩
  · simp [svgLuminance, fromSvg, nsvgParseFromFile, hends, hparse, ofSvg]
  · have hsized : (⟨[], 0, 0⟩ : Raster).sized image =
        (scaledHeight image).map fun height => ⟨[], 256, height⟩ := if_pos (by decide)
    cases hheight : scaledHeight image with
    | none => simp [svgLuminance, fromSvg, nsvgParseFromFile, hends, hparse, hsized, hheight]
    | some height =>
      rcases hcreated : lib.createRasterizer w' with ⟨_ | _, w''⟩
      · simp [svgLuminance, fromSvg, nsvgParseFromFile, nsvgCreateRasterizer, nsvgDelete, hends,
          hparse, hsized, hheight, hcreated, ofSvg]
      · simp [svgLuminance, fromSvg, nsvgParseFromFile, nsvgCreateRasterizer, hends, hparse,
          hsized, hheight, hcreated, Live.leak, Option.map_eq_bind]

/-- What an image yields. -/
def StbImage.luminance (image : StbImage) : Except ℤ Raster :=
  let n := image.height * image.width
  if image.channels = 3 ∨ image.channels = 4 then
    .ok ⟨shades image.data image.channels n, image.width, image.height⟩
  else if image.channels = 1 then .ok ⟨image.data, image.width, image.height⟩
  else .error (-3)

/-- The luminance of an image that is no document; the image is freed. -/
theorem imageLuminance_eq :
    imageLuminance lib content (w, live) =
      match lib.load (cString content) w with
      | (none, w') => some (.error (-2), w', live)
      | (some image, w') => some (image.luminance, w', live) := by
  rcases hload : lib.load (cString content) w with ⟨_ | image, w'⟩
  · simp [imageLuminance, stbiLoad, hload]
  · have hfreed : { live with images := live.images + 1 - 1 } = live := by
      rw [Int.add_sub_cancel]
    by_cases hcolor : image.channels = 3 ∨ image.channels = 4
    · have hgray := @grayscale_coords image.data image.width image.channels (by omega)
        image.height (resize [] (image.height * image.width)) image.length_data.ge
        (length_resize _ _)
      simp only [imageLuminance, StbImage.luminance, stbiLoad, stbiImageFree, hload,
        if_pos hcolor, hgray, Prog.bind_apply, Prog.call_apply, Prog.lift_apply, Prog.pure_apply,
        Option.map_some, Option.bind_some, Option.isSome_some, if_true, hfreed]
      rfl
    · by_cases hone : image.channels = 1
      · have hall : image.data.take (image.height * image.width) = image.data := by
          refine List.take_of_length_le ?_
          rw [image.length_data, hone, Nat.mul_one]
        simp [imageLuminance, StbImage.luminance, stbiLoad, stbiImageFree, hload, hone, hall]
      · simp [imageLuminance, StbImage.luminance, stbiLoad, stbiImageFree, hload, hcolor, hone]

/-! ### The ways out -/

theorem reading_cases (result : Except Unit Barcode) (out : Bytes) :
    (reading result out).1 = 1 ∨ (reading result out).2 = out ∧
      ((reading result out).1 = -5 ∨ (reading result out).1 = -69) := by
  cases result with
  | error e => exact Or.inr ⟨rfl, Or.inr rfl⟩
  | ok result =>
    cases hvalid : result.isValid with
    | false => simp [reading, hvalid]
    | true => simp [reading, hvalid]

theorem readLuminance_cases (r : Raster) (out : Bytes) (format : F) (tryhard : Bool) :
    ∃ code out' w', readLuminance lib r out format tryhard (w, live) =
        some ((code, out'), w', live) ∧ (code = 1 ∨ out' = out ∧ (code = -5 ∨ code = -69)) := by
  rw [readLuminance]
  split_ifs with hempty
  · exact ⟨-69, out, w, rfl, Or.inr ⟨rfl, Or.inr rfl⟩⟩
  · exact ⟨_, _, _, rfl, reading_cases _ out⟩

theorem overflows_iff {image : NsvgImage S} {w' : W}
    (hparse : lib.parse (cString content) w = (some image, w')) :
    Overflows lib content w ↔ scaledHeight image = none ∨ (lib.createRasterizer w').1 = true ∧
      ∃ height, scaledHeight image = some height ∧ ¬ (-2 ^ 21 ≤ height ∧ height < 2 ^ 21) := by
  constructor
  · rintro ⟨image₁, w₁, hparse₁, h⟩
    obtain ⟨himage, rfl⟩ := Prod.mk.inj (hparse.symm.trans hparse₁)
    obtain rfl := Option.some_inj.1 himage
    exact h
  · exact fun h => ⟨image, w', hparse, h⟩

theorem svgLuminance_cases (hsvg : isSvg content = true) (live : Live) :
    svgLuminance lib content (w, live) = none ∧ Overflows lib content w ∨
      ¬ Overflows lib content w ∧ ∃ x w', svgLuminance lib content (w, live) =
          some (x, w', if leaks lib content w then live.leak else live) ∧
        (leaks lib content w = true → x = .error (-69)) ∧
        ∀ code, x = .error code → code = -1 ∨ code = -69 := by
  have heq := @svgLuminance_eq W F S lib content w live hsvg
  rcases hparse : lib.parse (cString content) w with ⟨_ | image, w'⟩
  · have hno : leaks lib content w = false := by simp [leaks, hparse]
    right
    refine ⟨?_, .error (-1), w', ?_, by simp [hno], by simp⟩
    · rintro ⟨image, w₁, himage, -⟩
      simp [hparse] at himage
    · simpa [hparse, hno] using heq
  · rw [overflows_iff hparse]
    simp only [hparse] at heq
    cases hheight : scaledHeight image with
    | none =>
      left
      exact ⟨by rw [heq, hheight, Option.bind_none], Or.inl rfl⟩
    | some height =>
      rw [hheight, Option.bind_some] at heq
      rcases hcreated : lib.createRasterizer w' with ⟨_ | _, w''⟩
      · -- There is no rasterizer, and the document is freed.
        have hno : leaks lib content w = false := by simp [leaks, hparse, hcreated]
        right
        refine ⟨by simp, .error (-1), w'', ?_, by simp [hno], by simp⟩
        simpa [hcreated, hno] using heq
      · have hleaks : leaks lib content w = decide (height < 0) := by
          simp [leaks, hsvg, hparse, hcreated, hheight]
        simp only [hcreated, if_true] at heq
        by_cases hrange : -2 ^ 21 ≤ height ∧ height < 2 ^ 21
        · right
          refine ⟨by simpa using hrange, ?_⟩
          by_cases hneg : height < 0
          · -- The allocation throws, and nothing is freed.
            rw [render_of_neg image hneg hrange.1, Option.map_some] at heq
            refine ⟨.error (-69), w'', ?_, fun _ => rfl, by simp⟩
            rw [heq, hleaks, decide_eq_true hneg, if_pos rfl]
            rfl
          · have hno : leaks lib content w = false := by rw [hleaks, decide_eq_false hneg]
            have hlive : live.leak.svgs - 1 = live.svgs ∧
                live.leak.rasterizers - 1 = live.rasterizers :=
              ⟨Int.add_sub_cancel _ _, Int.add_sub_cancel _ _⟩
            rw [render_of_nonneg image (not_lt.1 hneg) hrange.2, Option.map_some, hlive.1,
              hlive.2] at heq
            refine ⟨_, _, by rw [heq, hno]; rfl, by simp [hno], ?_⟩
            intro code hcode
            cases hcode
        · left
          refine ⟨?_, Or.inr ⟨rfl, height, rfl, hrange⟩⟩
          rw [heq, render_of_overflow image hrange, Option.map_none]

/-- The codes that are returned when there is no text. -/
def decodeFailures : List ℤ := [-1, -2, -3, -5, -69]

/-- What comes of the luminance: a code, or a reading. -/
theorem decode_of_luminance {x : Except ℤ Raster} {w' : W} {live' : Live}
    (hx : (if isSvg content then svgLuminance lib content else imageLuminance lib content)
      (w, live) = some (x, w', live'))
    (hcodes : ∀ code, x = .error code → code ∈ decodeFailures) (out : Bytes) (format : F)
    (tryhard : Bool) :
    ∃ code out' w'', decode lib content out format tryhard (w, live) =
        some ((code, out'), w'', live') ∧ (∀ e, x = .error e → code = e) ∧
      (code = 1 ∨ out' = out ∧ code ∈ decodeFailures) := by
  cases x with
  | error e =>
    refine ⟨e, out, w', ?_, ?_, Or.inr ⟨rfl, hcodes e rfl⟩⟩
    · simp only [decode, Prog.bind_apply, hx, Option.bind_some, Prog.pure_apply]
    · intro e' he
      cases he
      rfl
  | ok r =>
    obtain ⟨code, out', w'', hread, hcode⟩ :=
      @readLuminance_cases W F S lib w' live' r out format tryhard
    refine ⟨code, out', w'', ?_, by simp, ?_⟩
    · simp only [decode, Prog.bind_apply, hx, Option.bind_some, hread]
    · rcases hcode with h | ⟨hout, rfl | rfl⟩
      · exact Or.inl h
      · exact Or.inr ⟨hout, by decide⟩
      · exact Or.inr ⟨hout, by decide⟩

/-- **The ways out of `decode`.** -/
theorem decode_cases (lib : ReaderLib W F S) (content out : Bytes) (format : F) (tryhard : Bool)
    (w : W) (live : Live) :
    decode lib content out format tryhard (w, live) = none ∧
        (isSvg content = true ∧ Overflows lib content w) ∨
      ¬ (isSvg content = true ∧ Overflows lib content w) ∧ ∃ code out' w',
        decode lib content out format tryhard (w, live) =
          some ((code, out'), w', if leaks lib content w then live.leak else live) ∧
        (leaks lib content w = true → code = -69) ∧
        (code = 1 ∨ out' = out ∧ code ∈ decodeFailures) := by
  by_cases hsvg : isSvg content = true
  · rcases svgLuminance_cases hsvg live with ⟨hnone, hover⟩ | ⟨hfits, x, w', hx, hleak, hcodes⟩
    · left
      exact ⟨by simp [decode, hsvg, hnone], hsvg, hover⟩
    · right
      obtain ⟨code, out', w'', hrun, hcode, hout⟩ := decode_of_luminance
        (by rwa [if_pos hsvg]) (by intro e he; rcases hcodes e he with rfl | rfl <;> decide)
        out format tryhard
      exact ⟨fun h => hfits h.2, code, out', w'', hrun, fun h => hcode _ (hleak h), hout⟩
  · right
    have hno : leaks lib content w = false := by simp [leaks, hsvg]
    have heq := @imageLuminance_eq W F S lib content w live
    have hcases : ∃ x w', imageLuminance lib content (w, live) = some (x, w', live) ∧
        ∀ code, x = .error code → code ∈ decodeFailures := by
      rcases hload : lib.load (cString content) w with ⟨_ | image, w'⟩
      · exact ⟨.error (-2), w', by simpa [hload] using heq, by simp [decodeFailures]⟩
      · refine ⟨image.luminance, w', by simpa [hload] using heq, ?_⟩
        intro code hcode
        rw [StbImage.luminance] at hcode
        split_ifs at hcode
        cases hcode
        decide
    obtain ⟨x, w', hx, hcodes⟩ := hcases
    obtain ⟨code, out', w'', hrun, -, hout⟩ :=
      decode_of_luminance (by rwa [if_neg hsvg]) hcodes out format tryhard
    refine ⟨fun h => hsvg h.1, code, out', w'', ?_, by simp [hno], hout⟩
    rw [hrun, hno]
    rfl

/-- **When `decode` has an outcome.** Only the height of a document can be in the way. -/
theorem decode_eq_none_iff (lib : ReaderLib W F S) (content out : Bytes) (format : F)
    (tryhard : Bool) (w : W) (live : Live) :
    decode lib content out format tryhard (w, live) = none ↔
      isSvg content = true ∧ Overflows lib content w := by
  rcases decode_cases lib content out format tryhard w live with
    ⟨hnone, hover⟩ | ⟨hfits, code, out', w', hrun, -⟩
  · exact iff_of_true hnone hover
  · exact iff_of_false (by simp [hrun]) hfits

/-! ### Sequences of calls -/

/-- A call of `decode`. -/
structure DecodeCall (F : Type) where
  /-- `content`. -/
  content : Bytes
  /-- `file_output`, before the call. -/
  fileOutput : Bytes
  /-- `format`. -/
  format : F
  /-- `tryhard`. -/
  tryhard : Bool

/-- The codes and the texts of calls that are made one after the other. -/
def decodeAll (lib : ReaderLib W F S) (calls : List (DecodeCall F)) :
    Prog (W × Live) (List (ℤ × Bytes)) :=
  calls.mapM fun call => decode lib call.content call.fileOutput call.format call.tryhard

/-- The result of a call: a text, or the old one with the code of a failure. -/
def ReadsOrKeeps (call : DecodeCall F) (result : ℤ × Bytes) : Prop :=
  result.1 = 1 ∨ result.2 = call.fileOutput ∧ result.1 ∈ decodeFailures

/-- **What calls leave allocated.** In every sequence of calls, a call that does not return 1 has
left its text alone. All images are freed at the end. As many documents as rasterizers are not,
at most one for each exception that was caught. -/
theorem decodeAll_live (lib : ReaderLib W F S) (calls : List (DecodeCall F)) {w w' : W}
    {live live' : Live} {results : List (ℤ × Bytes)}
    (hrun : decodeAll lib calls (w, live) = some (results, w', live')) :
    List.Forall₂ ReadsOrKeeps calls results ∧
      ∃ k ≤ results.countP fun result => result.1 = -69,
        live' = ⟨live.images, live.svgs + k, live.rasterizers + k⟩ := by
  induction calls generalizing w live results with
  | nil =>
    simp only [decodeAll, List.mapM_nil, Prog.pure_apply, Option.some_inj, Prod.mk.injEq] at hrun
    obtain ⟨rfl, rfl, rfl⟩ := hrun
    exact ⟨.nil, 0, Nat.zero_le _, by simp⟩
  | cons call calls ih =>
    rw [decodeAll, List.mapM_cons] at hrun
    obtain ⟨result, s₁, hfirst, hrest⟩ := Prog.bind_eq_some_iff.1 hrun
    obtain ⟨rest, s₂, hcalls, hend⟩ := Prog.bind_eq_some_iff.1 hrest
    obtain ⟨rfl, rfl⟩ : result :: rest = results ∧ s₂ = (w', live') := by simpa using hend
    obtain ⟨w₁, live₁⟩ := s₁
    obtain ⟨hresults, k, hk, hlive⟩ := ih hcalls
    rcases decode_cases lib call.content call.fileOutput call.format call.tryhard w live with
      ⟨hnone, -⟩ | ⟨-, code, out, w₂, hdecode, hleak, hkeeps⟩
    · rw [hnone] at hfirst
      cases hfirst
    · obtain ⟨rfl, h⟩ := Prod.mk.inj (Option.some_inj.1 (hdecode.symm.trans hfirst))
      obtain ⟨rfl, hlive₁⟩ := Prod.mk.inj h
      refine ⟨.cons hkeeps hresults, ?_⟩
      by_cases hleaks : leaks lib call.content w = true
      · refine ⟨k + 1, ?_, ?_⟩
        · rw [List.countP_cons_of_pos (by simpa using hleak hleaks)]
          omega
        · rw [hlive, ← hlive₁, if_pos hleaks, Live.leak]
          push_cast
          congr 1 <;> ring
      · refine ⟨k, hk.trans (List.sublist_cons_self _ _).countP_le, ?_⟩
        rw [hlive, ← hlive₁, if_neg hleaks]

/-- Every document is parsed to one with a negative height. -/
def upsideDown : ReaderLib Unit Unit Unit where
  load _ w := (none, w)
  parse _ w := (some ⟨1, -1, ()⟩, w)
  createRasterizer w := (true, w)
  rasterize _ _ _ _ w := (fun _ => 0, w)
  readBarcode _ _ w := (.error (), w)

/-- A document and a rasterizer are left. -/
theorem decodeAll_live_upsideDown :
    List.Forall₂ ReadsOrKeeps [⟨str "a.svg", [], (), true⟩] [(-69, [])] ∧
      ∃ k ≤ [((-69 : ℤ), ([] : Bytes))].countP fun result => result.1 = -69,
        (⟨0, 1, 1⟩ : Live) = ⟨0, 0 + k, 0 + k⟩ :=
  @decodeAll_live Unit Unit Unit upsideDown [⟨str "a.svg", [], (), true⟩] () () ⟨0, 0, 0⟩
    ⟨0, 1, 1⟩ [(-69, [])] (by decide +kernel)

end Behh
