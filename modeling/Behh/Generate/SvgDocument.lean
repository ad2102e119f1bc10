import Behh.Generate.Barqr
import Behh.Library.VectorImage

/-!
# Reading the SVG document

The text that `image::matrix_to_svg` writes is read as a drawing: a white background that fills the
area, and the black squares on it.

## Main definitions

* `Svg.drawing`: the drawing of a document.

## Main results

* `read_text`: the text of a document is read as its drawing.
-/

namespace Behh

/-! ### Numbers -/

theorem natural_numeral (n : ℕ) : VectorImage.natural (numeral n) = some n := by
  have hdigits : (numeral n).all VectorImage.isDigit = true := all_isdigit_numeral n
  have hne : (numeral n).isEmpty = false := List.isEmpty_eq_false_iff.2 (numeral_ne_nil n)
  rw [VectorImage.natural, hne, hdigits]
  exact congrArg some (decimal_numeral n)

theorem number_intNumeral (n : ℤ) : VectorImage.number (intNumeral n) = some n := by
  rw [intNumeral]
  split
  · next hneg =>
    rw [VectorImage.number, if_pos rfl, natural_numeral, Option.map_some]
    exact congrArg some (by omega)
  · next hpos =>
    obtain ⟨c, rest, hcons⟩ := List.exists_cons_of_ne_nil (numeral_ne_nil n.natAbs)
    have hc : isdigit c = true := List.all_eq_true.1 (all_isdigit_numeral n.natAbs) c
      (hcons ▸ List.mem_cons_self ..)
    have hminus : c ≠ VectorImage.minus := by
      rintro rfl
      exact absurd hc (by decide)
    rw [hcons, VectorImage.number, if_neg hminus, ← hcons, natural_numeral, Option.map_some]
    exact congrArg some (by omega)

theorem isValue_intNumeral (n : ℤ) : ∀ c ∈ intNumeral n, VectorImage.isValue c = true := by
  have hdigit : ∀ c : UInt8, isdigit c = true → VectorImage.isValue c = true := by
    intro c hc
    by_contra hmeaning
    simp only [VectorImage.isValue, Bool.not_eq_true', Bool.not_eq_false, List.contains_eq_mem,
      decide_eq_true_eq, List.mem_cons, List.not_mem_nil, or_false] at hmeaning
    rcases hmeaning with rfl | rfl | rfl | rfl <;> exact absurd hc (by decide)
  have hnumeral : ∀ c ∈ numeral n.natAbs, VectorImage.isValue c = true := fun c hc =>
    hdigit c (List.all_eq_true.1 (all_isdigit_numeral _) c hc)
  rw [intNumeral]
  split
  · exact List.forall_mem_cons.2 ⟨by decide, hnumeral⟩
  · exact hnumeral

/-! ### The tags of a document -/

/-- `<?xml .. ?>`. -/
def xmlTag : VectorImage.Tag :=
  ⟨str "?xml", [(str "version", str "1.0"), (str "encoding", str "UTF-8")], str "?"⟩

/-- The start of a document. -/
def svgTag (width height : ℤ) : VectorImage.Tag :=
  ⟨str "svg", [(str "xmlns", str "http://www.w3.org/2000/svg"), (str "version", str "1.1"),
    (str "width", intNumeral width), (str "height", intNumeral height)], []⟩

/-- The background. -/
def backgroundTag (width height : ℤ) : VectorImage.Tag :=
  ⟨str "rect", [(str "id", str "background"), (str "width", intNumeral width),
    (str "height", intNumeral height), (str "fill", str "white")], str " /"⟩

/-- A square. -/
def squareTag (x y : ℤ) : VectorImage.Tag :=
  ⟨str "rect", [(str "x", intNumeral x), (str "y", intNumeral y), (str "width", str "1"),
    (str "height", str "1"), (str "fill", str "black")], str " /"⟩

/-- The end of a document. -/
def endTag : VectorImage.Tag := ⟨str "/svg", [], []⟩

/-- The tags of a document. -/
def Svg.tags (doc : Svg) : List VectorImage.Tag :=
  xmlTag :: svgTag doc.width doc.height :: backgroundTag doc.width doc.height ::
    (doc.rects.map (fun p => squareTag p.1 p.2) ++ [endTag])

theorem plainAttribute_intNumeral {name : Bytes} (hne : name ≠ [])
    (hname : ∀ c ∈ name, VectorImage.isPlain c = true) (n : ℤ) :
    VectorImage.PlainAttribute (name, intNumeral n) := ⟨hne, hname, isValue_intNumeral n⟩

theorem plain_svgTag (width height : ℤ) : (svgTag width height).Plain where
  name := show ∀ c ∈ str "svg", _ by decide +kernel
  attributes := by
    simp only [svgTag, List.forall_mem_cons]
    exact ⟨by decide +kernel, by decide +kernel,
      plainAttribute_intNumeral (by decide +kernel) (by decide +kernel) _,
      plainAttribute_intNumeral (by decide +kernel) (by decide +kernel) _, by simp⟩
  ending := by simp [svgTag]
  separate := by simp [svgTag]

theorem plain_backgroundTag (width height : ℤ) : (backgroundTag width height).Plain where
  name := show ∀ c ∈ str "rect", _ by decide +kernel
  attributes := by
    simp only [backgroundTag, List.forall_mem_cons]
    exact ⟨by decide +kernel,
      plainAttribute_intNumeral (by decide +kernel) (by decide +kernel) _,
      plainAttribute_intNumeral (by decide +kernel) (by decide +kernel) _, by decide +kernel,
      by simp⟩
  ending := show ∀ c ∈ str " /", _ by decide +kernel
  separate := by simp [backgroundTag]

theorem plain_squareTag (x y : ℤ) : (squareTag x y).Plain where
  name := show ∀ c ∈ str "rect", _ by decide +kernel
  attributes := by
    simp only [squareTag, List.forall_mem_cons]
    exact ⟨plainAttribute_intNumeral (by decide +kernel) (by decide +kernel) _,
      plainAttribute_intNumeral (by decide +kernel) (by decide +kernel) _, by decide +kernel,
      by decide +kernel, by decide +kernel, by simp⟩
  ending := show ∀ c ∈ str " /", _ by decide +kernel
  separate := by simp [squareTag]

theorem plain_tags (doc : Svg) : ∀ t ∈ doc.tags, t.Plain := by
  simp only [Svg.tags, List.forall_mem_cons, List.forall_mem_append, List.forall_mem_map]
  refine ⟨⟨by decide +kernel, by decide +kernel, by decide +kernel, by decide +kernel⟩,
    plain_svgTag _ _, plain_backgroundTag _ _, fun p _ => plain_squareTag p.1 p.2,
    ⟨by decide +kernel, by decide +kernel, by decide +kernel, fun _ => rfl⟩, by simp⟩

/-! ### The text -/

section Texts

variable (width height x y : ℤ)

theorem text_xmlTag : xmlTag.text = str "<?xml version=\"1.0\" encoding=\"UTF-8\"?>\n" := by
  decide

theorem text_svgTag : (svgTag width height).text =
    str "<svg xmlns=\"http://www.w3.org/2000/svg\" version=\"1.1\" width=\"" ++
      intNumeral width ++ str "\" height=\"" ++ intNumeral height ++ str "\">\n" := by
  simp only [svgTag, VectorImage.Tag.text, VectorImage.Tag.inner, VectorImage.attributeText,
    List.map_cons, List.map_nil, List.flatten_cons, List.flatten_nil, List.append_assoc,
    List.cons_append, List.nil_append]
  rfl

theorem text_backgroundTag : (backgroundTag width height).text =
    str "<rect id=\"background\" width=\"" ++ intNumeral width ++ str "\" height=\"" ++
      intNumeral height ++ str "\" fill=\"white\" />\n" := by
  simp only [backgroundTag, VectorImage.Tag.text, VectorImage.Tag.inner,
    VectorImage.attributeText, List.map_cons, List.map_nil, List.flatten_cons, List.flatten_nil,
    List.append_assoc, List.cons_append, List.nil_append]
  rfl

theorem text_squareTag : (squareTag x y).text = rectText x y := by
  simp only [squareTag, VectorImage.Tag.text, VectorImage.Tag.inner, VectorImage.attributeText,
    rectText, List.map_cons, List.map_nil, List.flatten_cons, List.flatten_nil,
    List.append_assoc, List.cons_append, List.nil_append]
  rfl

theorem text_endTag : endTag.text = str "</svg>\n" := by decide

end Texts

theorem Svg.text_eq (doc : Svg) : doc.text = (doc.tags.map VectorImage.Tag.text).flatten := by
  simp only [Svg.text, Svg.tags, List.map_cons, List.map_append, List.map_map, Function.comp_def,
    List.flatten_cons, List.flatten_append, List.map_nil, List.flatten_nil, List.append_nil,
    text_xmlTag, text_svgTag, text_backgroundTag, text_squareTag, text_endTag, List.append_assoc]

/-! ### The drawing -/

/-- The drawing of a document. -/
def Svg.drawing (doc : Svg) : VectorImage.Drawing :=
  VectorImage.squaresOn doc.width doc.height (str "white") (str "black") doc.rects

section Elements

variable (width height x y : ℤ)

theorem element_svgTag : (svgTag width height).element = some (.start width height) := by
  have hwidth : (svgTag width height).value "width" = some (intNumeral width) := rfl
  have hheight : (svgTag width height).value "height" = some (intNumeral height) := rfl
  have hname : (svgTag width height).name ≠ VectorImage.ascii "?xml" :=
    show str "svg" ≠ VectorImage.ascii "?xml" by decide
  have honly : VectorImage.Only (svgTag width height).given
      ["xmlns", "version", "width", "height"] :=
    show VectorImage.Only [str "xmlns", str "version", str "width", str "height"] _ by decide
  rw [VectorImage.Tag.element, if_neg fun h => hname h.1, if_pos ⟨rfl, rfl, honly, rfl⟩,
    VectorImage.Tag.numberAt, VectorImage.Tag.numberAt, hwidth, hheight]
  simp [number_intNumeral]

theorem element_backgroundTag :
    (backgroundTag width height).element = some (.rect ⟨0, 0, width, height, str "white"⟩) := by
  have hwidth : (backgroundTag width height).value "width" = some (intNumeral width) := rfl
  have hheight : (backgroundTag width height).value "height" = some (intNumeral height) := rfl
  have honly : VectorImage.Only (backgroundTag width height).given
      ["id", "x", "y", "width", "height", "fill"] :=
    show VectorImage.Only [str "id", str "width", str "height", str "fill"] _ by decide
  rw [VectorImage.Tag.element_of_rect rfl rfl honly, VectorImage.Tag.rect]
  simp only [VectorImage.Tag.numberAt, hwidth, hheight, Option.elim_some, number_intNumeral]
  rfl

theorem element_squareTag :
    (squareTag x y).element = some (.rect ⟨x, y, 1, 1, str "black"⟩) := by
  have hx : (squareTag x y).value "x" = some (intNumeral x) := rfl
  have hy : (squareTag x y).value "y" = some (intNumeral y) := rfl
  have honly : VectorImage.Only (squareTag x y).given
      ["id", "x", "y", "width", "height", "fill"] :=
    show VectorImage.Only [str "x", str "y", str "width", str "height", str "fill"] _ by decide
  rw [VectorImage.Tag.element_of_rect rfl rfl honly, VectorImage.Tag.rect]
  simp only [VectorImage.Tag.numberAt, hx, hy, Option.elim_some, number_intNumeral]
  rfl

end Elements

theorem mapM_element_squares (corners : List (ℤ × ℤ)) :
    (corners.map (fun p => squareTag p.1 p.2) ++ [endTag]).mapM VectorImage.Tag.element =
      some ((corners.map fun p => .rect ⟨p.1, p.2, 1, 1, str "black"⟩) ++ [.finish]) := by
  induction corners with
  | nil => rfl
  | cons p corners ih =>
    rw [List.map_cons, List.cons_append, List.mapM_cons, element_squareTag, ih]
    rfl

/-- **Reading a document.** The text is read as the squares on the background. -/
theorem read_text (doc : Svg) : VectorImage.read doc.text = some doc.drawing := by
  rw [doc.text_eq, Svg.drawing, VectorImage.squaresOn]
  refine VectorImage.read_flatten (plain_tags doc) ?_
  rw [Svg.tags, List.mapM_cons, List.mapM_cons, List.mapM_cons, element_svgTag,
    element_backgroundTag, mapM_element_squares, List.map_cons, List.map_map]
  rfl

end Behh
