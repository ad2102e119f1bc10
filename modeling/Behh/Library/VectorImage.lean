import Mathlib.Data.Int.Notation
import Mathlib.Data.List.Basic
import Mathlib.Tactic.Common

/-!
# Drawings made of rectangles

How an SVG document is read that has filled rectangles and nothing else. A document is a list of
tags with only blanks between them: an XML declaration, which may be missing, a start tag with the
size in pixels, the rectangles, and the end tag. What goes beyond this is not read: other elements,
other attributes, references, lengths that are not whole numbers.

A rectangle hides what was drawn before it, and nothing is seen outside of the area of the drawing.

## Main definitions

* `Tag`, `Tag.text`, `tags`: tags, how they are written, and how they are read.
* `Element`, `Tag.element`: what a tag stands for.
* `Drawing`, `read`: drawings, and the drawing that a document stands for.
* `Drawing.fill`: the colour of a pixel.

## Main results

* `tags_flatten`: tags that are written are read.
* `read_flatten`: the document of a list of rectangles is read as these rectangles.
* `fill_background`: the colours of a drawing of squares on a background.
-/

namespace VectorImage

/-- A text. -/
abbrev Text : Type := List UInt8

/-- The bytes of an ASCII text. -/
def ascii (s : String) : Text := s.toList.map fun c => UInt8.ofNat c.toNat

abbrev newline : UInt8 := 0x0a
abbrev space : UInt8 := 0x20
abbrev quote : UInt8 := 0x22
abbrev ampersand : UInt8 := 0x26
abbrev minus : UInt8 := 0x2d
abbrev slash : UInt8 := 0x2f
abbrev less : UInt8 := 0x3c
abbrev equals : UInt8 := 0x3d
abbrev greater : UInt8 := 0x3e

/-- The blanks of XML. -/
def isBlank (c : UInt8) : Bool := c = 0x20 || c = 0x09 || c = 0x0a || c = 0x0d

/-- The decimal digits. -/
def isDigit (c : UInt8) : Bool := 0x30 ≤ c && c ≤ 0x39

/-! ### Tags -/

/-- What stands between the angle brackets of a tag. -/
structure Tag where
  /-- The name, with the character that may stand before it. -/
  name : Text
  /-- The attributes, with their values. -/
  attributes : List (Text × Text)
  /-- What follows the last value. -/
  ending : Text
  deriving DecidableEq

/-- The text in front of the closing bracket, when only blanks follow. -/
def inside (s : Text) : Option Text :=
  match s.splitOn greater with
  | [text, blanks] => if blanks.all isBlank then some text else none
  | _ => none

/-- The name of an attribute, between a blank and an equals sign. -/
def attributeName (s : Text) : Option Text :=
  match (s.dropWhile isBlank).splitOn equals with
  | [name, []] =>
    if s.head?.any isBlank && !name.isEmpty && name.all fun c => !isBlank c then some name else none
  | _ => none

/-- The attributes of a text that has been cut at its quotes, and what follows the last of them. -/
def attributes : List Text → Option (List (Text × Text) × Text)
  | [] => none
  | [ending] => some ([], ending)
  | before :: value :: pieces =>
    if ampersand ∈ value then none
    else (attributeName before).bind fun name =>
      (attributes pieces).map fun r => ((name, value) :: r.1, r.2)

/-- The tag that begins a text behind its opening bracket. -/
def tag (s : Text) : Option Tag :=
  (inside s).bind fun text =>
    let name := text.takeWhile fun c => !isBlank c
    (attributes ((text.drop name.length).splitOn quote)).map fun r => ⟨name, r.1, r.2⟩

/-- The tags of a text that has only blanks between them. -/
def tags (s : Text) : Option (List Tag) :=
  match s.splitOn less with
  | [] => none
  | blanks :: pieces => if blanks.all isBlank then pieces.mapM tag else none

/-! ### Elements -/

/-- A filled rectangle. -/
structure Rect where
  /-- The left edge. -/
  x : ℤ
  /-- The upper edge. -/
  y : ℤ
  /-- The width. -/
  width : ℤ
  /-- The height. -/
  height : ℤ
  /-- The colour. -/
  fill : Text
  deriving DecidableEq

/-- What a tag stands for. -/
inductive Element where
  /-- The XML declaration. -/
  | declaration
  /-- The start of a drawing with a width and a height. -/
  | start (width height : ℤ)
  /-- A rectangle. -/
  | rect (r : Rect)
  /-- The end of the drawing. -/
  | finish
  deriving DecidableEq

/-- The number that a text of digits denotes. -/
def natural (s : Text) : Option ℕ :=
  if !s.isEmpty && s.all isDigit then some (s.foldl (fun n c => 10 * n + (c.toNat - 0x30)) 0)
  else none

/-- The number that a text of digits with or without a minus sign denotes. -/
def number : Text → Option ℤ
  | [] => none
  | c :: s =>
    if c = minus then (natural s).map fun n : ℕ => -(n : ℤ)
    else (natural (c :: s)).map fun n : ℕ => (n : ℤ)

/-- No name is given twice, and all of them are among those allowed. -/
def Only (given : List Text) (allowed : List String) : Prop :=
  given.Nodup ∧ ∀ name ∈ given, name ∈ allowed.map ascii

instance (given : List Text) (allowed : List String) : Decidable (Only given allowed) :=
  inferInstanceAs (Decidable (_ ∧ _))

namespace Tag

/-- The names of the attributes. -/
def given (t : Tag) : List Text := t.attributes.map Prod.fst

/-- The value of an attribute. -/
def value (t : Tag) (name : String) : Option Text := t.attributes.lookup (ascii name)

/-- The number that is the value of an attribute, with a default when there is no such attribute. -/
def numberAt (t : Tag) (name : String) (missing : Option ℤ) : Option ℤ :=
  (t.value name).elim missing number

/-- The rectangle that an element stands for: at the origin and black, if nothing else is said. -/
def rect (t : Tag) : Option Rect :=
  (t.numberAt "x" (some 0)).bind fun x => (t.numberAt "y" (some 0)).bind fun y =>
    (t.numberAt "width" none).bind fun width => (t.numberAt "height" none).map fun height =>
      ⟨x, y, width, height, (t.value "fill").getD (ascii "black")⟩

/-- What a tag stands for. -/
def element (t : Tag) : Option Element :=
  if t.name = ascii "?xml" ∧ t.ending = ascii "?" then some .declaration
  else if t.name = ascii "svg" ∧ t.ending.all isBlank ∧
      Only t.given ["xmlns", "version", "width", "height"] ∧
      t.value "xmlns" = some (ascii "http://www.w3.org/2000/svg") then
    (t.numberAt "width" none).bind fun width =>
      (t.numberAt "height" none).map fun height => .start width height
  else if t.name = ascii "rect" ∧ t.ending.dropWhile isBlank = [slash] ∧
      Only t.given ["id", "x", "y", "width", "height", "fill"] then t.rect.map .rect
  else if t.name = ascii "/svg" ∧ t.attributes = [] ∧ t.ending.all isBlank then some .finish
  else none

theorem element_of_rect {t : Tag} (hname : t.name = ascii "rect")
    (hending : t.ending.dropWhile isBlank = [slash])
    (honly : Only t.given ["id", "x", "y", "width", "height", "fill"]) :
    t.element = t.rect.map .rect := by
  have hxml : t.name ≠ ascii "?xml" := by rw [hname]; decide
  have hsvg : t.name ≠ ascii "svg" := by rw [hname]; decide
  rw [element, if_neg fun h => hxml h.1, if_neg fun h => hsvg h.1, if_pos ⟨hname, hending, honly⟩]

end Tag

/-! ### Drawings -/

/-- A drawing: its size, and its rectangles in the order in which they are drawn. -/
structure Drawing where
  /-- The width of the area. -/
  width : ℤ
  /-- The height of the area. -/
  height : ℤ
  /-- The rectangles. -/
  rects : List Rect

/-- The rectangles up to the end of a drawing, which ends the document. -/
def rectangles : List Element → Option (List Rect)
  | [.finish] => some []
  | .rect r :: elements => (rectangles elements).map (r :: ·)
  | _ => none

/-- The drawing that a document without a declaration stands for. -/
def drawing : List Element → Option Drawing
  | .start width height :: elements => (rectangles elements).map fun rs => ⟨width, height, rs⟩
  | _ => none

/-- The drawing that a document stands for. -/
def read (s : Text) : Option Drawing :=
  ((tags s).bind fun ts => ts.mapM Tag.element).bind fun elements =>
    if elements.head? = some .declaration then drawing elements.tail else drawing elements

/-- A rectangle covers a pixel. -/
def Rect.Covers (r : Rect) (i j : ℤ) : Prop :=
  (r.x ≤ i ∧ i < r.x + r.width) ∧ (r.y ≤ j ∧ j < r.y + r.height)

instance (r : Rect) (i j : ℤ) : Decidable (r.Covers i j) := inferInstanceAs (Decidable (_ ∧ _))

/-- The colour of a pixel: that of the last rectangle which covers it, inside of the area. -/
def Drawing.fill (d : Drawing) (i j : ℤ) : Option Text :=
  if (0 ≤ i ∧ i < d.width) ∧ (0 ≤ j ∧ j < d.height) then
    (d.rects.filter fun r => r.Covers i j).getLast?.map Rect.fill
  else none

/-! ### Written tags -/

/-- An attribute as it is written. -/
def attributeText (a : Text × Text) : Text :=
  space :: a.1 ++ equals :: quote :: a.2 ++ [quote]

/-- A tag as it is written, without its brackets. -/
def Tag.inner (t : Tag) : Text :=
  t.name ++ ((t.attributes.map attributeText).flatten ++ t.ending)

/-- A tag as it is written, at the end of a line. -/
def Tag.text (t : Tag) : Text := less :: t.inner ++ [greater, newline]

/-- Characters that stand for themselves in a name. -/
def isPlain (c : UInt8) : Bool :=
  !isBlank c && !([quote, ampersand, less, equals, greater] : Text).contains c

/-- Characters that stand for themselves in a value. -/
def isValue (c : UInt8) : Bool := !([quote, ampersand, less, greater] : Text).contains c

/-- An attribute with a name of plain characters, and a value without brackets, quotes and
references. -/
def PlainAttribute (a : Text × Text) : Prop :=
  a.1 ≠ [] ∧ (∀ c ∈ a.1, isPlain c = true) ∧ ∀ c ∈ a.2, isValue c = true

instance (a : Text × Text) : Decidable (PlainAttribute a) :=
  inferInstanceAs (Decidable (_ ∧ _ ∧ _))

/-- A tag whose text can be told from its parts. -/
structure Tag.Plain (t : Tag) : Prop where
  /-- The name has plain characters. -/
  name : ∀ c ∈ t.name, isPlain c = true
  /-- The attributes are plain. -/
  attributes : ∀ a ∈ t.attributes, PlainAttribute a
  /-- What follows them has no brackets, quotes and references. -/
  ending : ∀ c ∈ t.ending, isValue c = true
  /-- The name ends where the tag does, or at a blank. -/
  separate : t.attributes = [] → t.ending = []

section Tags

variable {s : Text} {t : Tag} {ts : List Tag}

theorem isValue_of_isPlain {c : UInt8} (h : isPlain c = true) : isValue c = true := by
  simp only [isPlain, isValue, Bool.and_eq_true, Bool.not_eq_true', List.contains_eq_mem,
    decide_eq_false_iff_not, List.mem_cons, not_or] at h ⊢
  exact ⟨h.2.1, h.2.2.1, h.2.2.2.1, h.2.2.2.2.2⟩

/-- None of the characters that have a meaning in a value is in a text of others. -/
theorem not_mem_of_isValue (h : ∀ c ∈ s, isValue c = true) :
    quote ∉ s ∧ ampersand ∉ s ∧ less ∉ s ∧ greater ∉ s := by
  refine ⟨fun hc => ?_, fun hc => ?_, fun hc => ?_, fun hc => ?_⟩ <;>
    exact absurd (h _ hc) (by decide)

theorem isBlank_of_isPlain {c : UInt8} (h : isPlain c = true) : isBlank c = false := by
  rw [isPlain, Bool.and_eq_true] at h
  simpa using h.1

theorem attributeName_text {name : Text} (hne : name ≠ []) (h : ∀ c ∈ name, isPlain c = true) :
    attributeName (space :: name ++ [equals]) = some name := by
  have hblank : ∀ c ∈ name, isBlank c = false := fun c hc => isBlank_of_isPlain (h c hc)
  have hequals : equals ∉ name := fun hc => absurd (h _ hc) (by decide)
  have hdrop : (space :: name ++ [equals]).dropWhile isBlank = name ++ [equals] := by
    obtain ⟨c, rest, rfl⟩ := List.exists_cons_of_ne_nil hne
    have hspace : isBlank space = true := by decide
    have hc := hblank c (List.mem_cons_self ..)
    rw [List.cons_append, List.dropWhile_cons_of_pos hspace, List.cons_append,
      List.dropWhile_cons_of_neg (by simp [hc])]
  rw [attributeName, hdrop, List.splitOn_append_cons_self_of_not_mem hequals, List.splitOn_nil]
  simp only
  rw [if_pos]
  simp only [List.cons_append, List.head?_cons, Option.any_some, Bool.and_eq_true,
    Bool.not_eq_true', List.isEmpty_eq_false_iff, List.all_eq_true]
  exact ⟨⟨by decide, hne⟩, hblank⟩

/-- The attributes that are written are read, and what follows them is left. -/
theorem attributes_text {as : List (Text × Text)} {ending : Text}
    (h : ∀ a ∈ as, PlainAttribute a) (hending : ∀ c ∈ ending, isValue c = true) :
    attributes (((as.map attributeText).flatten ++ ending).splitOn quote) =
      some (as, ending) := by
  induction as with
  | nil =>
    rw [List.map_nil, List.flatten_nil, List.nil_append,
      List.splitOn_eq_singleton (not_mem_of_isValue hending).1, attributes]
  | cons a as ih =>
    obtain ⟨name, value⟩ := a
    obtain ⟨hne, hname, hvalue⟩ := h _ (List.mem_cons_self ..)
    have hvalue' := not_mem_of_isValue hvalue
    have hbefore : quote ∉ space :: name ++ [equals] := by
      have hquote := (not_mem_of_isValue fun c hc => isValue_of_isPlain (hname c hc)).1
      simp only [List.cons_append, List.mem_cons, List.mem_append, List.not_mem_nil, or_false,
        not_or]
      exact ⟨by decide, hquote, by decide⟩
    have htext : ((name, value) :: as).map attributeText = attributeText (name, value) ::
        as.map attributeText := rfl
    have hsplit : attributeText (name, value) ++ (as.map attributeText).flatten ++ ending =
        (space :: name ++ [equals]) ++ quote :: (value ++ quote ::
          ((as.map attributeText).flatten ++ ending)) := by
      simp [attributeText]
    rw [htext, List.flatten_cons, hsplit, List.splitOn_append_cons_self_of_not_mem hbefore,
      List.splitOn_append_cons_self_of_not_mem hvalue'.1]
    have hread := attributeName_text hne hname
    rw [attributes, if_neg hvalue'.2.1, hread, Option.bind_some,
      ih fun a ha => h a (List.mem_cons_of_mem _ ha), Option.map_some]

theorem Tag.Plain.ne_of_mem (h : t.Plain) : ∀ c ∈ t.inner, c ≠ less ∧ c ≠ greater := by
  have hvalue : ∀ c, isValue c = true → c ≠ less ∧ c ≠ greater := by
    rintro c hc
    constructor <;> rintro rfl <;> exact absurd hc (by decide)
  intro c hc
  rw [inner, List.mem_append, List.mem_append] at hc
  rcases hc with hc | hc | hc
  · exact hvalue c (isValue_of_isPlain (h.name c hc))
  · obtain ⟨text, htext, hc⟩ := List.mem_flatten.1 hc
    obtain ⟨a, ha, rfl⟩ := List.mem_map.1 htext
    simp only [attributeText, List.cons_append, List.mem_cons, List.mem_append,
      List.not_mem_nil, or_false] at hc
    rcases hc with rfl | (hc | rfl | rfl | hc) | rfl
    · decide
    · exact hvalue c (isValue_of_isPlain ((h.attributes a ha).2.1 c hc))
    · decide
    · decide
    · exact hvalue c ((h.attributes a ha).2.2 c hc)
    · decide
  · exact hvalue c (h.ending c hc)

theorem Tag.Plain.takeWhile_inner (h : t.Plain) :
    t.inner.takeWhile (fun c => !isBlank c) = t.name := by
  have hname : ∀ c ∈ t.name, (!isBlank c) = true := fun c hc => by
    rw [isBlank_of_isPlain (h.name c hc)]
    rfl
  rw [inner, List.takeWhile_append_of_pos hname]
  cases hattributes : t.attributes with
  | nil => simp [h.separate hattributes]
  | cons a as =>
    have hspace : isBlank space = true := by decide
    simp [attributeText, List.takeWhile_cons_of_neg, hspace]

theorem tag_inner (h : t.Plain) : tag (t.inner ++ [greater, newline]) = some t := by
  have hgreater : greater ∉ t.inner := fun hc => (h.ne_of_mem _ hc).2 rfl
  have hinside : inside (t.inner ++ [greater, newline]) = some t.inner := by
    rw [inside, List.splitOn_append_cons_self_of_not_mem hgreater,
      List.splitOn_eq_singleton (by decide)]
    rfl
  rw [tag, hinside, Option.bind_some]
  simp only [h.takeWhile_inner]
  rw [Tag.inner, List.drop_left, attributes_text h.attributes h.ending, Option.map_some]

/-- The pieces into which the opening brackets cut a text that ends with written tags. -/
theorem splitOn_flatten (h : ∀ t ∈ ts, t.Plain) : ∃ pieces,
    (∀ front : Text, less ∉ front →
      (front ++ (ts.map Tag.text).flatten).splitOn less = front :: pieces) ∧
    pieces.mapM tag = some ts := by
  induction ts with
  | nil =>
    refine ⟨[], fun front hfront => ?_, rfl⟩
    rw [List.map_nil, List.flatten_nil, List.append_nil, List.splitOn_eq_singleton hfront]
  | cons t ts ih =>
    obtain ⟨pieces, hpieces, hread⟩ := ih fun t ht => h t (List.mem_cons_of_mem _ ht)
    have ht := h t (List.mem_cons_self ..)
    have hless : less ∉ t.inner ++ [greater, newline] := by
      rw [List.mem_append, not_or]
      exact ⟨fun hc => (ht.ne_of_mem _ hc).1 rfl, by decide⟩
    refine ⟨(t.inner ++ [greater, newline]) :: pieces, fun front hfront => ?_, ?_⟩
    · rw [List.map_cons, List.flatten_cons, Tag.text, List.cons_append, List.cons_append,
        List.splitOn_append_cons_self_of_not_mem hfront, hpieces _ hless]
    · rw [List.mapM_cons, tag_inner ht, hread]
      rfl

/-- **Tags that are written are read.** -/
theorem tags_flatten (h : ∀ t ∈ ts, t.Plain) : tags (ts.map Tag.text).flatten = some ts := by
  obtain ⟨pieces, hpieces, hread⟩ := splitOn_flatten h
  have hsplit := hpieces [] List.not_mem_nil
  rw [List.nil_append] at hsplit
  simp [tags, hsplit, hread]

/-! ### Written drawings -/

theorem rectangles_map (rs : List Rect) :
    rectangles (rs.map Element.rect ++ [.finish]) = some rs := by
  induction rs with
  | nil => rfl
  | cons r rs ih => rw [List.map_cons, List.cons_append, rectangles, ih, Option.map_some]

/-- **Documents that are written are read**, when their tags stand for a declaration, a start, some
rectangles and an end. -/
theorem read_flatten {width height : ℤ} {rs : List Rect} (h : ∀ t ∈ ts, t.Plain)
    (helement : ts.mapM Tag.element =
      some (.declaration :: .start width height :: (rs.map Element.rect ++ [.finish]))) :
    read (ts.map Tag.text).flatten = some ⟨width, height, rs⟩ := by
  rw [read, tags_flatten h, Option.bind_some, helement, Option.bind_some, List.head?_cons,
    if_pos rfl, List.tail_cons, drawing, rectangles_map, Option.map_some]

end Tags

/-! ### Squares on a background -/

section Squares

variable {width height : ℤ} {back front : Text} {corners : List (ℤ × ℤ)}

/-- Squares with a side of one pixel on a background that fills the area. -/
def squaresOn (width height : ℤ) (back front : Text) (corners : List (ℤ × ℤ)) : Drawing :=
  ⟨width, height, ⟨0, 0, width, height, back⟩ :: corners.map fun p => ⟨p.1, p.2, 1, 1, front⟩⟩

theorem covers_square_iff {i j x y : ℤ} {fill : Text} :
    (⟨x, y, 1, 1, fill⟩ : Rect).Covers i j ↔ (x, y) = (i, j) := by
  simp only [Rect.Covers, Prod.mk.injEq]
  omega

/-- The squares that cover a pixel are as many as have their corner there. -/
theorem filter_squares (i j : ℤ) :
    (corners.map fun p => (⟨p.1, p.2, 1, 1, front⟩ : Rect)).filter (fun r => r.Covers i j) =
      List.replicate (corners.count (i, j)) ⟨i, j, 1, 1, front⟩ := by
  have hcovers : ((fun r : Rect => decide (r.Covers i j)) ∘
      fun p : ℤ × ℤ => (⟨p.1, p.2, 1, 1, front⟩ : Rect)) = fun p => p == (i, j) := by
    funext p
    rw [Bool.eq_iff_iff, Function.comp_apply, decide_eq_true_iff, covers_square_iff, beq_iff_eq]
  rw [List.filter_map, hcovers, List.filter_beq, List.map_replicate]

/-- **The colours of squares on a background.** -/
theorem fill_background (i j : ℤ) : (squaresOn width height back front corners).fill i j =
    if (0 ≤ i ∧ i < width) ∧ (0 ≤ j ∧ j < height) then
      some (if (i, j) ∈ corners then front else back)
    else none := by
  rw [Drawing.fill, squaresOn]
  refine if_ctx_congr Iff.rfl (fun hinside => ?_) fun _ => rfl
  have hback : (⟨0, 0, width, height, back⟩ : Rect).Covers i j := by
    simpa only [Rect.Covers, Int.zero_add] using hinside
  rw [List.filter_cons_of_pos (by simpa using hback), filter_squares]
  by_cases hcorner : (i, j) ∈ corners
  · have hpos : 0 < corners.count (i, j) := List.count_pos_iff.2 hcorner
    obtain ⟨n, hn⟩ := Nat.exists_eq_succ_of_ne_zero (Nat.ne_of_gt hpos)
    rw [if_pos hcorner, hn, List.replicate_succ', ← List.cons_append, List.getLast?_concat]
    rfl
  · rw [if_neg hcorner, List.count_eq_zero.2 hcorner]
    rfl

end Squares

end VectorImage
