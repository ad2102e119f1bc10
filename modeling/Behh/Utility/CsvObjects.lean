import Behh.Utility.CellNumbers

/-!
# The objects of a CSV file

The two readers of CSV files have the same loops over lines and cells. Over a library that keeps its
promises the loops build an array of objects, one for each line behind the first. A member of an
object is the value of the last cell under its name.

## Main definitions

* `csvHeaders`, `csvLinesBehind`, `csvCells`: the names, the lines behind them and the cells of one.
* `csvMember`: the cell that becomes a member.

## Main results

* `elements_csvTable`: the array that the loop over the lines builds.
* `find_csvRow`: the object that the loop over the cells of a line builds.
* `jsoncppCell_isPlain`, `jsontaoCell_isPlain`: cells become values without parts.
-/

namespace Behh

variable {D V : Type}

/-- The names in the first line. -/
def csvHeaders (text : Bytes) : List Bytes :=
  (getlines 0x2c ((getlines 0x0a text).headD [])).map (trim (str " \t\r\n"))

/-- The lines behind the first. -/
def csvLinesBehind (text : Bytes) : List Bytes := (getlines 0x0a text).tail

/-- The cells of a line. -/
def csvCells (line : Bytes) : List Bytes :=
  (getlines 0x2c (line.filter (· ≠ 0x0d))).map (trim (str " \t\n"))

/-- The cell of a line that becomes the member `key`: the last one under this name. -/
def csvMember (headers : List Bytes) (line key : Bytes) : Option Bytes :=
  (headers.zip (csvCells line)).reverse.lookup key

theorem mem_of_csvMember {headers : List Bytes} {line key cell : Bytes}
    (h : csvMember headers line key = some cell) : key ∈ headers ∧ cell ∈ csvCells line := by
  obtain ⟨l₁, l₂, hlist, -⟩ := List.lookup_eq_some_iff.1 h
  have hmem : (key, cell) ∈ (headers.zip (csvCells line)).reverse := by
    rw [hlist]
    simp
  rw [List.mem_reverse] at hmem
  exact ⟨(List.of_mem_zip hmem).1, (List.of_mem_zip hmem).2⟩

section Loops

variable {view : TableView V} {emptyArray emptyObject : V} {append : V → V → V}
  {setMember : V → Bytes → V → V} {IsPlain : V → Prop}
  (h : view.Builds emptyArray append emptyObject setMember IsPlain)
include h

/-- The array has an element for each line behind the first. -/
theorem elements_csvTable (row : List Bytes → Bytes → V) (text : Bytes) :
    view.IsArray (csvTable emptyArray append row text) ∧
      view.elements (csvTable emptyArray append row text) =
        (csvLinesBehind text).map (row (csvHeaders text)) := by
  rw [csvTable, csvLinesBehind, csvHeaders]
  cases getlines 0x0a text with
  | nil => exact ⟨h.isArray_emptyArray, h.elements_emptyArray⟩
  | cons first lines =>
    obtain ⟨harray, helements⟩ := h.elements_foldl_append
      (lines.map (row ((getlines 0x2c first).map (trim (str " \t\r\n"))))) h.isArray_emptyArray
    rw [List.foldl_map] at harray helements
    rw [h.elements_emptyArray, List.nil_append] at helements
    exact ⟨harray, helements⟩

/-- The object has a member for each name that has a cell under it. -/
theorem find_csvRow {value : Bytes → V} (hvalue : ∀ cell, IsPlain (value cell))
    (headers : List Bytes) (line : Bytes) :
    view.IsObject (csvRow emptyObject setMember value headers line) ∧
      ∀ key, view.find (csvRow emptyObject setMember value headers line) key =
        (csvMember headers line key).map value :=
  h.find_foldl_setMember value hvalue (headers.zip (csvCells line))

end Loops

/-! ### Cells -/

theorem jsoncppCell_of_booleanWord (lib : Jsoncpp D V) (stod : Bytes → Option D) {cell : Bytes}
    {b : Bool} (h : BooleanWord cell b) : jsoncppCell lib stod cell = lib.ofBool b :=
  ite_of_booleanWord lib.ofBool _ h

theorem jsoncppCell_isPlain (lib : Jsoncpp D V) (stod : Bytes → Option D) (cell : Bytes) :
    lib.IsPlain (jsoncppCell lib stod cell) := by
  have hstring : lib.IsPlain (lib.ofString cell) := Or.inl ⟨cell, rfl⟩
  rw [jsoncppCell_eq]
  split_ifs
  · exact Or.inr (Or.inl ⟨true, rfl⟩)
  · exact Or.inr (Or.inl ⟨false, rfl⟩)
  · cases stoi cell with
    | none => exact hstring
    | some r => exact Or.inr (Or.inr (Or.inl ⟨r.1, rfl⟩))
  · exact hstring

theorem jsontaoCell_isPlain (lib : Taojson D V) (stod : Bytes → Option D) (cell : Bytes) :
    lib.IsPlain (jsontaoCell lib stod cell) := by
  have hstring : lib.IsPlain (lib.ofString cell) := Or.inl (Or.inl ⟨cell, rfl⟩)
  by_cases hword : ∃ b, BooleanWord cell b
  · obtain ⟨b, hb⟩ := hword
    exact Or.inl (Or.inr ⟨b, jsontaoCell_of_booleanWord lib stod hb⟩)
  · rw [jsontaoCell_of_not_booleanWord _ _ fun b hb => hword ⟨b, hb⟩]
    split_ifs
    · cases stod cell with
      | none => exact hstring
      | some x => exact Or.inr (Or.inr ⟨x, rfl⟩)
    · cases stoll cell with
      | none => exact hstring
      | some r => exact Or.inr (Or.inl ⟨r.1, rfl⟩)

end Behh
