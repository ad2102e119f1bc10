import Behh.Utility.CsvObjects

/-!
# The columns of a CSV file

A reader of CSV files is to put the fields of a line under the names of the first line, in order.
Its loops over `std::getline` find the texts between the commas, but not an empty text behind the
last comma, and none at all in an empty line. So an empty last field is lost, and with it a member,
when the line has no more fields than there are names; and so is an empty last name, when there is a
field for it.

A line is taken without its carriage returns, which both readers take out before they cut it. The
arrays and objects are those of any library that keeps its promises, as they are seen.

## Main definitions

* `IsLines`: the lines of a text.
* `csvNames`, `csvFields`: the names of the first line and the fields of another one.
* `RowKept`, `ColumnsKept`: the fields are under their names.
* `ColumnsFit`: the lines that keep their columns.

## Main results

* `rowKept_iff`: when an object made of some of the names and fields has all members.
* `columnsKept_iff`: when a file keeps its columns.
-/

namespace Behh

variable {D V T : Type}

/-! ### Lines, names and fields -/

/-- The lines of a text. Each ends with a line break, but the last one may lack it unless it is
empty. -/
def IsLines (lines : List Bytes) (text : Bytes) : Prop :=
  (∀ line ∈ lines, 0x0a ∉ line) ∧
    ((text = lines.flatMap fun line => line ++ [0x0a]) ∨
      lines ≠ [] ∧ lines.getLast? ≠ some [] ∧ text = [0x0a].intercalate lines)

/-- The names between the commas of the first line. -/
def csvNames (first : Bytes) : List Bytes := (first.splitOn 0x2c).map (trim (str " \t\r\n"))

/-- The fields between the commas of a line. -/
def csvFields (line : Bytes) : List Bytes :=
  ((line.filter (· ≠ 0x0d)).splitOn 0x2c).map (trim (str " \t\n"))

/-- The fields are under their names, and nothing else is in the object. -/
def RowKept (view : TableView V) (value : Bytes → V) (names fields : List Bytes) (row : V) :
    Prop :=
  view.IsObject row ∧
    (∀ (j : ℕ) (name field : Bytes), names[j]? = some name → fields[j]? = some field →
      view.find row name = some (value field)) ∧
    ∀ key, view.find row key ≠ none → ∃ j < fields.length, names[j]? = some key

/-- The array has an object for each line, in order, with the fields under their names. -/
def ColumnsKept (view : TableView V) (value : Bytes → V) (first : Bytes) (rest : List Bytes)
    (table : V) : Prop :=
  view.IsArray table ∧
    List.Forall₂ (fun line row => RowKept view value (csvNames first) (csvFields line) row) rest
      (view.elements table)

/-- There is nothing behind the last comma, or nothing at all. -/
def EndsEmpty (s : Bytes) : Prop := s = [] ∨ s.getLast? = some 0x2c

/-- When the last name is empty the line has fewer fields than there are names, and when the last
field is empty it has more. -/
def ColumnsFit (first line : Bytes) : Prop :=
  (EndsEmpty first → line.count 0x2c < first.count 0x2c) ∧
    (EndsEmpty (line.filter (· ≠ 0x0d)) → first.count 0x2c < line.count 0x2c)

theorem getlines_of_isLines {lines : List Bytes} {text : Bytes} (h : IsLines lines text) :
    getlines 0x0a text = lines := by
  obtain ⟨hlines, rfl | ⟨hne, hlast, rfl⟩⟩ := h
  · exact getlines_flatMap hlines
  · rw [getlines_eq, List.splitOn_intercalate 0x0a hlines hne, if_neg hlast]

theorem length_csvFields (line : Bytes) : (csvFields line).length = line.count 0x2c + 1 := by
  rw [csvFields, List.length_map, length_splitOn, List.count_filter (by decide)]

theorem length_csvNames (first : Bytes) : (csvNames first).length = first.count 0x2c + 1 := by
  rw [csvNames, List.length_map, length_splitOn]

/-- The texts that the loop over `std::getline` finds are all but an empty last one. -/
theorem map_getlines (f : Bytes → Bytes) (s : Bytes) :
    ∃ n, (getlines 0x2c s).map f = ((s.splitOn 0x2c).map f).take n ∧ n ≤ s.count 0x2c + 1 ∧
      (EndsEmpty s → n = s.count 0x2c) ∧ (¬ EndsEmpty s → n = s.count 0x2c + 1) := by
  have hlast := getLast?_splitOn_iff 0x2c s
  have hlength := length_splitOn 0x2c s
  rw [getlines_eq]
  by_cases hempty : EndsEmpty s
  · refine ⟨s.count 0x2c, ?_, by omega, fun _ => rfl, fun h => absurd hempty h⟩
    rw [if_pos (hlast.2 hempty), List.dropLast_eq_take, hlength, Nat.add_sub_cancel, List.map_take]
  · refine ⟨s.count 0x2c + 1, ?_, le_refl _, fun h => absurd h hempty, fun _ => rfl⟩
    rw [if_neg (mt hlast.1 hempty), List.take_of_length_le]
    rw [List.length_map, hlength]

/-! ### Objects -/

/-- Looking up a name among names without repetitions. -/
theorem lookup_reverse_zip_iff {names : List Bytes} (hnames : names.Nodup) {cells : List Bytes}
    {key cell : Bytes} :
    (names.zip cells).reverse.lookup key = some cell ↔
      ∃ j : ℕ, names[j]? = some key ∧ cells[j]? = some cell := by
  induction names generalizing cells cell with
  | nil => simp
  | cons name names ih =>
    obtain ⟨hname, hnames⟩ := List.nodup_cons.1 hnames
    cases cells with
    | nil => simp
    | cons first cells =>
      have hexists : (∃ j : ℕ, (name :: names)[j]? = some key ∧ (first :: cells)[j]? = some cell) ↔
          (name = key ∧ first = cell) ∨ ∃ j : ℕ, names[j]? = some key ∧ cells[j]? = some cell := by
        constructor
        · rintro ⟨j, hkey, hcell⟩
          cases j with
          | zero => exact Or.inl ⟨by simpa using hkey, by simpa using hcell⟩
          | succ j => exact Or.inr ⟨j, by simpa using hkey, by simpa using hcell⟩
        · rintro (⟨rfl, rfl⟩ | ⟨j, hkey, hcell⟩)
          · exact ⟨0, rfl, rfl⟩
          · exact ⟨j + 1, by simpa using hkey, by simpa using hcell⟩
      rw [List.zip_cons_cons, List.reverse_cons, List.lookup_append, Option.or_eq_some_iff,
        ih hnames, hexists, or_comm]
      refine or_congr_left ?_
      by_cases hkey : name = key
      · subst hkey
        have hnone : (names.zip cells).reverse.lookup name = none := by
          by_contra hsome
          obtain ⟨cell', hcell'⟩ := Option.ne_none_iff_exists'.1 hsome
          obtain ⟨j, hj, -⟩ := (ih hnames).1 hcell'
          exact hname (List.mem_of_getElem? hj)
        simp [hnone]
      · simp [List.lookup_cons, hkey, beq_false_of_ne (Ne.symm hkey)]

/-- An object that is made of the first names and fields has all members when none is missing that
has a field. -/
theorem rowKept_iff {view : TableView V} {value : Bytes → V} {names fields : List Bytes}
    (hnames : names.Nodup) {a b : ℕ} (ha : a ≤ names.length) (hb : b ≤ fields.length) {row : V}
    (hobject : view.IsObject row)
    (hfind : ∀ key, view.find row key =
      (((names.take a).zip (fields.take b)).reverse.lookup key).map value) :
    RowKept view value names fields row ↔ min names.length fields.length ≤ min a b := by
  have hlookup : ∀ key cell, ((names.take a).zip (fields.take b)).reverse.lookup key = some cell ↔
      ∃ j, j < a ∧ j < b ∧ names[j]? = some key ∧ fields[j]? = some cell := by
    intro key cell
    rw [lookup_reverse_zip_iff (hnames.sublist (List.take_sublist a names))]
    refine exists_congr fun j => ?_
    rw [List.getElem?_take, List.getElem?_take]
    split <;> split <;> simp_all
  constructor
  · rintro ⟨-, hkept, -⟩
    by_contra hmissing
    have hlt : min a b < names.length ∧ min a b < fields.length := by omega
    have hname := List.getElem?_eq_getElem hlt.1
    have hmember := hkept _ _ _ hname (List.getElem?_eq_getElem hlt.2)
    rw [hfind, Option.map_eq_some_iff] at hmember
    obtain ⟨cell, hcell, -⟩ := hmember
    obtain ⟨j, hja, hjb, hj, -⟩ := (hlookup _ cell).1 hcell
    have hsame : min a b = j := (List.getElem?_inj hlt.1 hnames).1 (hname.trans hj.symm)
    omega
  · intro hle
    refine ⟨hobject, fun j name field hname hfield => ?_, fun key hkey => ?_⟩
    · obtain ⟨hj, -⟩ := List.getElem?_eq_some_iff.1 hname
      obtain ⟨hj', -⟩ := List.getElem?_eq_some_iff.1 hfield
      rw [hfind, (hlookup name field).2 ⟨j, by omega, by omega, hname, hfield⟩, Option.map_some]
    · rw [hfind, Ne, Option.map_eq_none_iff] at hkey
      obtain ⟨cell, hcell⟩ := Option.ne_none_iff_exists'.1 hkey
      obtain ⟨j, -, hj, hname, -⟩ := (hlookup key cell).1 hcell
      exact ⟨j, by omega, hname⟩

section Loops

variable {view : TableView V} {emptyArray emptyObject : V} {append : V → V → V}
  {setMember : V → Bytes → V → V} {IsPlain : V → Prop}
  (h : view.Builds emptyArray append emptyObject setMember IsPlain) {value : Bytes → V}
  (hvalue : ∀ cell, IsPlain (value cell))
include h hvalue

/-- **A line keeps its columns** when it fits the first one. -/
theorem csvRow_rowKept_iff {first : Bytes} (hnames : (csvNames first).Nodup) (line : Bytes) :
    RowKept view value (csvNames first) (csvFields line)
        (csvRow emptyObject setMember value
          ((getlines 0x2c first).map (trim (str " \t\r\n"))) line) ↔ ColumnsFit first line := by
  obtain ⟨hobject, hfind⟩ := find_csvRow h hvalue
    ((getlines 0x2c first).map (trim (str " \t\r\n"))) line
  obtain ⟨a, hheaders, ha, hempty, hfull⟩ := map_getlines (trim (str " \t\r\n")) first
  obtain ⟨b, hcells, hb, hempty', hfull'⟩ :=
    map_getlines (trim (str " \t\n")) (line.filter (· ≠ 0x0d))
  have hcount : (line.filter (· ≠ 0x0d)).count 0x2c = line.count 0x2c :=
    List.count_filter (by decide)
  have hlength := length_csvNames first
  have hlength' := length_csvFields line
  rw [hcount] at hb hempty' hfull'
  have hfirst : ∀ key, view.find (csvRow emptyObject setMember value
      ((getlines 0x2c first).map (trim (str " \t\r\n"))) line) key =
        ((((csvNames first).take a).zip ((csvFields line).take b)).reverse.lookup key).map
          value := by
    intro key
    rw [hfind, csvMember, hheaders, csvCells, hcells]
    rfl
  rw [rowKept_iff hnames (by omega) (by omega) hobject hfirst, hlength, hlength', ColumnsFit]
  by_cases hfirstEmpty : EndsEmpty first
  · by_cases hlineEmpty : EndsEmpty (line.filter (· ≠ 0x0d))
    · have := hempty hfirstEmpty
      have := hempty' hlineEmpty
      simp only [hfirstEmpty, hlineEmpty, forall_const]
      omega
    · have := hempty hfirstEmpty
      have := hfull' hlineEmpty
      simp only [hfirstEmpty, hlineEmpty, forall_const, false_implies, and_true]
      omega
  · by_cases hlineEmpty : EndsEmpty (line.filter (· ≠ 0x0d))
    · have := hfull hfirstEmpty
      have := hempty' hlineEmpty
      simp only [hfirstEmpty, hlineEmpty, forall_const, false_implies, true_and]
      omega
    · have := hfull hfirstEmpty
      have := hfull' hlineEmpty
      simp only [hfirstEmpty, hlineEmpty, false_implies, and_self, iff_true]
      omega

/-- An array that is made line by line keeps its columns when its lines fit the first one. -/
theorem csvTable_columnsKept_iff {text first : Bytes} {rest : List Bytes}
    (htext : IsLines (first :: rest) text) (hnames : (csvNames first).Nodup) :
    ColumnsKept view value first rest
        (csvTable emptyArray append (csvRow emptyObject setMember value) text) ↔
      ∀ line ∈ rest, ColumnsFit first line := by
  obtain ⟨harray, helements⟩ :=
    elements_csvTable h (csvRow emptyObject setMember value) text
  rw [ColumnsKept, and_iff_right harray, helements, csvLinesBehind, csvHeaders,
    getlines_of_isLines htext, List.tail_cons, List.headD_cons, List.forall₂_map_right_iff,
    List.forall₂_same]
  exact forall₂_congr fun line _ => csvRow_rowKept_iff h hvalue hnames line

end Loops

/-! ### Files -/

/-- **The files that keep their columns.** Both readers put every field under its name exactly
when every line fits the first one: lines with no more fields than there are names do not end with
an empty field, and lines that have a field for the last name find it not empty. -/
theorem columnsKept_iff {cpp : Jsoncpp D V} (hcpp : cpp.Lawful) {tao : Taojson D T}
    (htao : tao.LawfulNumbers) (stod : Bytes → Option D) {text first : Bytes} {rest : List Bytes}
    (htext : IsLines (first :: rest) text) (hnames : (csvNames first).Nodup) :
    (ColumnsKept cpp.view (jsoncppCell cpp stod) first rest (jsoncppTable cpp stod text) ↔
        ∀ line ∈ rest, ColumnsFit first line) ∧
      (ColumnsKept tao.view (jsontaoCell tao stod) first rest (jsontaoTable tao stod text) ↔
        ∀ line ∈ rest, ColumnsFit first line) :=
  ⟨csvTable_columnsKept_iff hcpp.builds (jsoncppCell_isPlain cpp stod) htext hnames,
    csvTable_columnsKept_iff htao.builds (jsontaoCell_isPlain tao stod) htext hnames⟩

/-- A file of two columns, the second of which is empty in its line. -/
theorem isLines_emptyField : IsLines [str "id,note", str "1,"] (str "id,note\n1,\n") :=
  ⟨by decide, Or.inl (by decide)⟩

/-- The columns of this file. -/
theorem columnsKept_emptyField :
    (ColumnsKept Json.jsoncpp.view (jsoncppCell Json.jsoncpp (stod Doubles.unbounded))
        (str "id,note") [str "1,"]
        (jsoncppTable Json.jsoncpp (stod Doubles.unbounded) (str "id,note\n1,\n")) ↔
        ∀ line ∈ [str "1,"], ColumnsFit (str "id,note") line) ∧
      (ColumnsKept Json.taojson.view (jsontaoCell Json.taojson (stod Doubles.unbounded))
        (str "id,note") [str "1,"]
        (jsontaoTable Json.taojson (stod Doubles.unbounded) (str "id,note\n1,\n")) ↔
        ∀ line ∈ [str "1,"], ColumnsFit (str "id,note") line) :=
  columnsKept_iff Json.lawful_jsoncpp Json.lawfulNumbers (stod Doubles.unbounded)
    isLines_emptyField (by decide)

/-- The empty field of this file is lost. -/
theorem not_columnsKept_emptyField :
    ¬ ColumnsKept Json.jsoncpp.view (jsoncppCell Json.jsoncpp (stod Doubles.unbounded))
        (str "id,note") [str "1,"]
        (jsoncppTable Json.jsoncpp (stod Doubles.unbounded) (str "id,note\n1,\n")) ∧
      ¬ ColumnsKept Json.taojson.view (jsontaoCell Json.taojson (stod Doubles.unbounded))
        (str "id,note") [str "1,"]
        (jsontaoTable Json.taojson (stod Doubles.unbounded) (str "id,note\n1,\n")) := by
  have hnames : (csvNames (str "id,note")).Nodup := by decide
  have hlost : ¬ ∀ line ∈ [str "1,"], ColumnsFit (str "id,note") line := by
    intro h
    have hfit := (h _ (List.mem_singleton_self _)).2 (Or.inr (by decide))
    exact absurd hfit (by decide)
  exact ⟨mt (csvTable_columnsKept_iff Json.lawful_jsoncpp.builds (jsoncppCell_isPlain _ _)
      isLines_emptyField hnames).1 hlost,
    mt (csvTable_columnsKept_iff Json.lawfulNumbers.builds (jsontaoCell_isPlain _ _)
      isLines_emptyField hnames).1 hlost⟩

end Behh
