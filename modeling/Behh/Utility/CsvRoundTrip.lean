import Behh.Utility.CsvRejects

/-!
# Tables written to CSV files and read again

`jsontao::save_to_csv` writes the keys of the first object and the members of all objects as they
are, with commas between cells and line breaks between lines. `jsontao::from_csv_file` cuts lines
at line breaks and cells at commas, takes carriage returns out, trims cells, and makes booleans and
numbers of the cells that look like them. Nothing is quoted, so a table comes back when its texts
contain nothing that the reader takes for something else.

The file is read as it was written: this is about disks without faults.

## Main definitions

* `Taojson.IsTable`: arrays of objects with the same keys, and strings and booleans as members.
* `CsvCell`, `CsvTable`: texts and tables without a meaning to the reader.

## Main results

* `jsontaoSaveToCsv_apply`, `jsontaoFromCsvFile_apply`: what is written and read.
* `csvRoundTrip`: the tables that come back.
-/

namespace Behh

variable {D V : Type}

/-! ### Tables -/

namespace Taojson

variable (lib : Taojson D V)

/-- The first element of an array. -/
def firstObj (v : V) : V := (lib.getArray v).headD lib.null

/-- A non-empty array of objects that have the same keys, at least one, and strings and booleans as
members. -/
structure IsTable (v : V) : Prop where
  /-- It is an array. -/
  isArray : lib.isArray v = true
  /-- It is not empty. -/
  nonempty : lib.getArray v ≠ []
  /-- Its elements are objects. -/
  isObject : ∀ row ∈ lib.getArray v, lib.isObject row = true
  /-- They have keys. -/
  keys_ne : ∀ row ∈ lib.getArray v, lib.keys row ≠ []
  /-- They have the same keys. -/
  same : ∀ row ∈ lib.getArray v, ∀ row' ∈ lib.getArray v, ∀ k, k ∈ lib.keys row →
    k ∈ lib.keys row'
  /-- Their members are strings and booleans. -/
  flat : ∀ row ∈ lib.getArray v, ∀ k x, lib.find row k = some x → lib.IsScalar x

end Taojson

/-! ### Lines and cells -/

/-- Cells with commas between them. -/
def csvJoin : List Bytes → Bytes
  | [] => []
  | cell :: cells => cell ++ cells.flatMap fun cell => 0x2c :: cell

theorem csvJoin_cons_cons (cell cell' : Bytes) (cells : List Bytes) :
    csvJoin (cell :: cell' :: cells) = cell ++ 0x2c :: csvJoin (cell' :: cells) := rfl

/-- A line has only the characters of its cells, and commas. -/
theorem notMem_csvJoin {cells : List Bytes} {c : UInt8} (hc : c ≠ 0x2c)
    (h : ∀ cell ∈ cells, c ∉ cell) : c ∉ csvJoin cells := by
  induction cells with
  | nil => exact List.not_mem_nil
  | cons cell cells ih =>
    obtain ⟨hcell, hcells⟩ := List.forall_mem_cons.1 h
    cases cells with
    | nil => rwa [csvJoin, List.flatMap_nil, List.append_nil]
    | cons cell' cells =>
      rw [csvJoin_cons_cons, List.mem_append, List.mem_cons]
      rintro (hmem | rfl | hmem)
      · exact hcell hmem
      · exact hc rfl
      · exact ih hcells hmem

/-- What is written for cells of which none throws. -/
theorem csvLine_some (cells : List Bytes) :
    (csvLine true (cells.map some)).2 = true ∧
      (csvLine true (cells.map some)).1.flatten = csvJoin cells ++ [0x0a] := by
  have hrest : ∀ cells : List Bytes, (csvLine false (cells.map some)).2 = true ∧
      (csvLine false (cells.map some)).1.flatten =
        (cells.flatMap fun cell => 0x2c :: cell) ++ [0x0a] := by
    intro cells
    induction cells with
    | nil => exact ⟨rfl, by decide⟩
    | cons cell cells ih => exact ⟨ih.1, by simp [csvLine, ih.2, str]⟩
  cases cells with
  | nil => exact ⟨rfl, by decide⟩
  | cons cell cells =>
    obtain ⟨htrue, htext⟩ := hrest cells
    exact ⟨htrue, by simp [csvLine, htext, csvJoin]⟩

theorem csvLines_some (lines : List (List Bytes)) :
    (csvLines (lines.map fun cells => cells.map some)).1.flatten =
      lines.flatMap fun cells => csvJoin cells ++ [0x0a] := by
  induction lines with
  | nil => rfl
  | cons cells lines ih =>
    obtain ⟨htrue, htext⟩ := csvLine_some cells
    rw [List.map_cons, csvLines, if_pos htrue, List.flatten_append, htext, ih, List.flatMap_cons]

theorem getlines_of_notMem {delim : UInt8} {line : Bytes} (h : delim ∉ line) (hne : line ≠ []) :
    getlines delim line = [line] := by
  induction line with
  | nil => exact absurd rfl hne
  | cons c cs ih =>
    have hc : c ≠ delim := (List.ne_of_not_mem_cons h).symm
    rw [getlines, if_neg hc]
    by_cases hcs : cs = []
    · rw [hcs]
      rfl
    · rw [ih (List.not_mem_of_not_mem_cons h) hcs]

/-- Cells without commas are read as they are written, unless the last one is empty. -/
theorem getlines_csvJoin {cells : List Bytes} (h : ∀ cell ∈ cells, 0x2c ∉ cell)
    (hlast : cells.getLast? ≠ some []) : getlines 0x2c (csvJoin cells) = cells := by
  induction cells with
  | nil => rfl
  | cons cell cells ih =>
    obtain ⟨hcell, hcells⟩ := List.forall_mem_cons.1 h
    cases cells with
    | nil =>
      have hne : cell ≠ [] := fun hnil => hlast (congrArg some hnil)
      rw [csvJoin, List.flatMap_nil, List.append_nil, getlines_of_notMem hcell hne]
    | cons cell' cells =>
      rw [csvJoin_cons_cons, getlines_append_cons hcell,
        ih hcells (by rwa [List.getLast?_cons_cons] at hlast)]

/-! ### Tables that come back -/

/-- A text that the reader takes for itself: without comma, line break and carriage return, without
blanks at its ends, and neither a boolean nor a number to it. -/
structure CsvCell (stod : Bytes → Option D) (s : Bytes) : Prop where
  /-- No comma. -/
  comma : 0x2c ∉ s
  /-- No line break. -/
  lineBreak : 0x0a ∉ s
  /-- No carriage return. -/
  carriageReturn : 0x0d ∉ s
  /-- No blanks at its ends. -/
  trimmed : trim (str " \t\n") s = s
  /-- Not true. -/
  notTrue : s.map toupper ≠ str "TRUE"
  /-- Not false. -/
  notFalse : s.map toupper ≠ str "FALSE"
  /-- Not a number. -/
  notNumber : if 0x2e ∈ s ∨ 0x65 ∈ s ∨ 0x45 ∈ s then stod s = none else stoll s = none

/-- A table whose keys and texts the reader takes for themselves, with a last column that is not
empty anywhere. -/
structure CsvTable (lib : Taojson D V) (stod : Bytes → Option D) (v : V) : Prop where
  /-- The keys have no commas, no line breaks, and no blanks at their ends. -/
  key : ∀ k ∈ lib.keys (lib.firstObj v), 0x2c ∉ k ∧ 0x0a ∉ k ∧ trim (str " \t\r\n") k = k
  /-- The strings are taken for themselves. -/
  string : ∀ row ∈ lib.getArray v, ∀ k s, lib.find row k = some (lib.ofString s) → CsvCell stod s
  /-- The last key is not empty, nor is a string under it. -/
  last : ∀ k, (lib.keys (lib.firstObj v)).getLast? = some k →
    k ≠ [] ∧ ∀ row ∈ lib.getArray v, lib.find row k ≠ some (lib.ofString [])

/-- The text of a value in a cell. -/
def cellText (lib : Taojson D V) (val : V) : Bytes := (lib.getString val).getD (lib.toString val)

/-- The cells of a row. -/
def rowCells (lib : Taojson D V) (keys : List Bytes) (row : V) : List Bytes :=
  keys.map fun key => (lib.find row key).elim [] (cellText lib)

/-- The text of a table. -/
def csvText (lib : Taojson D V) (v : V) : Bytes :=
  (lib.keys (lib.firstObj v) ::
    (lib.getArray v).map (rowCells lib (lib.keys (lib.firstObj v)))).flatMap
      fun cells => csvJoin cells ++ [0x0a]

section RoundTrip

variable {lib : Taojson D V} {stod : Bytes → Option D} (hlib : lib.Lawful)
include hlib

theorem jsontaoCell_ofBool (b : Bool) :
    jsontaoCell lib stod (cellText lib (lib.ofBool b)) = lib.ofBool b := by
  have htrue : (str "true").map toupper = str "TRUE" := by decide
  have hfalse : (str "false").map toupper = str "FALSE" := by decide
  have hne : str "FALSE" ≠ str "TRUE" := by decide
  rw [cellText, hlib.getString_ofBool, Option.getD_none, hlib.toString_ofBool]
  cases b with
  | true => simp [jsontaoCell, htrue]
  | false => simp [jsontaoCell, hfalse, hne]

/-- A text without meaning to the reader is read from its cell. -/
theorem jsontaoCell_ofString {s : Bytes} (h : CsvCell stod s) :
    jsontaoCell lib stod (cellText lib (lib.ofString s)) = lib.ofString s := by
  have hnumber := h.notNumber
  rw [cellText, hlib.getString_ofString, Option.getD_some, jsontaoCell]
  rw [if_neg h.notTrue, if_neg h.notFalse]
  split_ifs at hnumber ⊢ with hpoint
  · rw [hnumber]
  · rw [hnumber]

/-- The text of a boolean has no commas, line breaks and carriage returns, and no blanks at its
ends. -/
theorem cellText_ofBool (b : Bool) :
    (0x2c ∉ cellText lib (lib.ofBool b) ∧ 0x0a ∉ cellText lib (lib.ofBool b) ∧
      0x0d ∉ cellText lib (lib.ofBool b)) ∧
      trim (str " \t\n") (cellText lib (lib.ofBool b)) = cellText lib (lib.ofBool b) ∧
      cellText lib (lib.ofBool b) ≠ [] := by
  rw [cellText, hlib.getString_ofBool, Option.getD_none, hlib.toString_ofBool]
  cases b <;> decide

theorem find_foldl_setMember (value : Bytes → V) (keys : List Bytes)
    (hscalar : ∀ k ∈ keys, lib.IsScalar (value k)) {o : V} (ho : lib.isObject o = true) :
    lib.isObject (keys.foldl (fun o k => lib.setMember o k (value k)) o) = true ∧
      ∀ k', lib.find (keys.foldl (fun o k => lib.setMember o k (value k)) o) k' =
        if k' ∈ keys then some (value k') else lib.find o k' := by
  induction keys generalizing o with
  | nil => exact ⟨ho, fun k' => by simp⟩
  | cons k keys ih =>
    obtain ⟨hk, hkeys⟩ := List.forall_mem_cons.1 hscalar
    obtain ⟨hobject, hfind⟩ := hlib.find_setMember o k (value k) ho hk
    obtain ⟨hobject', hfind'⟩ := ih hkeys hobject
    refine ⟨hobject', fun k' => ?_⟩
    rw [List.foldl_cons, hfind', hfind]
    by_cases hmem : k' ∈ keys
    · simp [hmem]
    · by_cases heq : k' = k
      · simp [heq]
      · simp [hmem, heq]

variable {v : V} (hv : lib.IsTable v) (hcsv : CsvTable lib stod v)
include hv

/-- The keys of the first object are those of every row. -/
theorem mem_keys_firstObj_iff {row : V} (hrow : row ∈ lib.getArray v) {k : Bytes} :
    k ∈ lib.keys (lib.firstObj v) ↔ lib.find row k ≠ none := by
  obtain ⟨first, rows, hrows⟩ := List.exists_cons_of_ne_nil hv.nonempty
  have hfirst : lib.firstObj v = first := by rw [Taojson.firstObj, hrows]; rfl
  have hmem : first ∈ lib.getArray v := by rw [hrows]; exact List.mem_cons_self ..
  rw [hfirst, ← hlib.mem_keys row k (hv.isObject row hrow)]
  exact ⟨hv.same first hmem row hrow k, hv.same row hrow first hmem k⟩

theorem exists_of_mem_rowCells {row : V} (hrow : row ∈ lib.getArray v) {cell : Bytes}
    (hcell : cell ∈ rowCells lib (lib.keys (lib.firstObj v)) row) :
    ∃ k val, lib.find row k = some val ∧ cell = cellText lib val := by
  obtain ⟨k, hk, rfl⟩ := List.mem_map.1 hcell
  obtain ⟨val, hval⟩ := Option.ne_none_iff_exists'.1 ((mem_keys_firstObj_iff hlib hv hrow).1 hk)
  exact ⟨k, val, hval, by rw [hval, Option.elim_some]⟩

include hcsv

theorem cellText_spec {row : V} (hrow : row ∈ lib.getArray v) {k : Bytes} {val : V}
    (hval : lib.find row k = some val) :
    (0x2c ∉ cellText lib val ∧ 0x0a ∉ cellText lib val ∧ 0x0d ∉ cellText lib val) ∧
      trim (str " \t\n") (cellText lib val) = cellText lib val ∧
      jsontaoCell lib stod (cellText lib val) = val := by
  obtain ⟨s, rfl⟩ | ⟨b, rfl⟩ := hv.flat row hrow k val hval
  · have hs := hcsv.string row hrow k s hval
    have htext : cellText lib (lib.ofString s) = s := by
      rw [cellText, hlib.getString_ofString, Option.getD_some]
    refine ⟨?_, ?_, jsontaoCell_ofString hlib hs⟩
    · rw [htext]
      exact ⟨hs.comma, hs.lineBreak, hs.carriageReturn⟩
    · rw [htext, hs.trimmed]
  · obtain ⟨hplain, htrim, -⟩ := cellText_ofBool hlib b
    exact ⟨hplain, htrim, jsontaoCell_ofBool hlib b⟩

theorem getLast?_rowCells {row : V} (hrow : row ∈ lib.getArray v) :
    (rowCells lib (lib.keys (lib.firstObj v)) row).getLast? ≠ some [] := by
  intro hlast
  rw [rowCells, List.getLast?_map] at hlast
  obtain ⟨k, hk, hempty⟩ := Option.map_eq_some_iff.1 hlast
  have hmem := (mem_keys_firstObj_iff hlib hv hrow).1 (List.mem_of_getLast? hk)
  obtain ⟨val, hval⟩ := Option.ne_none_iff_exists'.1 hmem
  rw [hval, Option.elim_some] at hempty
  obtain ⟨s, rfl⟩ | ⟨b, rfl⟩ := hv.flat row hrow k val hval
  · rw [cellText, hlib.getString_ofString, Option.getD_some] at hempty
    exact (hcsv.last k hk).2 row hrow (by rw [hval, hempty])
  · exact (cellText_ofBool hlib b).2.2 hempty

/-- The members that the reader sets when it reads a row. -/
theorem csvRow_eq_foldl {row : V} (hrow : row ∈ lib.getArray v) :
    csvRow lib.emptyObject lib.setMember (jsontaoCell lib stod) (lib.keys (lib.firstObj v))
        (csvJoin (rowCells lib (lib.keys (lib.firstObj v)) row)) =
      (lib.keys (lib.firstObj v)).foldl (fun o k => lib.setMember o k
        (jsontaoCell lib stod ((lib.find row k).elim [] (cellText lib)))) lib.emptyObject := by
  set keys := lib.keys (lib.firstObj v) with hkeys
  have hcells : ∀ cell ∈ rowCells lib keys row, (0x2c ∉ cell ∧ 0x0a ∉ cell ∧ 0x0d ∉ cell) ∧
      trim (str " \t\n") cell = cell := by
    intro cell hcell
    obtain ⟨k, val, hval, rfl⟩ := exists_of_mem_rowCells hlib hv hrow hcell
    obtain ⟨hplain, htrim, -⟩ := cellText_spec hlib hv hcsv hrow hval
    exact ⟨hplain, htrim⟩
  -- the line loses nothing, and is cut into the cells
  have hfilter : (csvJoin (rowCells lib keys row)).filter (· ≠ 0x0d) =
      csvJoin (rowCells lib keys row) := by
    have hreturn : 0x0d ∉ csvJoin (rowCells lib keys row) :=
      notMem_csvJoin (by decide) fun cell hcell => (hcells cell hcell).1.2.2
    exact List.filter_eq_self.2 fun c hc =>
      decide_eq_true (ne_of_mem_of_not_mem hc hreturn)
  have hlines : getlines 0x2c (csvJoin (rowCells lib keys row)) = rowCells lib keys row :=
    getlines_csvJoin (fun cell hcell => (hcells cell hcell).1.1)
      (getLast?_rowCells hlib hv hcsv hrow)
  have htrim : (rowCells lib keys row).map (trim (str " \t\n")) = rowCells lib keys row :=
    (List.map_congr_left fun cell hcell => (hcells cell hcell).2).trans (List.map_id' _)
  have hzip : keys.zip (rowCells lib keys row) =
      keys.map fun k => (k, (lib.find row k).elim [] (cellText lib)) := by
    have hmap : (keys.map id).zip (rowCells lib keys row) =
        keys.map fun k => (id k, (lib.find row k).elim [] (cellText lib)) := List.zip_map'
    rwa [List.map_id] at hmap
  rw [csvRow, hfilter, hlines, htrim, hzip, List.foldl_map]

/-- **A row comes back.** -/
theorem csvRow_rowCells {row : V} (hrow : row ∈ lib.getArray v) :
    csvRow lib.emptyObject lib.setMember (jsontaoCell lib stod) (lib.keys (lib.firstObj v))
      (csvJoin (rowCells lib (lib.keys (lib.firstObj v)) row)) = row := by
  set keys := lib.keys (lib.firstObj v) with hkeys
  let value : Bytes → V := fun k =>
    jsontaoCell lib stod ((lib.find row k).elim [] (cellText lib))
  -- every key gets the value of its cell
  have hvalue : ∀ k ∈ keys, lib.find row k = some (value k) := by
    intro k hk
    obtain ⟨val, hval⟩ :=
      Option.ne_none_iff_exists'.1 ((mem_keys_firstObj_iff hlib hv hrow).1 hk)
    have hread := (cellText_spec hlib hv hcsv hrow hval).2.2
    simp only [value, hval, Option.elim_some, hread]
  have hscalar : ∀ k ∈ keys, lib.IsScalar (value k) := fun k hk =>
    hv.flat row hrow k _ (hvalue k hk)
  obtain ⟨hobject, hfind⟩ :=
    find_foldl_setMember hlib value keys hscalar hlib.isObject_emptyObject
  rw [csvRow_eq_foldl hlib hv hcsv hrow]
  refine hlib.object_ext _ _ hobject (hv.isObject row hrow) fun k => ?_
  rw [hfind]
  by_cases hk : k ∈ keys
  · rw [if_pos hk, hvalue k hk]
  · rw [if_neg hk, hlib.find_emptyObject]
    exact (not_not.1 fun hne => hk ((mem_keys_firstObj_iff hlib hv hrow).2 hne)).symm

/-- **A table comes back** from its text. -/
theorem jsontaoTable_csvText : jsontaoTable lib stod (csvText lib v) = v := by
  set keys := lib.keys (lib.firstObj v) with hkeys
  -- the lines are those of the keys and of the rows
  have hkeyLine : 0x0a ∉ csvJoin keys :=
    notMem_csvJoin (by decide) fun k hk => (hcsv.key k hk).2.1
  have hrowLine : ∀ row ∈ lib.getArray v, 0x0a ∉ csvJoin (rowCells lib keys row) := by
    intro row hrow
    refine notMem_csvJoin (by decide) fun cell hcell => ?_
    obtain ⟨k, val, hval, rfl⟩ := exists_of_mem_rowCells hlib hv hrow hcell
    exact (cellText_spec hlib hv hcsv hrow hval).1.2.1
  have hlines : getlines 0x0a (csvText lib v) =
      csvJoin keys :: (lib.getArray v).map fun row => csvJoin (rowCells lib keys row) := by
    have hall : ∀ line ∈ csvJoin keys ::
        (lib.getArray v).map fun row => csvJoin (rowCells lib keys row), 0x0a ∉ line :=
      List.forall_mem_cons.2 ⟨hkeyLine, List.forall_mem_map.2 hrowLine⟩
    rw [← getlines_flatMap hall]
    simp [csvText, List.flatMap_map, ← hkeys]
  -- the first line holds the keys
  have hheaders : (getlines 0x2c (csvJoin keys)).map (trim (str " \t\r\n")) = keys := by
    have hlast : keys.getLast? ≠ some [] := fun hlast => (hcsv.last [] hlast).1 rfl
    rw [getlines_csvJoin (fun k hk => (hcsv.key k hk).1) hlast]
    exact (List.map_congr_left fun k hk => (hcsv.key k hk).2.2).trans (List.map_id' _)
  have hrows : jsontaoTable lib stod (csvText lib v) =
      (lib.getArray v).foldl lib.emplaceBack lib.emptyArray := by
    rw [jsontaoTable, csvTable, hlines]
    dsimp only
    rw [hheaders, List.foldl_map]
    exact List.foldl_ext _ _ _ fun json row hrow => by
      rw [csvRow_rowCells hlib hv hcsv hrow]
  obtain ⟨harray, hget⟩ :=
    hlib.builds.elements_foldl_append (lib.getArray v) hlib.isArray_emptyArray
  rw [hlib.builds.elements_emptyArray, List.nil_append] at hget
  rw [hrows]
  exact hlib.array_ext _ _ harray hv.isArray hget

end RoundTrip

/-! ### The functions -/

section Files

variable {lib : Taojson D V} {stod : Bytes → Option D} {d : Disk}

/-- The text that is written for an array of objects. -/
theorem flatten_csvTexts {v : V} (h : ∀ row ∈ lib.getArray v, lib.isObject row = true) :
    (lib.csvTexts v).flatten = csvText lib v := by
  have hfilter : (lib.getArray v).filter lib.isObject = lib.getArray v := List.filter_eq_self.2 h
  have hlines := csvLines_some (lib.keys (lib.firstObj v) ::
    (lib.getArray v).map (rowCells lib (lib.keys (lib.firstObj v))))
  rw [List.map_cons, List.map_map] at hlines
  rw [Taojson.csvTexts, hfilter, csvText, ← hlines]
  simp only [rowCells, Function.comp_def, List.map_map]
  rfl

/-- **What is written.** Without faults, an array of objects is written as its text. -/
theorem jsontaoSaveToCsv_apply (hd : d.Faultless) {v : V} (harray : lib.isArray v = true)
    (hne : lib.getArray v ≠ []) (hobjects : ∀ row ∈ lib.getArray v, lib.isObject row = true)
    (path : Path) :
    ∃ d', jsontaoSaveToCsv lib v path d = some (1, d') ∧ d'.Faultless ∧
      d'.files (cString path) = some (csvText lib v) := by
  have hsaveable : lib.Saveable v := by
    refine ⟨harray, hne, ?_⟩
    obtain ⟨first, rows, hrows⟩ := List.exists_cons_of_ne_nil hne
    rw [hrows] at hobjects ⊢
    exact hobjects first (List.mem_cons_self ..)
  obtain ⟨-, hd', hfile⟩ := writeFile_of_faultless hd path (lib.csvTexts v)
  exact ⟨_, jsontaoSaveToCsv_of_saveable hd.nextFault hsaveable path, hd',
    hfile.trans (congrArg some (flatten_csvTexts hobjects))⟩

/-- **What is read.** Without faults, the value of the text of the file is returned. -/
theorem jsontaoFromCsvFile_apply (lib : Taojson D V) (stod : Bytes → Option D) (hd : d.Faultless)
    {path : Path} {text : Bytes} (hfile : d.files (cString path) = some text) :
    ∃ d', jsontaoFromCsvFile lib stod path d = some (jsontaoTable lib stod text, d') ∧
      d'.Faultless := by
  have hgood : (IfStream.new path d).1.good = true := by
    rw [IfStream.new, hd.nextFault, hfile]
    rfl
  have htext : d.content (cString path) = text := by rw [Disk.content, hfile, Option.getD_some]
  exact ⟨(IfStream.new path d).2, by rw [jsontaoFromCsvFile_eq, if_pos hgood, htext],
    hd.step d.files⟩

/-- **Tables that come back.** Without faults, a table of texts without a meaning to the reader
is saved, and the same table is read from the file. -/
theorem csvRoundTrip (hlib : lib.Lawful) (hd : d.Faultless) {v : V} (hv : lib.IsTable v)
    (hcsv : CsvTable lib stod v) (path : Path) :
    ∃ d₁ d₂, jsontaoSaveToCsv lib v path d = some (1, d₁) ∧
      jsontaoFromCsvFile lib stod path d₁ = some (v, d₂) := by
  obtain ⟨d₁, hsave, hd₁, hfile⟩ :=
    jsontaoSaveToCsv_apply hd hv.isArray hv.nonempty hv.isObject path
  obtain ⟨d₂, hread, -⟩ := jsontaoFromCsvFile_apply lib stod hd₁ hfile
  rw [jsontaoTable_csvText hlib hv hcsv] at hread
  exact ⟨d₁, d₂, hsave, hread⟩

/-- A row of two texts, the second one a boolean. -/
def memberRow (name : Bytes) (paid : Bool) : Json Unit :=
  .object ((Finmap.insert (str "name") (.string name) ∅).insert (str "paid") (.bool paid))

theorem keys_memberRow (name : Bytes) (paid : Bool) :
    Json.taojson.keys (memberRow name paid) = [str "name", str "paid"] := by
  refine Json.keys_eq (by decide) (Finset.ext fun k => ?_)
  rw [Finmap.mem_keys, Finmap.mem_insert, Finmap.mem_insert]
  simp [Finmap.notMem_empty, or_comm]

theorem find_memberRow (name : Bytes) (paid : Bool) (k : Bytes) :
    Json.taojson.find (memberRow name paid) k =
      if k = str "paid" then some (Json.taojson.ofBool paid)
      else if k = str "name" then some (Json.taojson.ofString name) else none := by
  obtain ⟨hobject, hname⟩ := Json.lawful.find_setMember (Json.taojson (D := Unit)).emptyObject
    (str "name") (Json.taojson.ofString name) rfl (Or.inl ⟨name, rfl⟩)
  have hpaid := (Json.lawful.find_setMember _ (str "paid") (Json.taojson.ofBool paid) hobject
    (Or.inr ⟨paid, rfl⟩)).2 k
  rwa [hname] at hpaid

theorem csvCell_memberName : ∀ name ∈ [str "Ann Lee", str "Bo"],
    CsvCell (fun _ => (none : Option Unit)) name := by
  intro name hname
  rw [List.mem_pair] at hname
  rcases hname with rfl | rfl <;>
    exact ⟨by decide, by decide, by decide, by decide, by decide, by decide, by decide⟩

theorem isTable_memberRows {rows : List (Json Unit)} (hne : rows ≠ [])
    (hrows : ∀ row ∈ rows, ∃ name paid, row = memberRow name paid) :
    Json.taojson.IsTable (.array rows) := by
  have hkeys : ∀ row ∈ rows, Json.taojson.keys row = [str "name", str "paid"] := by
    intro row hrow
    obtain ⟨name, paid, rfl⟩ := hrows row hrow
    exact keys_memberRow name paid
  refine ⟨rfl, hne, fun row hrow => ?_, fun row hrow => ?_, fun row hrow row' hrow' k hk => ?_,
    fun row hrow k x hx => ?_⟩
  · obtain ⟨name, paid, rfl⟩ := hrows row hrow
    rfl
  · rw [hkeys row hrow]
    exact List.cons_ne_nil _ _
  · rwa [hkeys row' hrow', ← hkeys row hrow]
  · obtain ⟨name, paid, rfl⟩ := hrows row hrow
    rw [find_memberRow] at hx
    split_ifs at hx
    · exact Or.inr ⟨paid, (Option.some.inj hx).symm⟩
    · exact Or.inl ⟨name, (Option.some.inj hx).symm⟩

/-- A list of members comes back. -/
theorem csvRoundTrip_members :
    ∃ d₁ d₂, jsontaoSaveToCsv Json.taojson
        (.array [memberRow (str "Ann Lee") true, memberRow (str "Bo") false]) (str "members.csv")
        (Disk.single (str "members.csv") []) = some (1, d₁) ∧
      jsontaoFromCsvFile Json.taojson (fun _ => none) (str "members.csv") d₁ =
        some (.array [memberRow (str "Ann Lee") true, memberRow (str "Bo") false], d₂) := by
  set rows := [memberRow (str "Ann Lee") true, memberRow (str "Bo") false] with hdef
  have hrows : ∀ row ∈ rows, ∃ name ∈ [str "Ann Lee", str "Bo"], ∃ paid,
      row = memberRow name paid := by
    intro row hrow
    obtain rfl | rfl := List.mem_pair.1 hrow
    · exact ⟨_, List.mem_cons_self .., true, rfl⟩
    · exact ⟨_, List.mem_cons_of_mem _ (List.mem_cons_self ..), false, rfl⟩
  have hv : Json.taojson.IsTable (.array rows) :=
    isTable_memberRows (List.cons_ne_nil _ _) fun row hrow => by
      obtain ⟨name, -, paid, h⟩ := hrows row hrow
      exact ⟨name, paid, h⟩
  have hkeys : Json.taojson.keys (Json.taojson.firstObj (.array rows)) =
      [str "name", str "paid"] := keys_memberRow _ _
  refine csvRoundTrip Json.lawful (Disk.faultless_single _ _) hv ⟨?_, ?_, ?_⟩ _
  · rw [hkeys]
    decide
  · intro row hrow k s hs
    obtain ⟨name, hname, paid, rfl⟩ := hrows row hrow
    rw [find_memberRow] at hs
    split_ifs at hs
    · exact absurd hs (by simp [Json.taojson])
    · obtain rfl : name = s := by simpa [Json.taojson] using hs
      exact csvCell_memberName name hname
  · intro k hk
    rw [hkeys] at hk
    obtain rfl : str "paid" = k := by simpa using hk
    refine ⟨by decide, fun row hrow => ?_⟩
    obtain ⟨name, -, paid, rfl⟩ := hrows row hrow
    rw [find_memberRow, if_pos rfl]
    simp [Json.taojson]

/-- A name with a comma does not come back: its cell is cut in two. -/
theorem not_csvRoundTrip_comma :
    ¬ ∀ (v : Json Unit) (path : Path) (d d₁ : Disk), Json.taojson.IsTable v → d.Faultless →
      str ".csv" <:+ path → jsontaoSaveToCsv Json.taojson v path d = some (1, d₁) →
        ∃ d₂, jsontaoFromCsvFile Json.taojson (fun _ => none) path d₁ = some (v, d₂) := by
  intro h
  set v : Json Unit := .array [memberRow (str "Lee,Ann") true] with hdef
  have hv : Json.taojson.IsTable v :=
    isTable_memberRows (List.cons_ne_nil _ _) fun row hrow =>
      ⟨_, _, List.mem_singleton.1 hrow⟩
  -- the file, and what is read from it
  have htext : csvText Json.taojson v = str "name,paid\nLee,Ann,true\n" := by
    have hkeys : Json.taojson.keys (Json.taojson.firstObj v) = [str "name", str "paid"] :=
      keys_memberRow _ _
    rw [csvText, hkeys]
    decide
  obtain ⟨d₁, hsave, hd₁, hfile⟩ :=
    jsontaoSaveToCsv_apply (Disk.faultless_single (str "t.csv") []) hv.isArray hv.nonempty
      hv.isObject (str "t.csv")
  obtain ⟨d₂, hread⟩ := h v _ _ d₁ hv (Disk.faultless_single _ _) (by decide) hsave
  obtain ⟨d₃, hread', -⟩ :=
    jsontaoFromCsvFile_apply Json.taojson (fun _ : Bytes => (none : Option Unit)) hd₁ hfile
  rw [hread, htext] at hread'
  -- the name has lost its second half
  have htable : v = jsontaoTable Json.taojson (fun _ => none)
      (str "name,paid\nLee,Ann,true\n") := congrArg Prod.fst (Option.some.inj hread')
  have hname := congrArg (fun table =>
    (Json.taojson.find (Json.taojson.firstObj table) (str "name")).bind Json.getString) htable
  exact absurd hname (by decide)

end Files

end Behh
