import Behh.Std.Text

/-!
# Reading CSV texts

The loops of `jsoncpp::from_csv_file` and `jsontao::from_csv_file` in `src/utility.cc`, lines
542–600 and 790–839, over the two JSON libraries, and `is_numeric`, lines 22–50.

The two readers have the same loops over lines and cells (`csvTable`, `csvRow`) and differ in
what they make of a cell. `std::stod` is a parameter, over any type of doubles.

## Main definitions

* `isNumeric`: `is_numeric`.
* `Jsoncpp`, `Taojson`: what is used of the libraries.
* `jsoncppCell`, `jsontaoCell`: the value of a cell.
* `jsoncppTable`, `jsontaoTable`: the value of a text.

## Main results

* `exists_strtol_of_isNumeric`: a numeric text is read to its end.
* `jsoncppCell_eq`: the cells of `jsoncpp` are never doubles.
-/

namespace Behh

/-! ### `is_numeric` -/

/-- `is_numeric`. -/
def isNumeric (input : Bytes) : Bool :=
  if input.isEmpty then false
  else if input = str "0" then true
  else if input.head? = some 0x2d then
    if input.length = 1 then false
    else if input.length = 2 ∧ input.tail.head? = some 0x30 then true
    else if input.tail.head? = some 0x30 then false
    else if !input.tail.all isdigit then false
    else (stoll input).isSome
  else if input.head? = some 0x30 ∧ 1 < input.length then false
  else if !input.all isdigit then false
  else (stoll input).isSome

/-- A numeric text is a text of digits, or one behind a minus sign. -/
theorem digits_of_isNumeric {input : Bytes} (h : isNumeric input = true) :
    ∃ digits, digits ≠ [] ∧ digits.all isdigit = true ∧
      (input = digits ∨ input = 0x2d :: digits) := by
  cases input with
  | nil => cases h
  | cons c cs =>
    rw [isNumeric] at h
    split_ifs at h with hempty hzero hminus hone htwo hlead hdigits hlead' hdigits'
    · rw [hzero]
      exact ⟨str "0", by decide, by decide, Or.inl rfl⟩
    · obtain rfl : c = 0x2d := by simpa using hminus
      obtain ⟨hlen, hhead⟩ := htwo
      obtain ⟨d, rfl⟩ := List.length_eq_one_iff.1 (show cs.length = 1 by simpa using hlen)
      obtain rfl : d = 0x30 := by simpa using hhead
      exact ⟨[0x30], by decide, by decide, Or.inr rfl⟩
    · obtain rfl : c = 0x2d := by simpa using hminus
      refine ⟨cs, ?_, by simpa using hdigits, Or.inr rfl⟩
      rintro rfl
      exact hone rfl
    · exact ⟨c :: cs, List.cons_ne_nil _ _, by simpa using hdigits', Or.inl rfl⟩

/-- A numeric text is a number to its end. -/
theorem exists_strtol_of_isNumeric {input : Bytes} (h : isNumeric input = true) :
    ∃ n, strtol input = some (n, input.length) := by
  obtain ⟨digits, hne, hall, rfl | rfl⟩ := digits_of_isNumeric h
  · exact ⟨_, strtol_digits hne hall⟩
  · exact ⟨_, strtol_minus_digits hne hall⟩

/-! ### The JSON libraries -/

/-- What the functions use of jsoncpp, over the types of doubles and of its values. -/
structure Jsoncpp (D V : Type) where
  /-- `Json::Value()`. -/
  null : V
  /-- `Json::Value(Json::arrayValue)`. -/
  emptyArray : V
  /-- `Json::Value(Json::objectValue)`. -/
  emptyObject : V
  /-- A `bool` as a value. -/
  ofBool : Bool → V
  /-- An `int` as a value. -/
  ofInt : ℤ → V
  /-- A `double` as a value. -/
  ofDouble : D → V
  /-- A `std::string` as a value. -/
  ofString : Bytes → V
  /-- An object after the assignment of a value to a member. -/
  setMember : V → Bytes → V → V
  /-- An array after `append`. -/
  append : V → V → V
  /-- `operator>>`; `none` when it throws. -/
  parse : Bytes → Option V
  /-- `Json::writeString`, with the settings `indentation` and `precision`. -/
  writeString : Bytes → ℤ → V → Bytes
  /-- `isArray`. -/
  isArray : V → Bool
  /-- The elements of an array. -/
  elements : V → List V
  /-- The keys that an iterator meets, as strings. -/
  keys : V → List Bytes
  /-- `operator[]` with a string; `none` when it throws. -/
  member : V → Bytes → Option V
  /-- `asString`; `none` when it throws. -/
  asString : V → Option Bytes

/-- What the functions use of taocpp-json, over the types of doubles and of its values. -/
structure Taojson (D V : Type) where
  /-- `tao::json::null`. -/
  null : V
  /-- `tao::json::empty_array`. -/
  emptyArray : V
  /-- `tao::json::empty_object`. -/
  emptyObject : V
  /-- A `bool` as a value. -/
  ofBool : Bool → V
  /-- A `long long` as a value. -/
  ofInt : ℤ → V
  /-- A `double` as a value. -/
  ofDouble : D → V
  /-- A `std::string` as a value. -/
  ofString : Bytes → V
  /-- An object after the assignment of a value to a member. -/
  setMember : V → Bytes → V → V
  /-- An array after `emplace_back`. -/
  emplaceBack : V → V → V
  /-- `tao::json::from_stream`; `none` when it throws. -/
  fromStream : Bytes → Option V
  /-- What `tao::json::to_stream` writes, with the indentation. -/
  toStream : V → ℤ → Bytes
  /-- `tao::json::to_string`. -/
  toString : V → Bytes
  /-- `is_array`. -/
  isArray : V → Bool
  /-- `get_array`. -/
  getArray : V → List V
  /-- `is_object`. -/
  isObject : V → Bool
  /-- The keys of `get_object`. -/
  keys : V → List Bytes
  /-- `find`. -/
  find : V → Bytes → Option V
  /-- `get_string`, where `is_string` holds. -/
  getString : V → Option Bytes

variable {D V : Type}

/-! ### Cells -/

/-- The value that `jsoncpp::from_csv_file` makes of a cell. -/
def jsoncppCell (lib : Jsoncpp D V) (stod : Bytes → Option D) (cell : Bytes) : V :=
  let upperCell := cell.map toupper
  if upperCell = str "TRUE" then lib.ofBool true
  else if upperCell = str "FALSE" then lib.ofBool false
  else if isNumeric cell then
    match stoi cell with
    | none => lib.ofString cell
    | some (intValue, pos) =>
      if pos = cell.length then lib.ofInt intValue
      else
        match stod cell with
        | none => lib.ofString cell
        | some x => lib.ofDouble x
  else lib.ofString cell

/-- The value that `jsontao::from_csv_file` makes of a cell. -/
def jsontaoCell (lib : Taojson D V) (stod : Bytes → Option D) (cell : Bytes) : V :=
  let upperCell := cell.map toupper
  if upperCell = str "TRUE" then lib.ofBool true
  else if upperCell = str "FALSE" then lib.ofBool false
  else if 0x2e ∈ cell ∨ 0x65 ∈ cell ∨ 0x45 ∈ cell then
    match stod cell with
    | none => lib.ofString cell
    | some x => lib.ofDouble x
  else
    match stoll cell with
    | none => lib.ofString cell
    | some (n, _) => lib.ofInt n

/-! ### Rows and tables -/

/-- The object that the loop over the cells of a line builds; cells beyond the headers are left
out. -/
def csvRow (emptyObject : V) (setMember : V → Bytes → V → V) (value : Bytes → V)
    (headers : List Bytes) (line : Bytes) : V :=
  let line := line.filter (· ≠ 0x0d)
  let cells := (getlines 0x2c line).map (trim (str " \t\n"))
  (headers.zip cells).foldl (fun obj p => setMember obj p.1 (value p.2)) emptyObject

/-- The array that the loop over the lines of a text builds, from the value of a line with the
headers; the first line holds the headers. -/
def csvTable (emptyArray : V) (append : V → V → V) (row : List Bytes → Bytes → V) (text : Bytes) :
    V :=
  match getlines 0x0a text with
  | [] => emptyArray
  | first :: lines =>
    let headers := (getlines 0x2c first).map (trim (str " \t\r\n"))
    lines.foldl (fun json line => append json (row headers line)) emptyArray

/-- What `jsoncpp::from_csv_file` makes of a text. -/
def jsoncppTable (lib : Jsoncpp D V) (stod : Bytes → Option D) : Bytes → V :=
  csvTable lib.emptyArray lib.append (csvRow lib.emptyObject lib.setMember (jsoncppCell lib stod))

/-- What `jsontao::from_csv_file` makes of a text. -/
def jsontaoTable (lib : Taojson D V) (stod : Bytes → Option D) : Bytes → V :=
  csvTable lib.emptyArray lib.emplaceBack
    (csvRow lib.emptyObject lib.setMember (jsontaoCell lib stod))

/-- **The cells of `jsoncpp`.** A numeric text is read to its end, so that the branch with
`std::stod` is never taken. -/
theorem jsoncppCell_eq (lib : Jsoncpp D V) (stod : Bytes → Option D) (cell : Bytes) :
    jsoncppCell lib stod cell =
      if cell.map toupper = str "TRUE" then lib.ofBool true
      else if cell.map toupper = str "FALSE" then lib.ofBool false
      else if isNumeric cell then (stoi cell).elim (lib.ofString cell) fun r => lib.ofInt r.1
      else lib.ofString cell := by
  rw [jsoncppCell]
  refine if_congr Iff.rfl rfl (if_congr Iff.rfl rfl ?_)
  split_ifs with hnumeric
  · obtain ⟨n, hn⟩ := exists_strtol_of_isNumeric hnumeric
    rw [stoi, hn, Option.filter_some]
    split_ifs
    · exact if_pos rfl
    · rfl
  · rfl

end Behh
