import Behh.Std.FileStream
import Behh.Utility.CsvReader

/-!
# JSON and CSV files

`find::input_ends_with` and the functions of `src/utility.cc` that read JSON and CSV files or save
them: `from_csv_file`, `from_json_file`, `save_to_csv` and `save_to_json` of the namespaces
`jsoncpp` (lines 531–753) and `jsontao` (lines 778–971).

The two JSON libraries are parameters (`Jsoncpp`, `Taojson`), and so is `std::stod`. The messages
on the standard error stream are left out.

All eight functions begin with a check of the extension. `input_ends_with` returns 1, -1 or -2,
and the callers test the code in three ways.

## Main definitions

* `inputEndsWith`: `find::input_ends_with`.
* `jsoncppFromCsvFile`, `jsoncppFromJsonFile`, `jsoncppSaveToCsv`, `jsoncppSaveToJson`,
  `jsontaoFromCsvFile`, `jsontaoFromJsonFile`, `jsontaoSaveToCsv`, `jsontaoSaveToJson`: the
  functions.
* `jsoncppWriteCsv`: `jsoncpp::save_to_csv` behind its check, which refuses every path.
* `jsontaoSaveToJsonIn`: `jsontao::save_to_json` for a library that writes a text in pieces.

## Main results

* `inputEndsWith_eq_one_iff`, `inputEndsWith_ne_zero`: the codes of `inputEndsWith`.
-/

namespace Behh

/-- `find::input_ends_with`. -/
def inputEndsWith (input keyword : Bytes) : ℤ :=
  if input.length < keyword.length then -1
  else if (input.drop (input.length - keyword.length)).take keyword.length = keyword then 1
  else -2

theorem inputEndsWith_eq_one_iff {input keyword : Bytes} :
    inputEndsWith input keyword = 1 ↔ keyword <:+ input := by
  rw [inputEndsWith, List.suffix_iff_eq_drop]
  have hlen : (input.drop (input.length - keyword.length)).length ≤ keyword.length := by
    rw [List.length_drop]
    omega
  rw [List.take_of_length_le hlen]
  split_ifs with hshort hends
  · refine iff_of_false (by decide) fun h => ?_
    have hle := congrArg List.length h
    rw [List.length_drop] at hle
    omega
  · exact iff_of_true rfl hends.symm
  · exact iff_of_false (by decide) fun h => hends h.symm

theorem inputEndsWith_ne_zero (input keyword : Bytes) : inputEndsWith input keyword ≠ 0 := by
  rw [inputEndsWith]
  split_ifs <;> decide

/-! ### The text of a CSV file -/

/-- What is written for one line, with commas between its cells; `false` when a cell throws. -/
def csvLine (first : Bool) : List (Option Bytes) → List Bytes × Bool
  | [] => ([str "\n"], true)
  | none :: _ => (if first then [] else [str ","], false)
  | some cell :: cells =>
    let rest := csvLine false cells
    ((if first then [cell] else [str ",", cell]) ++ rest.1, rest.2)

/-- What is written for the lines, up to the first cell that throws. -/
def csvLines : List (List (Option Bytes)) → List Bytes × Bool
  | [] => ([], true)
  | line :: lines =>
    let head := csvLine true line
    if head.2 then
      let rest := csvLines lines
      (head.1 ++ rest.1, rest.2)
    else head

/-- The stream is written to and closed; the stream is not asked whether this worked. -/
def writeAndClose (file : OfStream) (texts : List Bytes) (d : Disk) : Unit × Disk :=
  let written := file.writeAll true texts d
  ((), written.1.1.close written.2)

/-! ### `jsoncpp` -/

variable {D V T α : Type}

/-- `jsoncpp::save_to_csv` behind the check of the extension, lines 673–713; `none` when it
throws. -/
def jsoncppWriteCsv (lib : Jsoncpp D V) (input : V) (outputFilePath : Path) :
    Prog Disk (Option ℤ) := do
  let file ← Prog.call (OfStream.new outputFilePath)
  if !file.good then
    return some (-2)
  if !lib.isArray input || (lib.elements input).isEmpty then
    Prog.call (writeAndClose file [])
    return some (-3)
  if (lib.elements input).isEmpty then
    Prog.call (writeAndClose file [])
    return some (-4)
  let header := (lib.elements input).headD lib.null
  let lines := csvLines ((lib.keys header).map some ::
    (lib.elements input).map fun row =>
      (lib.keys header).map fun key => (lib.member row key).bind lib.asString)
  Prog.call (writeAndClose file lines.1)
  return if lines.2 then some 1 else none

/-- `jsontao::from_csv_file`. -/
def jsontaoFromCsvFile (lib : Taojson D T) (stod : Bytes → Option D) (csvFilePath : Path) :
    Prog Disk T := do
  if inputEndsWith csvFilePath (str ".csv") = 0 then
    return lib.emptyArray
  let file ← Prog.call (IfStream.new csvFilePath)
  if file.good then
    let text ← Prog.call fun d => (file.rest d, d)
    return jsontaoTable lib stod text
  else
    return lib.null

theorem jsontaoFromCsvFile_eq (lib : Taojson D T) (stod : Bytes → Option D) (path : Path)
    (d : Disk) : jsontaoFromCsvFile lib stod path d =
      some (if (IfStream.new path d).1.good then jsontaoTable lib stod (d.content (cString path))
        else lib.null, (IfStream.new path d).2) := by
  have hcheck : ¬ inputEndsWith path (str ".csv") = 0 := inputEndsWith_ne_zero _ _
  cases hgood : (IfStream.new path d).1.good with
  | false => simp [jsontaoFromCsvFile, hcheck, hgood]
  | true => simp [jsontaoFromCsvFile, hcheck, hgood, IfStream.rest_new]

/-- `jsontao::from_json_file`. -/
def jsontaoFromJsonFile (lib : Taojson D T) (jsonFilePath : Path) : Prog Disk T := do
  if inputEndsWith jsonFilePath (str ".json") = 0 then
    return lib.null
  let file ← Prog.call (IfStream.new jsonFilePath)
  if file.good then
    let text ← Prog.call fun d => (file.rest d, d)
    return (lib.fromStream text).getD lib.null
  else
    return lib.null

/-- `jsontao::save_to_csv`. Rows that are no objects are skipped, and nothing is written for a
member that a row does not have. In taocpp-json, `to_string` throws for a double that is not finite;
the `toString` of the model has a text for every value, so that this function always returns. -/
def jsontaoSaveToCsv (lib : Taojson D T) (input : T) (outputFilePath : Path) : Prog Disk ℤ := do
  if inputEndsWith outputFilePath (str ".csv") = 0 then
    return -1
  let file ← Prog.call (OfStream.new outputFilePath)
  if !file.good then
    return -2
  if !lib.isArray input || (lib.getArray input).isEmpty then
    Prog.call (writeAndClose file [])
    return -3
  let firstObj := (lib.getArray input).headD lib.null
  if !lib.isObject firstObj then
    Prog.call (writeAndClose file [])
    return -4
  let lines := csvLines ((lib.keys firstObj).map some ::
    ((lib.getArray input).filter lib.isObject).map fun row =>
      (lib.keys firstObj).map fun key =>
        some ((lib.find row key).elim [] fun val => (lib.getString val).getD (lib.toString val)))
  Prog.call (writeAndClose file lines.1)
  return 1

/-- `jsontao::save_to_json`, when the library writes the text of a value in these pieces. -/
def jsontaoSaveToJsonIn (pieces : T → ℤ → List Bytes) (input : T) (outputFilePath : Path)
    (indent : ℤ) : Prog Disk ℤ := do
  if inputEndsWith outputFilePath (str ".json") = 0 then
    return -1
  let indent := if indent ≤ 0 then 0 else indent
  let file ← Prog.call (OfStream.new outputFilePath)
  if !file.good then
    return -2
  Prog.call (writeAndClose file (pieces input indent))
  return 1

/-- `jsontao::save_to_json`, when the library writes the text in one piece. -/
def jsontaoSaveToJson (lib : Taojson D T) : T → Path → ℤ → Prog Disk ℤ :=
  jsontaoSaveToJsonIn fun input indent => [lib.toStream input indent]

end Behh
