import Behh.Utility.JsonFiles
import Behh.Utility.JsonValues

/-!
# Rejected CSV files

Both `save_to_csv` open their file before they look at what they are to save. Opening an output
file empties it, or makes an empty one. So a call that ends with the code of a rejected input has
lost the old content, unless there was none in the file.

The extension check of `jsoncpp::save_to_csv` refuses every path, so that this is about what stands
behind it, `jsoncppWriteCsv`; the check of `jsontao::save_to_csv` refuses none.

## Main definitions

* `LeavesOldFile`: a save that is rejected leaves the file as it was.
* `Jsoncpp.Saveable`, `Taojson.Saveable`: the inputs that are not rejected.
* `Taojson.csvTexts`: what `jsontao::save_to_csv` writes.

## Main results

* `leavesOldFile_iff`: when a program that opens its file first leaves the file as it was.
* `rejectedSave_iff`: when the two functions do.
-/

namespace Behh

variable {D V T : Type}

/-- When a save ends with the code of an input that is no array, has no elements or does not begin
with an object, the file at `path` is what it was. -/
def LeavesOldFile (save : Prog Disk (Option ℤ)) (path : Path) (d : Disk) : Prop :=
  ∀ code d', save d = some (some code, d') → code = -3 ∨ code = -4 → d'.files path = d.files path

/-- `jsoncpp::save_to_csv` saves arrays with elements. -/
def Jsoncpp.Saveable (lib : Jsoncpp D V) (input : V) : Prop :=
  lib.isArray input = true ∧ lib.elements input ≠ []

/-- `jsontao::save_to_csv` saves arrays that begin with an object. -/
def Taojson.Saveable (lib : Taojson D T) (input : T) : Prop :=
  lib.isArray input = true ∧ lib.getArray input ≠ [] ∧
    lib.isObject ((lib.getArray input).headD lib.null) = true

/-! ### Opening comes first -/

/-- A stream without anything written to it is closed without an operation. -/
theorem writeAndClose_nil (path : Path) (good : Bool) (d : Disk) :
    writeAndClose ⟨path, [], good⟩ [] d = ((), d) := by
  simp [writeAndClose, OfStream.writeAll, OfStream.close]

/-- **A save that opens its file first.** It ends with -2 when the file cannot be opened, and with
the file emptied when the input is rejected. Then the file is what it was exactly when the input is
not rejected, the file cannot be opened, or the file was there and empty. -/
theorem leavesOldFile_iff {save : Prog Disk (Option ℤ)} {path : Path} {d : Disk} {saveable : Prop}
    (hfault : d.nextFault ≠ none → ∃ d', save d = some (some (-2), d'))
    (hsave : d.nextFault = none → saveable →
      ∀ r d', save d = some (r, d') → r = some 1 ∨ r = none)
    (hreject : d.nextFault = none → ¬ saveable →
      ∃ code : ℤ, (code = -3 ∨ code = -4) ∧ save d = some (some code, d.put path [])) :
    LeavesOldFile save path d ↔
      saveable ∨ d.nextFault ≠ none ∨ d.files path = some [] := by
  by_cases hopen : d.nextFault = none
  · by_cases hinput : saveable
    · refine iff_of_true ?_ (Or.inl hinput)
      intro code d' hrun hcode
      obtain hone | hnone := hsave hopen hinput _ _ hrun
      · have hcode' := Option.some.inj hone
        omega
      · cases hnone
    · obtain ⟨code, hcode, hrun⟩ := hreject hopen hinput
      have hempty : (d.put path []).files path = some [] := Disk.put_files_self ..
      constructor
      · intro hold
        have hsame := hold code _ hrun hcode
        rw [hempty] at hsame
        exact Or.inr (Or.inr hsame.symm)
      · rintro (hsaveable | hfaulty | hold) code' d' hrun' -
        · exact absurd hsaveable hinput
        · exact absurd hopen hfaulty
        · obtain ⟨-, rfl⟩ := Prod.mk.inj (Option.some.inj (hrun.symm.trans hrun'))
          rw [hempty, hold]
  · refine iff_of_true ?_ (Or.inr (Or.inl hopen))
    obtain ⟨d', hrun⟩ := hfault hopen
    rintro code d'' hrun' hcode
    have hcode' : -2 = code :=
      Option.some.inj (Prod.mk.inj (Option.some.inj (hrun.symm.trans hrun'))).1
    omega

/-! ### The functions -/

/-- The new stream when the file can be opened, and when it cannot. -/
theorem ofStreamNew_cases (path : Path) (d : Disk) :
    (d.nextFault = none →
        OfStream.new path d = (⟨cString path, [], true⟩, d.put (cString path) [])) ∧
      (d.nextFault ≠ none →
        OfStream.new path d = (⟨cString path, [], false⟩, d.step d.files)) := by
  rw [OfStream.new]
  split <;> simp_all

theorem jsoncpp_leavesOldFile_iff (lib : Jsoncpp D V) (input : V) (path : Path) (d : Disk) :
    LeavesOldFile (jsoncppWriteCsv lib input path) (cString path) d ↔
      lib.Saveable input ∨ d.nextFault ≠ none ∨ d.files (cString path) = some [] := by
  obtain ⟨hopen, hclosed⟩ := ofStreamNew_cases path d
  refine leavesOldFile_iff (fun hfault => ?_) (fun hfault hinput => ?_) fun hfault hinput => ?_
  · exact ⟨_, by simp [jsoncppWriteCsv, hclosed hfault]; rfl⟩
  · obtain ⟨harray, hne⟩ := hinput
    have hempty : (lib.elements input).isEmpty = false := by simpa using hne
    intro r d' hrun
    simp only [jsoncppWriteCsv, Prog.bind_apply, Prog.call_apply, Option.bind_some, hopen hfault,
      harray, hempty, Bool.not_true, Bool.false_or, Bool.false_eq_true, if_false,
      Prog.pure_apply, Option.some.injEq, Prod.mk.injEq] at hrun
    rw [← hrun.1]
    split
    · exact Or.inl rfl
    · exact Or.inr rfl
  · have hrejected : (!lib.isArray input || (lib.elements input).isEmpty) = true := by
      by_contra h
      simp only [Bool.not_eq_true, Bool.or_eq_false_iff, Bool.not_eq_false'] at h
      exact hinput ⟨h.1, by simpa using h.2⟩
    refine ⟨-3, Or.inl rfl, ?_⟩
    simp [jsoncppWriteCsv, hopen hfault, hrejected, writeAndClose_nil]

/-- What `jsontao::save_to_csv` writes, piece by piece. -/
def Taojson.csvTexts (lib : Taojson D T) (input : T) : List Bytes :=
  let firstObj := (lib.getArray input).headD lib.null
  (csvLines ((lib.keys firstObj).map some ::
    ((lib.getArray input).filter lib.isObject).map fun row =>
      (lib.keys firstObj).map fun key =>
        some ((lib.find row key).elim [] fun val =>
          (lib.getString val).getD (lib.toString val)))).1

section Jsontao

variable {lib : Taojson D T} {input : T} {d : Disk}

theorem jsontaoSaveToCsv_of_closed (hfault : d.nextFault ≠ none) (path : Path) :
    jsontaoSaveToCsv lib input path d = some (-2, d.step d.files) := by
  have hcheck : ¬ inputEndsWith path (str ".csv") = 0 := inputEndsWith_ne_zero _ _
  simp [jsontaoSaveToCsv, hcheck, (ofStreamNew_cases path d).2 hfault]

theorem jsontaoSaveToCsv_of_saveable (hfault : d.nextFault = none) (hinput : lib.Saveable input)
    (path : Path) : jsontaoSaveToCsv lib input path d =
      some (1, (writeFile path (lib.csvTexts input) d).2) := by
  obtain ⟨harray, hne, hobject⟩ := hinput
  have hempty : (lib.getArray input).isEmpty = false := by simpa using hne
  have hcheck : ¬ inputEndsWith path (str ".csv") = 0 := inputEndsWith_ne_zero _ _
  simp only [jsontaoSaveToCsv, Prog.bind_apply, Prog.call_apply, hcheck, Option.bind_some,
    (ofStreamNew_cases path d).1 hfault, harray, hempty, hobject, Bool.not_true, Bool.false_or,
    Bool.false_eq_true, if_false, Prog.pure_apply, writeFile]
  rfl

theorem jsontaoSaveToCsv_of_not_saveable (hfault : d.nextFault = none)
    (hinput : ¬ lib.Saveable input) (path : Path) : ∃ code, (code = -3 ∨ code = -4) ∧
      jsontaoSaveToCsv lib input path d = some (code, d.put (cString path) []) := by
  have hopen := (ofStreamNew_cases path d).1 hfault
  have hcheck : ¬ inputEndsWith path (str ".csv") = 0 := inputEndsWith_ne_zero _ _
  by_cases harray : (!lib.isArray input || (lib.getArray input).isEmpty) = true
  · exact ⟨-3, Or.inl rfl, by simp [jsontaoSaveToCsv, hcheck, hopen, harray, writeAndClose_nil]⟩
  · simp only [Bool.not_eq_true, Bool.or_eq_false_iff, Bool.not_eq_false'] at harray
    have hobject : lib.isObject ((lib.getArray input).headD lib.null) = false := by
      by_contra h
      exact hinput ⟨harray.1, by simpa using harray.2, by simpa using h⟩
    refine ⟨-4, Or.inr rfl, ?_⟩
    simp only [jsontaoSaveToCsv, Prog.bind_apply, Prog.call_apply, hcheck, Option.bind_some, hopen,
      harray, hobject, Bool.not_true, Bool.false_or, Bool.false_eq_true, if_false, Bool.not_false,
      if_true, Prog.pure_apply, writeAndClose_nil]

end Jsontao

theorem jsontao_leavesOldFile_iff (lib : Taojson D T) (input : T) (path : Path) (d : Disk) :
    LeavesOldFile (some <$> jsontaoSaveToCsv lib input path) (cString path) d ↔
      lib.Saveable input ∨ d.nextFault ≠ none ∨ d.files (cString path) = some [] := by
  refine leavesOldFile_iff (fun hfault => ?_) (fun hfault hinput => ?_) fun hfault hinput => ?_
  · exact ⟨_, by rw [Prog.map_apply, jsontaoSaveToCsv_of_closed hfault]; rfl⟩
  · intro r d' hrun
    rw [Prog.map_apply, jsontaoSaveToCsv_of_saveable hfault hinput] at hrun
    exact Or.inl (Prod.mk.inj (Option.some_inj.1 hrun)).1.symm
  · obtain ⟨code, hcode, hrun⟩ := jsontaoSaveToCsv_of_not_saveable hfault hinput path
    exact ⟨code, hcode, by rw [Prog.map_apply, hrun]; rfl⟩

/-- **When a rejected save leaves the old file alone**: when nothing is rejected, when the file
cannot be opened, or when it was there and empty. In every other case the old content is gone. -/
theorem rejectedSave_iff (cpp : Jsoncpp D V) (tao : Taojson D T) (input : V) (inputTao : T)
    (path : Path) (d : Disk) :
    (LeavesOldFile (jsoncppWriteCsv cpp input path) (cString path) d ↔
        cpp.Saveable input ∨ d.nextFault ≠ none ∨ d.files (cString path) = some []) ∧
      (LeavesOldFile (some <$> jsontaoSaveToCsv tao inputTao path) (cString path) d ↔
        tao.Saveable inputTao ∨ d.nextFault ≠ none ∨ d.files (cString path) = some []) :=
  ⟨jsoncpp_leavesOldFile_iff cpp input path d, jsontao_leavesOldFile_iff tao inputTao path d⟩

/-- Saving an empty array to a file that holds a letter empties it. -/
theorem not_leavesOldFile_emptyArray :
    ¬ LeavesOldFile (jsoncppWriteCsv (Json.jsoncpp : Jsoncpp Unit (Json Unit)) (.array [])
        (str "old.csv")) (cString (str "old.csv")) (Disk.single (str "old.csv") (str "a")) ∧
      ¬ LeavesOldFile (some <$> jsontaoSaveToCsv (Json.taojson : Taojson Unit (Json Unit))
        (.array []) (str "old.csv")) (cString (str "old.csv"))
        (Disk.single (str "old.csv") (str "a")) := by
  rw [jsoncpp_leavesOldFile_iff, jsontao_leavesOldFile_iff]
  have hold :
      (Disk.single (str "old.csv") (str "a")).files (cString (str "old.csv")) ≠ some [] := by
    rw [Disk.single_files]
    decide
  have hopen : (Disk.single (str "old.csv") (str "a")).nextFault = none := rfl
  constructor
  · rintro (hinput | hfault | hempty)
    · exact hinput.2 rfl
    · exact hfault hopen
    · exact hold hempty
  · rintro (hinput | hfault | hempty)
    · exact hinput.2.1 rfl
    · exact hfault hopen
    · exact hold hempty

end Behh
