import Behh.Utility.CsvObjects
import Behh.Utility.NumeralValidators

/-!
# The two CSV readers

`jsoncpp::from_csv_file` behind its extension check and `jsontao::from_csv_file` cut a file in the
same way. A cell becomes a number in the first when `is_numeric` accepts all of it and it is an
`int`; in the second when it begins with a number of 64 bits or with a double. So they agree on a
file exactly when every cell that is not covered by a later one under the same name is a word for a
boolean, a whole number of 32 bits without leading zeros, or begins with no number at all. The two
libraries are any that keep their promises.

## Main definitions

* `SameCell`, `SameObject`, `SameTable`: equal values, with numbers compared by their values.
* `AgreedCell`: the cells of which both make the same.

## Main results

* `sameCell_iff`: the cells on which the readers agree.
* `readersAgree_iff`: the files on which they do.
-/

namespace Behh

variable {D V T : Type}

/-! ### Equal values -/

/-- A value is a number, given the values of integers and doubles and the numbers that doubles
are. -/
def HasNumber (ofInt : ℤ → V) (ofDouble : D → V) (val : D → Option ℚ) (v : V) (q : ℚ) : Prop :=
  (∃ n : ℤ, v = ofInt n ∧ q = n) ∨ ∃ x, v = ofDouble x ∧ val x = some q

section Same

variable (cpp : Jsoncpp D V) (tao : Taojson D T) (val : D → Option ℚ)

/-- The same boolean, the same string or the same number. -/
inductive SameCell : V → T → Prop
  | bool (b : Bool) : SameCell (cpp.ofBool b) (tao.ofBool b)
  | string (s : Bytes) : SameCell (cpp.ofString s) (tao.ofString s)
  | number {v : V} {w : T} {q : ℚ} (hv : HasNumber cpp.ofInt cpp.ofDouble val v q)
      (hw : HasNumber tao.ofInt tao.ofDouble val w q) : SameCell v w

/-- Objects with the same keys and the same values under them. -/
def SameObject (v : V) (w : T) : Prop :=
  cpp.view.IsObject v ∧ tao.view.IsObject w ∧
    ∀ key, Option.Rel (SameCell cpp tao val) (cpp.view.find v key) (tao.view.find w key)

/-- Arrays with the same objects in the same order. -/
def SameTable (v : V) (w : T) : Prop :=
  cpp.view.IsArray v ∧ tao.view.IsArray w ∧
    List.Forall₂ (SameObject cpp tao val) (cpp.view.elements v) (tao.view.elements w)

end Same

/-- A word for a boolean, a whole number of 32 bits, or a text that begins with no number. -/
def AgreedCell (dbl : Doubles D) (cell : Bytes) : Prop :=
  (∃ b, BooleanWord cell b) ∨ (∃ n, IntegerNumeral cell n ∧ -2 ^ 31 ≤ n ∧ n < 2 ^ 31) ∨
    ¬ NumberAhead dbl cell

/-! ### Cells -/

theorem not_sameCell_string {cpp : Jsoncpp D V} (hcpp : cpp.Lawful) {tao : Taojson D T}
    (htao : tao.LawfulNumbers) {val : D → Option ℚ} {s : Bytes} {w : T} (hw : tao.IsNumber w) :
    ¬ SameCell cpp tao val (cpp.ofString s) w := by
  generalize hv : cpp.ofString s = v
  rintro hsame
  cases hsame with
  | bool b => exact hcpp.ofString_ne_ofBool s b hv
  | string s' => exact htao.ofString_ne hw s' rfl
  | number hnumber _ =>
    obtain ⟨n, rfl, -⟩ | ⟨x, rfl, -⟩ := hnumber
    · exact hcpp.ofString_ne_ofInt s n hv
    · exact hcpp.ofString_ne_ofDouble s x hv

/-- A whole number is read by `std::stoi` and `std::stoll` when it is in range. -/
theorem IntegerNumeral.strtol_eq {cell : Bytes} {n : ℤ} (h : IntegerNumeral cell n) :
    strtol cell = some (n, cell.length) := by
  obtain ⟨sign, whole, negative, rfl, hsign, hwhole, rfl⟩ := h
  exact hsign.signText.strtol_eq hwhole.isDigits

theorem IntegerNumeral.not_looksFloating {cell : Bytes} {n : ℤ} (h : IntegerNumeral cell n) :
    ¬ LooksFloating cell := by
  obtain ⟨sign, whole, negative, rfl, hsign, hwhole, -⟩ := h
  have hnot : ∀ c, isdigit c = false → c ≠ 0x2d → c ∉ sign ++ whole := by
    intro c hc hminus hmem
    rcases List.mem_append.1 hmem with hmem | hmem
    · cases hsign with
      | absent => cases hmem
      | minus => exact hminus (by simpa using hmem)
    · have hdigit := List.all_eq_true.1 hwhole.isDigits.2 c hmem
      rw [hc] at hdigit
      cases hdigit
  rintro (hmem | hmem | hmem)
  · exact hnot _ (by decide) (by decide) hmem
  · exact hnot _ (by decide) (by decide) hmem
  · exact hnot _ (by decide) (by decide) hmem

/-- What `jsoncpp::from_csv_file` makes of a cell that is no boolean: an integer when it is a whole
number of 32 bits, and else a string. -/
theorem jsoncppCell_of_not_booleanWord (lib : Jsoncpp D V) (stod : Bytes → Option D)
    {cell : Bytes} (hword : ∀ b, ¬ BooleanWord cell b) :
    (∃ n, IntegerNumeral cell n ∧ -2 ^ 31 ≤ n ∧ n < 2 ^ 31 ∧
        jsoncppCell lib stod cell = lib.ofInt n) ∨
      (∀ n, IntegerNumeral cell n → ¬ (-2 ^ 31 ≤ n ∧ n < 2 ^ 31)) ∧
        jsoncppCell lib stod cell = lib.ofString cell := by
  obtain ⟨htrue, hfalse⟩ := not_booleanWord_iff.1 hword
  rw [jsoncppCell_eq, if_neg htrue, if_neg hfalse]
  split
  · next hnumeric =>
    obtain ⟨n, hn, -⟩ := (isNumeric_iff cell).1 hnumeric
    have hstoi : stoi cell = if -2 ^ 31 ≤ n ∧ n < 2 ^ 31 then some (n, cell.length) else none := by
      rw [stoi, hn.strtol_eq, Option.filter_some]
      simp
    rw [hstoi]
    split
    · next hrange => exact Or.inl ⟨n, hn, hrange.1, hrange.2, rfl⟩
    · next hrange =>
      refine Or.inr ⟨fun n' hn' => ?_, rfl⟩
      have hsame := hn.strtol_eq.symm.trans hn'.strtol_eq
      obtain ⟨rfl, -⟩ := Prod.mk.inj (Option.some.inj hsame)
      exact hrange
  · next hnumeric =>
    refine Or.inr ⟨fun n hn hrange => hnumeric ((isNumeric_iff cell).2 ⟨n, hn, ?_⟩), rfl⟩
    omega

section Lawful

variable {cpp : Jsoncpp D V} (hcpp : cpp.Lawful) {tao : Taojson D T} (htao : tao.LawfulNumbers)
  (dbl : Doubles D) (val : D → Option ℚ)
include hcpp htao

/-- **The cells on which the readers agree.** -/
theorem sameCell_iff (cell : Bytes) :
    SameCell cpp tao val (jsoncppCell cpp (stod dbl) cell) (jsontaoCell tao (stod dbl) cell) ↔
      AgreedCell dbl cell := by
  by_cases hword : ∃ b, BooleanWord cell b
  · refine iff_of_true ?_ (Or.inl hword)
    obtain ⟨b, hb⟩ := hword
    rw [jsontaoCell_of_booleanWord _ _ hb, jsoncppCell_of_booleanWord _ _ hb]
    exact SameCell.bool b
  · have hnone : ∀ b, ¬ BooleanWord cell b := fun b hb => hword ⟨b, hb⟩
    rw [AgreedCell, or_iff_right hword]
    obtain ⟨n, hn, hlow, hhigh, hint⟩ | ⟨hrange, hstring⟩ :=
      jsoncppCell_of_not_booleanWord cpp (stod dbl) hnone
    · refine iff_of_true ?_ (Or.inl ⟨n, hn, hlow, hhigh⟩)
      have hstoll : stoll cell = some (n, cell.length) := by
        rw [stoll, hn.strtol_eq, Option.filter_some, if_pos]
        rw [Bool.and_eq_true, decide_eq_true_eq, decide_eq_true_eq]
        omega
      rw [hint, jsontaoCell_of_not_booleanWord _ _ hnone, if_neg hn.not_looksFloating, hstoll]
      exact SameCell.number (Or.inl ⟨n, rfl, rfl⟩) (Or.inl ⟨n, rfl, rfl⟩)
    · have hno : ¬ ∃ n, IntegerNumeral cell n ∧ -2 ^ 31 ≤ n ∧ n < 2 ^ 31 := by
        rintro ⟨n, hn, hin⟩
        exact hrange n hn hin
      rw [or_iff_right hno, hstring]
      constructor
      · intro hsame hahead
        refine not_sameCell_string hcpp htao ?_ hsame
        obtain ⟨-, x, -, hcell⟩ | ⟨-, n, pos, -, hcell⟩ :=
          jsontaoCell_of_numberAhead tao dbl hnone hahead
        · exact Or.inr ⟨x, hcell⟩
        · exact Or.inl ⟨n, hcell⟩
      · intro hahead
        rw [jsontaoCell_of_not_numberAhead tao dbl hnone hahead]
        exact SameCell.string cell

/-! ### Files -/

/-- The objects of a line agree when its cells do. -/
theorem sameObject_iff (headers : List Bytes) (line : Bytes) :
    SameObject cpp tao val
        (csvRow cpp.emptyObject cpp.setMember (jsoncppCell cpp (stod dbl)) headers line)
        (csvRow tao.emptyObject tao.setMember (jsontaoCell tao (stod dbl)) headers line) ↔
      ∀ key cell, csvMember headers line key = some cell → AgreedCell dbl cell := by
  obtain ⟨hobject, hfind⟩ :=
    find_csvRow hcpp.builds (jsoncppCell_isPlain cpp (stod dbl)) headers line
  obtain ⟨hobject', hfind'⟩ :=
    find_csvRow htao.builds (jsontaoCell_isPlain tao (stod dbl)) headers line
  rw [SameObject, and_iff_right hobject, and_iff_right hobject']
  refine forall_congr' fun key => ?_
  rw [hfind, hfind']
  cases csvMember headers line key with
  | none => simp
  | some cell => simp [sameCell_iff hcpp htao]

/-- The tables agree when the objects of all lines do. -/
theorem sameTable_iff (text : Bytes) :
    SameTable cpp tao val (jsoncppTable cpp (stod dbl) text)
        (jsontaoTable tao (stod dbl) text) ↔
      ∀ line ∈ csvLinesBehind text, SameObject cpp tao val
        (csvRow cpp.emptyObject cpp.setMember (jsoncppCell cpp (stod dbl)) (csvHeaders text) line)
        (csvRow tao.emptyObject tao.setMember (jsontaoCell tao (stod dbl)) (csvHeaders text)
          line) := by
  obtain ⟨harray, helements⟩ := elements_csvTable hcpp.builds
    (csvRow cpp.emptyObject cpp.setMember (jsoncppCell cpp (stod dbl))) text
  obtain ⟨harray', helements'⟩ := elements_csvTable htao.builds
    (csvRow tao.emptyObject tao.setMember (jsontaoCell tao (stod dbl))) text
  rw [SameTable, jsoncppTable, jsontaoTable, and_iff_right harray, and_iff_right harray',
    helements, helements', List.forall₂_map_left_iff, List.forall₂_map_right_iff,
    List.forall₂_same]

/-- **The files on which the readers agree**: those in which every cell that becomes a member is a
word for a boolean, a whole number of 32 bits, or begins with no number. -/
theorem readersAgree_iff (text : Bytes) :
    SameTable cpp tao val (jsoncppTable cpp (stod dbl) text)
        (jsontaoTable tao (stod dbl) text) ↔
      ∀ line ∈ csvLinesBehind text, ∀ key cell,
        csvMember (csvHeaders text) line key = some cell → AgreedCell dbl cell := by
  rw [sameTable_iff hcpp htao]
  exact forall₂_congr fun line _ => sameObject_iff hcpp htao dbl val (csvHeaders text) line

end Lawful

/-- The readers agree on a file with a boolean. -/
theorem readersAgree_true :
    SameTable Json.jsoncpp Json.taojson (fun _ => none)
      (jsoncppTable Json.jsoncpp (stod Doubles.unbounded) (str "paid\ntrue\n"))
      (jsontaoTable Json.taojson (stod Doubles.unbounded) (str "paid\ntrue\n")) := by
  refine (readersAgree_iff Json.lawful_jsoncpp Json.lawfulNumbers Doubles.unbounded _ _).2 ?_
  intro line hline key cell hmember
  obtain rfl : line = str "true" := by
    rwa [show csvLinesBehind (str "paid\ntrue\n") = [str "true"] by decide,
      List.mem_singleton] at hline
  have hcell := (mem_of_csvMember hmember).2
  rw [show csvCells (str "true") = [str "true"] by decide, List.mem_singleton] at hcell
  exact Or.inl ⟨true, by rw [hcell, BooleanWord]; decide⟩

/-- A cell that begins with a number is a string for one reader and a number for the other. -/
theorem not_readersAgree_unit :
    ¬ SameTable Json.jsoncpp Json.taojson (fun _ => none)
      (jsoncppTable Json.jsoncpp (stod Doubles.unbounded) (str "size\n12abc\n"))
      (jsontaoTable Json.taojson (stod Doubles.unbounded) (str "size\n12abc\n")) := by
  have hnumber : NumberAhead Doubles.unbounded (str "12abc") := by
    rw [NumberAhead, if_neg (by decide)]
    exact ⟨12, 2, by decide, by decide, by decide⟩
  have hwhole : isNumeric (str "12abc") = false := by decide
  have hmember : csvMember (csvHeaders (str "size\n12abc\n")) (str "12abc") (str "size") =
      some (str "12abc") := by decide
  have hline : str "12abc" ∈ csvLinesBehind (str "size\n12abc\n") := by decide
  rw [sameTable_iff Json.lawful_jsoncpp Json.lawfulNumbers]
  intro hrows
  obtain ⟨b, hb⟩ | ⟨n, hn, hlow, hhigh⟩ | hahead :=
    (sameObject_iff Json.lawful_jsoncpp Json.lawfulNumbers Doubles.unbounded _ _ _).1
      (hrows _ hline) _ _ hmember
  · exact not_booleanWord_iff.2 (by decide) b hb
  · have htrue := (isNumeric_iff _).2 ⟨n, hn, by omega, by omega⟩
    rw [hwhole] at htrue
    cases htrue
  · exact hahead hnumber

end Behh
