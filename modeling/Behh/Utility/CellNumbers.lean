import Behh.Std.Floats
import Behh.Utility.JsonValues

/-!
# Cells that become numbers

What `jsontao::from_csv_file` makes of a cell, lines 809–838 of `src/utility.cc`. A cell with a
point or a letter `e` in it is given to `std::stod`, any other one to `std::stoll`. Both read a
number at the beginning of the cell and leave the rest unread, and nobody asks whether there is
any. So the cell becomes a number although it is none when it begins with one. This is so whatever
the library makes of booleans, numbers and strings, as long as a string is no number.

## Main definitions

* `BooleanWord`: the cells that become booleans.
* `ConvertedRight`: a cell becomes the number that it is, a boolean or itself.
* `NumberAhead`: there is a number at the beginning of a cell.

## Main results

* `convertedRight_iff`: the cells that become what they are.
-/

namespace Behh

variable {D V : Type}

/-- `TRUE` or `FALSE`, in letters of either case. -/
def BooleanWord (cell : Bytes) (b : Bool) : Prop :=
  cell.map toupper = if b then str "TRUE" else str "FALSE"

/-- The value of a cell is right: a boolean for one of the two words, a number only for a decimal
numeral with this value, and else the cell as a string. -/
inductive ConvertedRight (lib : Taojson D V) (dbl : Doubles D) (cell : Bytes) : V → Prop
  | bool {b : Bool} (h : BooleanWord cell b) : ConvertedRight lib dbl cell (lib.ofBool b)
  | int {negative : Bool} {value : ℚ} {n : ℤ} (h : DecimalNumeral cell negative value)
      (hn : (n : ℚ) = if negative then -value else value) :
      ConvertedRight lib dbl cell (lib.ofInt n)
  | double {negative : Bool} {value : ℚ} {x : D} (h : DecimalNumeral cell negative value)
      (hx : dbl.round negative value = some x) : ConvertedRight lib dbl cell (lib.ofDouble x)
  | string (h : ∀ b, ¬ BooleanWord cell b) : ConvertedRight lib dbl cell (lib.ofString cell)

/-- There is a point or a letter `e` in the cell. -/
abbrev LooksFloating (cell : Bytes) : Prop := 0x2e ∈ cell ∨ 0x65 ∈ cell ∨ 0x45 ∈ cell

/-- A number stands at the beginning of the cell, and is in range: a floating-point number when the
cell has a point or a letter `e`, and else an integer. -/
def NumberAhead (dbl : Doubles D) (cell : Bytes) : Prop :=
  if LooksFloating cell then
    ∃ text, floatAhead cell = some text ∧ dbl.ofFloatText text ≠ none
  else ∃ n pos, strtol cell = some (n, pos) ∧ -2 ^ 63 ≤ n ∧ n < 2 ^ 63

/-! ### Decimal numerals without a point -/

/-- A decimal numeral without a point and without an exponent is a sign and digits. -/
theorem DecimalNumeral.integer {cell : Bytes} {negative : Bool} {value : ℚ}
    (h : DecimalNumeral cell negative value) (hint : ¬ LooksFloating cell) :
    ∃ sign digits : Bytes, cell = sign ++ digits ∧ SignText sign negative ∧ Digits digits ∧
      value = decimal digits := by
  obtain ⟨sign, whole, fraction, exponent, digits, e, rfl, hsign, hwhole, hfraction, hexponent,
    rfl⟩ := h
  cases hfraction with
  | present hdigits => exact absurd (Or.inl (by simp)) hint
  | absent =>
    cases hexponent with
    | present hletter => exact absurd (Or.inr (by rcases hletter with rfl | rfl <;> simp)) hint
    | absent => exact ⟨sign, whole, by simp, hsign, hwhole, by simp⟩

/-! ### What becomes of a cell -/

theorem not_booleanWord_iff {cell : Bytes} :
    (∀ b, ¬ BooleanWord cell b) ↔ cell.map toupper ≠ str "TRUE" ∧ cell.map toupper ≠ str "FALSE" :=
  ⟨fun h => ⟨h true, h false⟩, fun h b => by cases b; exacts [h.2, h.1]⟩

/-- The comparisons with the two words find which of them a cell is. -/
theorem ite_of_booleanWord (g : Bool → V) (other : V) {cell : Bytes} {b : Bool}
    (h : BooleanWord cell b) :
    (if cell.map toupper = str "TRUE" then g true
      else if cell.map toupper = str "FALSE" then g false else other) = g b := by
  cases b with
  | true => exact if_pos h
  | false =>
    have hne : ¬ cell.map toupper = str "TRUE" := by
      intro htrue
      rw [BooleanWord, htrue] at h
      exact absurd h (by decide)
    exact (if_neg hne).trans (if_pos h)

theorem jsontaoCell_of_booleanWord (lib : Taojson D V) (stod : Bytes → Option D)
    {cell : Bytes} {b : Bool} (h : BooleanWord cell b) :
    jsontaoCell lib stod cell = lib.ofBool b :=
  ite_of_booleanWord lib.ofBool _ h

/-- A cell that is no boolean becomes what the library makes of it. -/
theorem jsontaoCell_of_not_booleanWord (lib : Taojson D V) (stod : Bytes → Option D)
    {cell : Bytes} (h : ∀ b, ¬ BooleanWord cell b) :
    jsontaoCell lib stod cell =
      if LooksFloating cell then (stod cell).elim (lib.ofString cell) lib.ofDouble
      else (stoll cell).elim (lib.ofString cell) fun r => lib.ofInt r.1 := by
  obtain ⟨htrue, hfalse⟩ := not_booleanWord_iff.1 h
  simp only [jsontaoCell, if_neg htrue, if_neg hfalse]
  split
  · cases stod cell <;> rfl
  · cases stoll cell <;> rfl

theorem stod_isSome_iff (dbl : Doubles D) (cell : Bytes) :
    (stod dbl cell).isSome = true ↔
      ∃ text, floatAhead cell = some text ∧ dbl.ofFloatText text ≠ none := by
  rw [stod]
  cases floatAhead cell with
  | none => simp
  | some text => simp [Option.isSome_iff_ne_none]

theorem stoll_isSome_iff (cell : Bytes) :
    (stoll cell).isSome = true ↔
      ∃ n pos, strtol cell = some (n, pos) ∧ -2 ^ 63 ≤ n ∧ n < 2 ^ 63 := by
  rw [stoll]
  cases strtol cell with
  | none => simp
  | some r => simp [Option.filter_some, Option.isSome_ite, Prod.ext_iff]

/-- Where no number stands ahead the cell is stored as it is. -/
theorem jsontaoCell_of_not_numberAhead (lib : Taojson D V) (dbl : Doubles D) {cell : Bytes}
    (hword : ∀ b, ¬ BooleanWord cell b) (h : ¬ NumberAhead dbl cell) :
    jsontaoCell lib (stod dbl) cell = lib.ofString cell := by
  rw [jsontaoCell_of_not_booleanWord _ _ hword]
  rw [NumberAhead] at h
  split_ifs at h ⊢ with hfloat
  · rw [← stod_isSome_iff, Bool.not_eq_true, Option.isSome_eq_false_iff,
      Option.isNone_iff_eq_none] at h
    rw [h]
    rfl
  · rw [← stoll_isSome_iff, Bool.not_eq_true, Option.isSome_eq_false_iff,
      Option.isNone_iff_eq_none] at h
    rw [h]
    rfl

/-- Where a number stands ahead a number is stored: that of `std::stod` or that of
`std::stoll`. -/
theorem jsontaoCell_of_numberAhead (lib : Taojson D V) (dbl : Doubles D) {cell : Bytes}
    (hword : ∀ b, ¬ BooleanWord cell b) (h : NumberAhead dbl cell) :
    (LooksFloating cell ∧ ∃ x, stod dbl cell = some x ∧
        jsontaoCell lib (stod dbl) cell = lib.ofDouble x) ∨
      ¬ LooksFloating cell ∧ ∃ n pos, strtol cell = some (n, pos) ∧
        jsontaoCell lib (stod dbl) cell = lib.ofInt n := by
  rw [jsontaoCell_of_not_booleanWord _ _ hword]
  rw [NumberAhead] at h
  split_ifs at h ⊢ with hfloat
  · rw [← stod_isSome_iff, Option.isSome_iff_exists] at h
    obtain ⟨x, hx⟩ := h
    exact Or.inl ⟨hfloat, x, hx, by rw [hx]; rfl⟩
  · obtain ⟨n, pos, hread, hlow, hhigh⟩ := h
    have hstoll : stoll cell = some (n, pos) := by
      rw [stoll, hread, Option.filter_some, if_pos]
      rw [Bool.and_eq_true, decide_eq_true_eq, decide_eq_true_eq]
      exact ⟨hlow, hhigh⟩
    exact Or.inr ⟨hfloat, n, pos, hread, by rw [hstoll]; rfl⟩

/-- A decimal numeral becomes its value, or stays a string when it is out of range. -/
theorem convertedRight_of_decimalNumeral (lib : Taojson D V) (dbl : Doubles D) {cell : Bytes}
    {negative : Bool} {value : ℚ} (hword : ∀ b, ¬ BooleanWord cell b)
    (h : DecimalNumeral cell negative value) :
    ConvertedRight lib dbl cell (jsontaoCell lib (stod dbl) cell) := by
  by_cases hahead : NumberAhead dbl cell
  · obtain ⟨-, x, hx, hcell⟩ | ⟨hfloat, n, pos, hread, hcell⟩ :=
      jsontaoCell_of_numberAhead lib dbl hword hahead
    · rw [hcell]
      rw [h.stod_eq] at hx
      exact ConvertedRight.double h hx
    · rw [hcell]
      obtain ⟨sign, digits, rfl, hsign, hdigits, rfl⟩ := h.integer hfloat
      rw [hsign.strtol_eq hdigits] at hread
      obtain ⟨rfl, -⟩ := Prod.mk.inj (Option.some.inj hread)
      exact ConvertedRight.int h (by cases negative <;> simp)
  · rw [jsontaoCell_of_not_numberAhead lib dbl hword hahead]
    exact ConvertedRight.string hword

/-- A number is converted right only when the cell is a decimal numeral. -/
theorem exists_decimalNumeral_of_convertedRight {lib : Taojson D V} (hlib : lib.LawfulNumbers)
    {dbl : Doubles D} {cell : Bytes} {v : V} (hword : ∀ b, ¬ BooleanWord cell b)
    (hv : lib.IsNumber v) (h : ConvertedRight lib dbl cell v) :
    ∃ negative value, DecimalNumeral cell negative value := by
  cases h with
  | bool h => exact absurd h (hword _)
  | int h => exact ⟨_, _, h⟩
  | double h => exact ⟨_, _, h⟩
  | string => exact absurd rfl (hlib.ofString_ne hv cell)

/-- **The cells that become what they are**: the words for the booleans, the decimal numerals, and
the cells that do not begin with a number. Every other cell becomes the number that it begins
with. -/
theorem convertedRight_iff {lib : Taojson D V} (hlib : lib.LawfulNumbers) (dbl : Doubles D)
    (cell : Bytes) :
    ConvertedRight lib dbl cell (jsontaoCell lib (stod dbl) cell) ↔
      (∃ b, BooleanWord cell b) ∨ (∃ negative value, DecimalNumeral cell negative value) ∨
        ¬ NumberAhead dbl cell := by
  by_cases hword : ∃ b, BooleanWord cell b
  · refine iff_of_true ?_ (Or.inl hword)
    obtain ⟨b, hb⟩ := hword
    rw [jsontaoCell_of_booleanWord _ _ hb]
    exact ConvertedRight.bool hb
  · have hnone : ∀ b, ¬ BooleanWord cell b := fun b hb => hword ⟨b, hb⟩
    rw [or_iff_right hword]
    constructor
    · intro h
      by_contra hbad
      rw [not_or, not_not] at hbad
      obtain ⟨hnumeral, hahead⟩ := hbad
      refine hnumeral (exists_decimalNumeral_of_convertedRight hlib hnone ?_ h)
      obtain ⟨-, x, -, hcell⟩ | ⟨-, n, pos, -, hcell⟩ :=
        jsontaoCell_of_numberAhead lib dbl hnone hahead
      · exact Or.inr ⟨x, hcell⟩
      · exact Or.inl ⟨n, hcell⟩
    · rintro (⟨negative, value, h⟩ | hahead)
      · exact convertedRight_of_decimalNumeral lib dbl hnone h
      · rw [jsontaoCell_of_not_numberAhead lib dbl hnone hahead]
        exact ConvertedRight.string hnone

/-- A word becomes a boolean. -/
theorem convertedRight_true :
    ConvertedRight Json.taojson Doubles.unbounded (str "True")
      (jsontaoCell Json.taojson (stod Doubles.unbounded) (str "True")) :=
  (convertedRight_iff Json.lawfulNumbers Doubles.unbounded (str "True")).2
    (Or.inl ⟨true, show (str "True").map toupper = str "TRUE" by decide⟩)

theorem not_decimalNumeral_date (negative : Bool) (value : ℚ) :
    ¬ DecimalNumeral (str "2024-01-15") negative value := by
  intro h
  obtain ⟨sign, digits, hdate, hsign, hdigits, -⟩ := h.integer (by decide)
  have hall := hdigits.2
  cases hsign with
  | absent =>
    rw [List.nil_append] at hdate
    rw [← hdate] at hall
    exact absurd hall (by decide)
  | plus => exact absurd (List.cons.inj hdate).1 (by decide)
  | minus => exact absurd (List.cons.inj hdate).1 (by decide)

/-- A date becomes its year. -/
theorem not_convertedRight_date :
    ¬ ConvertedRight Json.taojson Doubles.unbounded (str "2024-01-15")
      (jsontaoCell Json.taojson (stod Doubles.unbounded) (str "2024-01-15")) := by
  have hword : ∀ b, ¬ BooleanWord (str "2024-01-15") b := not_booleanWord_iff.2 (by decide)
  have hcell : jsontaoCell Json.taojson (stod Doubles.unbounded) (str "2024-01-15") =
      Json.taojson.ofInt 2024 := by
    have hfloat : ¬ LooksFloating (str "2024-01-15") := by decide
    rw [jsontaoCell_of_not_booleanWord _ _ hword, if_neg hfloat,
      show stoll (str "2024-01-15") = some (2024, 4) by decide]
    rfl
  rw [hcell]
  intro h
  obtain ⟨negative, value, hnumeral⟩ :=
    exists_decimalNumeral_of_convertedRight Json.lawfulNumbers hword (Or.inl ⟨2024, rfl⟩) h
  exact not_decimalNumeral_date negative value hnumeral

end Behh
