import Behh.Std.Numerals
import Behh.Utility.CsvColumns
import Behh.Utility.CsvRoundTrip

/-!
# Cells that are saved

What `jsontao::from_csv_file` makes of a cell, and what `jsontao::save_to_csv` writes for it. The
cells of a line have no commas, line breaks and blanks that the reader could stumble over, and
numbers and booleans are written as the reader knows them. So a cell is read again as it was.

A line is written with commas between its cells. All of them are read again, but for an empty last
one.

## Main definitions

* `IsCell`: the texts that stand in the cells of a line.
* `Json.taojsonNumbers`: a library with the texts of numbers.
* `DoubleText`: the texts that come back as doubles.
* `savedCell`: what is saved for a cell.

## Main results

* `Json.lawfulTexts`: it keeps all promises.
* `readAlike_savedCell`: a cell is read again as it was.
* `csvMember_csvJoin_eq_some_iff`: the members of a line that is saved.
-/

namespace Behh

variable {D V : Type}

/-! ### Cells of a line -/

/-- A text without comma, line break and carriage return, and without blanks at its ends. -/
structure IsCell (s : Bytes) : Prop where
  /-- No comma. -/
  comma : 0x2c ∉ s
  /-- No line break. -/
  lineBreak : 0x0a ∉ s
  /-- No carriage return. -/
  carriageReturn : 0x0d ∉ s
  /-- No blanks at its ends. -/
  trimmed : trim (str " \t\n") s = s

theorem mem_of_mem_trim {blanks s : Bytes} {c : UInt8} (h : c ∈ trim blanks s) : c ∈ s :=
  (List.rdropWhile_prefix _ _).subset ((List.dropWhile_suffix _).subset h)

/-- Nothing is trimmed from a text without blanks. -/
theorem trim_eq_self {blanks s : Bytes} (h : ∀ c ∈ s, c ∉ blanks) : trim blanks s = s := by
  have hnot : ∀ c ∈ s, ¬ blanks.contains c = true := fun c hc =>
    mt List.contains_iff_mem.1 (h c hc)
  rw [trim, List.rdropWhile_eq_self_iff.2 fun hne => hnot _ (List.getLast_mem hne),
    List.dropWhile_eq_self_iff.2 fun hlength => hnot _ (List.getElem_mem hlength)]

/-- What has been trimmed has no blanks at its ends. -/
theorem trim_trim (blanks s : Bytes) : trim blanks (trim blanks s) = trim blanks s := by
  have hlast : (trim blanks s).rdropWhile (fun c => blanks.contains c) = trim blanks s := by
    refine List.rdropWhile_eq_self_iff.2 fun hne => ?_
    have hsuffix : trim blanks s <:+ s.rdropWhile fun c => blanks.contains c :=
      List.dropWhile_suffix _
    have hne' : s.rdropWhile (fun c => blanks.contains c) ≠ [] := hsuffix.ne_nil hne
    rw [hsuffix.getLast hne]
    exact List.rdropWhile_last_not _ _ hne'
  rw [trim, hlast]
  exact List.dropWhile_idempotent _ _

/-- The texts between delimiters have none, and only characters of the text. -/
theorem notMem_of_mem_getlines {delim : UInt8} {s line : Bytes} (h : line ∈ getlines delim s) :
    delim ∉ line ∧ ∀ c ∈ line, c ∈ s := by
  induction s generalizing line with
  | nil => cases h
  | cons c cs ih =>
    rw [getlines] at h
    split at h
    · next hc =>
      obtain rfl | h := List.mem_cons.1 h
      · simp
      · exact ⟨(ih h).1, fun c' hc' => List.mem_cons_of_mem _ ((ih h).2 c' hc')⟩
    · next hc =>
      cases hlines : getlines delim cs with
      | nil =>
        rw [hlines, List.mem_singleton] at h
        subst h
        simp [Ne.symm hc]
      | cons first lines =>
        rw [hlines] at h ih
        obtain rfl | h := List.mem_cons.1 h
        · obtain ⟨hdelim, hchars⟩ := ih (List.mem_cons_self ..)
          exact ⟨by simp [hdelim, Ne.symm hc], fun c' hc' => by
            obtain rfl | hc' := List.mem_cons.1 hc'
            · exact List.mem_cons_self ..
            · exact List.mem_cons_of_mem _ (hchars c' hc')⟩
        · obtain ⟨hdelim, hchars⟩ := ih (List.mem_cons_of_mem _ h)
          exact ⟨hdelim, fun c' hc' => List.mem_cons_of_mem _ (hchars c' hc')⟩

theorem isCell_of_mem_csvCells {line cell : Bytes} (hline : 0x0a ∉ line)
    (h : cell ∈ csvCells line) : IsCell cell := by
  obtain ⟨s, hs, rfl⟩ := List.mem_map.1 h
  obtain ⟨hcomma, hchars⟩ := notMem_of_mem_getlines hs
  have hmem : ∀ c ∈ trim (str " \t\n") s, c ∈ line ∧ c ≠ 0x0d := by
    intro c hc
    have hfilter := hchars c (mem_of_mem_trim hc)
    rw [List.mem_filter, decide_eq_true_eq] at hfilter
    exact hfilter
  exact ⟨fun hc => hcomma (mem_of_mem_trim hc), fun hc => hline (hmem _ hc).1,
    fun hc => (hmem _ hc).2 rfl, trim_trim _ _⟩

/-! ### Numbers and their texts -/

/-- The characters of numbers. -/
def NumberText (s : Bytes) : Prop := s ≠ [] ∧ ∀ c ∈ s, isdigit c = true ∨ c ∈ str "+-.eE"

/-- A text that `tao::json::to_string` may write for a double: one of the characters of numbers,
with a point or an exponent, that `std::stod` reads as the double. -/
structure DoubleText (dbl : Doubles D) (x : D) (s : Bytes) : Prop where
  /-- It has the characters of numbers. -/
  numberText : NumberText s
  /-- It has a point or an exponent. -/
  floating : LooksFloating s
  /-- It is read as the double. -/
  read : stod dbl s = some x

/-- `tao::json::to_string` of a value without parts that is no string, given the texts of
doubles. -/
def Json.numberText (doubleText : D → Bytes) : Json D → Bytes
  | .scalar .null => str "null"
  | .scalar (.int n) => intNumeral n
  | .scalar (.double x) => doubleText x
  | v => v.toString

/-- The library with these values that writes numbers as well. -/
def Json.taojsonNumbers (doubleText : D → Bytes) : Taojson D (Json D) :=
  { Json.taojson with toString := Json.numberText doubleText }

/-- **It keeps all promises.** -/
theorem Json.lawfulTexts (doubleText : D → Bytes) :
    (Json.taojsonNumbers doubleText).LawfulTexts where
  __ := (Json.lawfulNumbers (D := D))
  toString_ofInt _ := rfl
  keys_sorted := by
    intro o ho
    obtain ⟨members, rfl⟩ := Json.isObject_iff.1 ho
    exact Finset.pairwise_sort members.keys (· ≤ ·)
  keys_nodup := by
    intro o ho
    obtain ⟨members, rfl⟩ := Json.isObject_iff.1 ho
    exact Finset.sort_nodup members.keys (· ≤ ·)

/-- The characters of numbers are no separators, no blanks and no letters but `e`. -/
theorem NumberText.char {c : UInt8} (h : isdigit c = true ∨ c ∈ str "+-.eE") :
    c ≠ 0x2c ∧ c ∉ str " \t\n" ∧ c ≠ 0x0d ∧ toupper c ∉ str "TF" := by
  have hall : ∀ c : UInt8, isdigit c = true ∨ c ∈ str "+-.eE" →
      c ≠ 0x2c ∧ c ∉ str " \t\n" ∧ c ≠ 0x0d ∧ toupper c ∉ str "TF" :=
    forall_byte (by decide +kernel)
  exact hall c h

theorem NumberText.isCell {s : Bytes} (h : NumberText s) : IsCell s where
  comma hc := (NumberText.char (h.2 _ hc)).1 rfl
  lineBreak hc := (NumberText.char (h.2 _ hc)).2.1 (by decide)
  carriageReturn hc := (NumberText.char (h.2 _ hc)).2.2.1 rfl
  trimmed := trim_eq_self fun c hc => (NumberText.char (h.2 c hc)).2.1

theorem NumberText.not_booleanWord {s : Bytes} (h : NumberText s) (b : Bool) :
    ¬ BooleanWord s b := by
  obtain ⟨hne, hchars⟩ := h
  obtain ⟨c, cs, rfl⟩ := List.exists_cons_of_ne_nil hne
  intro hword
  have hfirst : toupper c ∈ str "TF" := by
    rw [BooleanWord, List.map_cons] at hword
    cases b with
    | true => rw [(List.cons.inj hword).1]; decide
    | false => rw [(List.cons.inj hword).1]; decide
  exact (NumberText.char (hchars c (List.mem_cons_self ..))).2.2.2 hfirst

/-- The characters of an integer are digits, and a minus sign. -/
theorem isdigit_of_mem_intNumeral {n : ℤ} {c : UInt8} (h : c ∈ intNumeral n) :
    isdigit c = true ∨ c = 0x2d := by
  have hdigits : ∀ c ∈ numeral n.natAbs, isdigit c = true :=
    List.all_eq_true.1 (all_isdigit_numeral _)
  rw [intNumeral] at h
  split at h
  · exact (List.mem_cons.1 h).symm.imp_left (hdigits c)
  · exact Or.inl (hdigits c h)

theorem numberText_intNumeral (n : ℤ) : NumberText (intNumeral n) := by
  refine ⟨?_, fun c hc => (isdigit_of_mem_intNumeral hc).imp_right ?_⟩
  · rw [intNumeral]
    split
    · exact List.cons_ne_nil _ _
    · exact numeral_ne_nil _
  · rintro rfl
    decide

theorem not_looksFloating_intNumeral (n : ℤ) : ¬ LooksFloating (intNumeral n) := by
  have hnot : ∀ c, isdigit c = false → c ≠ 0x2d → c ∉ intNumeral n := by
    intro c hdigit hminus hc
    rcases isdigit_of_mem_intNumeral hc with h | h
    · rw [hdigit] at h
      cases h
    · exact hminus h
  rintro (hc | hc | hc)
  · exact hnot _ (by decide) (by decide) hc
  · exact hnot _ (by decide) (by decide) hc
  · exact hnot _ (by decide) (by decide) hc

theorem stoll_intNumeral {n : ℤ} (hlow : -2 ^ 63 ≤ n) (hhigh : n < 2 ^ 63) :
    stoll (intNumeral n) = some (n, (intNumeral n).length) := by
  have hread : strtol (intNumeral n) = some (n, (intNumeral n).length) := by
    rw [intNumeral]
    split
    · rw [strtol_minus_digits (numeral_ne_nil _) (all_isdigit_numeral _), decimal_numeral,
        List.length_cons]
      congr
      omega
    · rw [strtol_digits (numeral_ne_nil _) (all_isdigit_numeral _), decimal_numeral]
      congr
      omega
  rw [stoll, hread, Option.filter_some, if_pos]
  rw [Bool.and_eq_true, decide_eq_true_eq, decide_eq_true_eq]
  exact ⟨hlow, hhigh⟩

/-! ### Cells that are read again -/

section Cells

variable (lib : Taojson D V) (dbl : Doubles D)

/-- The text that is saved for what has been read from a cell. -/
def savedCell (cell : Bytes) : Bytes := cellText lib (jsontaoCell lib (stod dbl) cell)

/-- What `std::stod` reads from a cell with a point or an exponent. -/
def DoubleRead (cell : Bytes) (x : D) : Prop := LooksFloating cell ∧ stod dbl cell = some x

/-- A text that is saved is a cell, is read as `cell` is, and is empty when `cell` is. -/
structure ReadAlike (cell s : Bytes) : Prop where
  /-- It is a cell. -/
  isCell : IsCell s
  /-- It is read as `cell` is. -/
  read : jsontaoCell lib (stod dbl) s = jsontaoCell lib (stod dbl) cell
  /-- It is empty when `cell` is. -/
  eq_nil_iff : s = [] ↔ cell = []
  /-- A double that is read from it is the one that is read from `cell`. -/
  double : ∀ x, DoubleRead dbl s x → DoubleRead dbl cell x

variable {lib dbl}

theorem cellText_ofString (hlib : lib.Lawful) (s : Bytes) : cellText lib (lib.ofString s) = s := by
  rw [cellText, hlib.getString_ofString, Option.getD_some]

theorem readAlike_booleanWord (hlib : lib.Lawful) {cell : Bytes} {b : Bool}
    (h : BooleanWord cell b) : ReadAlike lib dbl cell (savedCell lib dbl cell) := by
  have htext : savedCell lib dbl cell = if b then str "true" else str "false" := by
    rw [savedCell, jsontaoCell_of_booleanWord _ _ h, cellText, hlib.getString_ofBool,
      Option.getD_none, hlib.toString_ofBool]
  have hword : BooleanWord (if b then str "true" else str "false") b := by
    rw [BooleanWord]
    cases b <;> decide
  have hne : cell ≠ [] := by
    rintro rfl
    rw [BooleanWord] at h
    cases b <;> exact absurd h (by decide)
  rw [htext]
  refine ⟨?_, ?_, ?_, ?_⟩
  · cases b
    · exact ⟨by decide, by decide, by decide, by decide⟩
    · exact ⟨by decide, by decide, by decide, by decide⟩
  · rw [jsontaoCell_of_booleanWord _ _ h, jsontaoCell_of_booleanWord _ _ hword]
  · cases b <;> simp [hne, str]
  · -- both words have a letter `e`, but begin with no number
    rintro x ⟨-, hread⟩
    have hnone : floatAhead (if b then str "true" else str "false") = none := by
      cases b <;> decide
    rw [stod, hnone] at hread
    cases hread

/-- A number is saved as a text that is read as the number. -/
theorem readAlike_number {cell s : Bytes} {v : V} (hne : cell ≠ []) (hs : NumberText s)
    (htext : cellText lib v = s) (hcell : jsontaoCell lib (stod dbl) cell = v)
    (hread : jsontaoCell lib (stod dbl) s = v)
    (hdouble : ∀ x, DoubleRead dbl s x → DoubleRead dbl cell x) :
    ReadAlike lib dbl cell (savedCell lib dbl cell) := by
  rw [savedCell, hcell, htext]
  exact ⟨hs.isCell, hread.trans hcell.symm, iff_of_false hs.1 hne, hdouble⟩

theorem readAlike_string (hlib : lib.Lawful) {cell : Bytes} (hcell : IsCell cell)
    (h : jsontaoCell lib (stod dbl) cell = lib.ofString cell) :
    ReadAlike lib dbl cell (savedCell lib dbl cell) := by
  rw [savedCell, h, cellText_ofString hlib]
  exact ⟨hcell, rfl, Iff.rfl, fun _ hx => hx⟩

/-- **A cell is read again as it was**, when a double in it is written as one. -/
theorem readAlike_savedCell (hlib : lib.LawfulTexts) {cell : Bytes} (hcell : IsCell cell)
    (hdouble : ∀ x, DoubleRead dbl cell x → DoubleText dbl x (lib.toString (lib.ofDouble x))) :
    ReadAlike lib dbl cell (savedCell lib dbl cell) := by
  by_cases hword : ∃ b, BooleanWord cell b
  · obtain ⟨b, hb⟩ := hword
    exact readAlike_booleanWord hlib.toLawful hb
  · have hvalue := jsontaoCell_of_not_booleanWord lib (stod dbl) fun b hb => hword ⟨b, hb⟩
    split_ifs at hvalue with hfloat
    · cases hx : stod dbl cell with
      | none => exact readAlike_string hlib.toLawful hcell (hvalue.trans (by rw [hx]; rfl))
      | some x =>
        rw [hx, Option.elim_some] at hvalue
        obtain ⟨htext, hfloat', hread⟩ := hdouble x ⟨hfloat, hx⟩
        refine readAlike_number ?_ htext ?_ hvalue ?_ ?_
        · rintro rfl
          simp [LooksFloating] at hfloat
        · rw [cellText, hlib.getString_ofDouble, Option.getD_none]
        · rw [jsontaoCell_of_not_booleanWord _ _ htext.not_booleanWord, if_pos hfloat', hread]
          rfl
        · rintro y ⟨-, hy⟩
          exact ⟨hfloat, hx.trans (hread.symm.trans hy)⟩
    · cases hn : stoll cell with
      | none => exact readAlike_string hlib.toLawful hcell (hvalue.trans (by rw [hn]; rfl))
      | some r =>
        obtain ⟨n, pos⟩ := r
        obtain ⟨hlow, hhigh⟩ : -2 ^ 63 ≤ n ∧ n < 2 ^ 63 := by
          rw [stoll, Option.filter_eq_some_iff] at hn
          simpa using hn.2
        rw [hn, Option.elim_some] at hvalue
        refine readAlike_number ?_ (numberText_intNumeral n) ?_ hvalue ?_ ?_
        · rintro rfl
          exact absurd hn (by simp [stoll, strtol])
        · rw [cellText, hlib.getString_ofInt, Option.getD_none, hlib.toString_ofInt]
        · rw [jsontaoCell_of_not_booleanWord _ _ (numberText_intNumeral n).not_booleanWord,
            if_neg (not_looksFloating_intNumeral n), stoll_intNumeral hlow hhigh]
          rfl
        · exact fun x hx => absurd hx.1 (not_looksFloating_intNumeral n)

end Cells

/-! ### Lines that are read again -/

theorem csvJoin_eq_intercalate (cells : List Bytes) : csvJoin cells = [0x2c].intercalate cells := by
  induction cells with
  | nil => rfl
  | cons cell cells ih =>
    cases cells with
    | nil => simp [csvJoin]
    | cons cell' cells =>
      rw [csvJoin_cons_cons, ih]
      simp [List.intercalate]

/-- Cells are cut out of a line as they are, but for an empty last one. -/
theorem getlines_csvJoin_eq {cells : List Bytes} (hne : cells ≠ [])
    (h : ∀ cell ∈ cells, 0x2c ∉ cell) :
    getlines 0x2c (csvJoin cells) =
      if cells.getLast? = some [] then cells.dropLast else cells := by
  rw [getlines_eq, csvJoin_eq_intercalate, List.splitOn_intercalate 0x2c h hne]

theorem csvCells_csvJoin {cells : List Bytes} (hne : cells ≠ []) (h : ∀ cell ∈ cells, IsCell cell) :
    csvCells (csvJoin cells) = if cells.getLast? = some [] then cells.dropLast else cells := by
  have hfilter : (csvJoin cells).filter (· ≠ 0x0d) = csvJoin cells := by
    have hreturn : 0x0d ∉ csvJoin cells :=
      notMem_csvJoin (by decide) fun cell hcell => (h cell hcell).carriageReturn
    exact List.filter_eq_self.2 fun c hc => decide_eq_true (ne_of_mem_of_not_mem hc hreturn)
  have htrim : ∀ l : List Bytes, (∀ cell ∈ l, cell ∈ cells) → l.map (trim (str " \t\n")) = l :=
    fun l hl => (List.map_congr_left fun cell hcell => (h cell (hl cell hcell)).trimmed).trans
      (List.map_id' _)
  rw [csvCells, hfilter, getlines_csvJoin_eq hne fun cell hcell => (h cell hcell).comma]
  split
  · exact htrim _ fun cell hcell => List.mem_of_mem_dropLast hcell
  · exact htrim _ fun cell hcell => hcell

/-- What stands beside a name in a list of its images. -/
theorem exists_getElem?_map_iff {keys : List Bytes} {cellOf : Bytes → Bytes} {key cell : Bytes} :
    (∃ j : ℕ, keys[j]? = some key ∧ (keys.map cellOf)[j]? = some cell) ↔
      key ∈ keys ∧ cell = cellOf key := by
  constructor
  · rintro ⟨j, hkey, hcell⟩
    rw [List.getElem?_map, hkey, Option.map_some] at hcell
    exact ⟨List.mem_of_getElem? hkey, (Option.some.inj hcell).symm⟩
  · rintro ⟨hkey, rfl⟩
    obtain ⟨j, hj⟩ := List.getElem?_of_mem hkey
    exact ⟨j, hj, by rw [List.getElem?_map, hj, Option.map_some]⟩

/-- **The members of a line that is saved**: all but that in the last column when it is empty. -/
theorem csvMember_csvJoin_eq_some_iff {keys : List Bytes} (hkeys : keys.Nodup) (hne : keys ≠ [])
    {cellOf : Bytes → Bytes} (hcells : ∀ key ∈ keys, IsCell (cellOf key)) (key cell : Bytes) :
    csvMember keys (csvJoin (keys.map cellOf)) key = some cell ↔
      key ∈ keys ∧ ¬ (keys.getLast? = some key ∧ cellOf key = []) ∧ cell = cellOf key := by
  rw [csvMember, csvCells_csvJoin (by simpa using hne) (by simpa using hcells),
    lookup_reverse_zip_iff hkeys, List.getLast?_map]
  obtain ⟨init, last, rfl⟩ := (List.eq_nil_or_concat' keys).resolve_left hne
  rw [List.getLast?_append, List.getLast?_singleton, Option.some_or, Option.map_some]
  by_cases hempty : cellOf last = []
  · have hlast : last ∉ init := fun hmem =>
      (List.nodup_append.1 hkeys).2.2 last hmem last (List.mem_singleton_self _) rfl
    -- the last column is not read
    have hinit : (∃ j : ℕ, (init ++ [last])[j]? = some key ∧ (init.map cellOf)[j]? = some cell) ↔
        ∃ j : ℕ, init[j]? = some key ∧ (init.map cellOf)[j]? = some cell := by
      refine exists_congr fun j => and_congr_left fun hcell => ?_
      have hj : j < init.length := by
        simpa using (List.getElem?_eq_some_iff.1 hcell).1
      rw [List.getElem?_append_left hj]
    rw [if_pos (congrArg some hempty), List.map_append, List.map_singleton, List.dropLast_concat,
      hinit, exists_getElem?_map_iff]
    constructor
    · rintro ⟨hkey, hcell⟩
      refine ⟨List.mem_append_left _ hkey, ?_, hcell⟩
      rintro ⟨heq, -⟩
      exact hlast (Option.some.inj heq ▸ hkey)
    · rintro ⟨hkey, hnot, hcell⟩
      refine ⟨(List.mem_append.1 hkey).resolve_right fun hmem => hnot ?_, hcell⟩
      rw [List.mem_singleton.1 hmem]
      exact ⟨rfl, hempty⟩
  · rw [if_neg fun h => hempty (Option.some.inj h), exists_getElem?_map_iff]
    refine and_congr_right fun _ => (and_iff_right ?_).symm
    rintro ⟨heq, hcell⟩
    exact hempty (Option.some.inj heq ▸ hcell)

end Behh
