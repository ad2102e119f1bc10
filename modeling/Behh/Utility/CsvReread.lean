import Behh.Utility.CsvRejects
import Behh.Utility.SavedCells

/-!
# CSV files that are read, saved and read again

A program that changes a CSV file reads it with `jsontao::from_csv_file` and saves it with
`jsontao::save_to_csv`. Its cells are read again as they were. A table is not always.

The columns of what is saved are the members of the first object, in the alphabetical order of
their names. A member that only other objects have is lost. A member that only the first object
has comes back as an empty string in the others, unless it is in the last column. There it is an
empty string that is lost. And when the only name is empty nothing comes back at all.

The library is any that keeps its promises, and writes the doubles of the file as texts that come
back.

## Main definitions

* `DoublesWritten`: the doubles of a file are written as texts that come back.
* `Settled`: the files that are read again as they were.

## Main results

* `reread_member_iff`, `reread_object_iff`: the members and the objects that are read again.
* `getlines_savedText`: the lines of what is saved.
* `csvReread_iff`: the files of which the same table is read again.
-/

namespace Behh

variable {D V : Type}

/-! ### Objects -/

section Objects

variable {lib : Taojson D V} (hlib : lib.LawfulNumbers) (stod : Bytes → Option D)

/-- The object that is read from a line. -/
def csvObject (lib : Taojson D V) (stod : Bytes → Option D) (headers : List Bytes)
    (line : Bytes) : V :=
  csvRow lib.emptyObject lib.setMember (jsontaoCell lib stod) headers line

include hlib

/-- The members of an object are the values of cells. -/
theorem find_csvObject (headers : List Bytes) (line : Bytes) :
    lib.isObject (csvObject lib stod headers line) = true ∧
      ∀ key, lib.find (csvObject lib stod headers line) key =
        (csvMember headers line key).map (jsontaoCell lib stod) :=
  find_csvRow hlib.builds (jsontaoCell_isPlain lib stod) headers line

theorem csvObject_eq_iff {headers headers' : List Bytes} {line line' : Bytes} :
    csvObject lib stod headers line = csvObject lib stod headers' line' ↔
      ∀ key, (csvMember headers line key).map (jsontaoCell lib stod) =
        (csvMember headers' line' key).map (jsontaoCell lib stod) := by
  obtain ⟨hobject, hfind⟩ := find_csvObject hlib stod headers line
  obtain ⟨hobject', hfind'⟩ := find_csvObject hlib stod headers' line'
  constructor
  · intro heq key
    rw [← hfind, ← hfind', heq]
  · intro hsame
    refine hlib.object_ext _ _ hobject hobject' fun key => ?_
    rw [hfind, hfind', hsame]

/-- A table is the array of the objects of the lines. -/
theorem jsontaoTable_elements (text : Bytes) :
    lib.isArray (jsontaoTable lib stod text) = true ∧
      lib.getArray (jsontaoTable lib stod text) =
        (csvLinesBehind text).map (csvObject lib stod (csvHeaders text)) :=
  elements_csvTable hlib.builds _ text

end Objects

theorem getLast?_eq_some_iff_of_pairwise {keys : List Bytes} (h : keys.Pairwise (· ≤ ·))
    {last : Bytes} :
    keys.getLast? = some last ↔ last ∈ keys ∧ ∀ key ∈ keys, key ≤ last := by
  constructor
  · intro hlast
    obtain ⟨init, rfl⟩ := List.getLast?_eq_some_iff.1 hlast
    refine ⟨by simp, fun key hkey => ?_⟩
    rcases List.mem_append.1 hkey with hkey | hkey
    · exact (List.pairwise_append.1 h).2.2 key hkey last (List.mem_singleton_self _)
    · rw [List.mem_singleton.1 hkey]
      exact List.le_refl last
  · rintro ⟨hmem, hle⟩
    obtain ⟨init, last', rfl⟩ :=
      (List.eq_nil_or_concat' keys).resolve_left (List.ne_nil_of_mem hmem)
    rw [List.getLast?_append, List.getLast?_singleton, Option.some_or]
    rcases List.mem_append.1 hmem with hmem | hmem
    · exact congrArg some (List.le_antisymm (hle last' (by simp))
        ((List.pairwise_append.1 h).2.2 last hmem last' (List.mem_singleton_self _)))
    · exact congrArg some (List.mem_singleton.1 hmem).symm

/-- No name is left of names in alphabetical order when the last one is empty and left out. -/
theorem dropLast_eq_nil_of_pairwise {keys : List Bytes} (hsorted : keys.Pairwise (· ≤ ·))
    (hnodup : keys.Nodup) (hlast : keys.getLast? = some []) : keys.dropLast = [] := by
  obtain ⟨init, rfl⟩ := List.getLast?_eq_some_iff.1 hlast
  rw [List.dropLast_concat, List.eq_nil_iff_forall_not_mem]
  intro key hkey
  have hle : key ≤ [] := ((getLast?_eq_some_iff_of_pairwise hsorted).1 hlast).2 key
    (List.mem_append_left _ hkey)
  obtain rfl : key = [] := List.le_antisymm hle (List.nil_le key)
  exact (List.nodup_append.1 hnodup).2.2 [] hkey [] (List.mem_singleton_self _) rfl

/-! ### Tables that are read again -/

/-- The doubles of a file are written as texts that come back. An infinity has no such text. -/
def DoublesWritten (lib : Taojson D V) (dbl : Doubles D) (text : Bytes) : Prop :=
  ∀ line ∈ csvLinesBehind text, ∀ key cell, csvMember (csvHeaders text) line key = some cell →
    ∀ x, DoubleRead dbl cell x → DoubleText dbl x (lib.toString (lib.ofDouble x))

/-- There is a line behind the first one, and either there are no members at all, or the first
object has a name that is not empty and comes behind all its others in the alphabet. Then the other
lines have these others and no more. They may lack the last name, but no line has an empty cell
under it. -/
def Settled (text : Bytes) : Prop :=
  ∃ first rest, csvLinesBehind text = first :: rest ∧
    ((∀ line ∈ first :: rest, ∀ key, csvMember (csvHeaders text) line key = none) ∨
      ∃ last, last ≠ [] ∧ csvMember (csvHeaders text) first last ≠ none ∧
        (∀ key, csvMember (csvHeaders text) first key ≠ none → key ≤ last) ∧
        ∀ line ∈ first :: rest, csvMember (csvHeaders text) line last ≠ some [] ∧
          ∀ key, key ≠ last → (csvMember (csvHeaders text) line key = none ↔
            csvMember (csvHeaders text) first key = none))

theorem lineBreak_notMem_csvLinesBehind {text line : Bytes} (h : line ∈ csvLinesBehind text) :
    0x0a ∉ line :=
  (notMem_of_mem_getlines (List.mem_of_mem_tail h)).1

/-- The names have no commas, no line breaks and no blanks at their ends. -/
theorem csvHeaders_spec {text key : Bytes} (h : key ∈ csvHeaders text) :
    0x2c ∉ key ∧ 0x0a ∉ key ∧ trim (str " \t\r\n") key = key := by
  obtain ⟨name, hname, rfl⟩ := List.mem_map.1 h
  obtain ⟨hcomma, hchars⟩ := notMem_of_mem_getlines hname
  refine ⟨fun hc => hcomma (mem_of_mem_trim hc), fun hc => ?_, trim_trim _ _⟩
  have hfirst : 0x0a ∉ (getlines 0x0a text).headD [] := by
    cases hlines : getlines 0x0a text with
    | nil => exact List.not_mem_nil
    | cons first lines =>
      exact (notMem_of_mem_getlines (hlines ▸ List.mem_cons_self ..)).1
  exact hfirst (hchars _ (mem_of_mem_trim hc))

section Reread

variable {lib : Taojson D V} (hlib : lib.LawfulTexts) {dbl : Doubles D} {text : Bytes}

/-- The text that is saved for a member of the object that is read from a line. -/
def savedMember (lib : Taojson D V) (dbl : Doubles D) (headers : List Bytes) (line key : Bytes) :
    Bytes :=
  (csvMember headers line key).elim [] (savedCell lib dbl)

/-- The names of the members of the object of a line. -/
def csvKeys (lib : Taojson D V) (dbl : Doubles D) (text line : Bytes) : List Bytes :=
  lib.keys (csvObject lib (stod dbl) (csvHeaders text) line)

/-- The text that is saved for what has been read from a text. -/
def savedText (lib : Taojson D V) (dbl : Doubles D) (text : Bytes) : Bytes :=
  csvText lib (jsontaoTable lib (stod dbl) text)

/-- The line that is saved for the object of `line`, when `first` is the line of the first one. -/
def savedLine (lib : Taojson D V) (dbl : Doubles D) (text first line : Bytes) : Bytes :=
  csvJoin ((csvKeys lib dbl text first).map (savedMember lib dbl (csvHeaders text) line))

/-- The names that are read again: all of them, but for an empty last one. -/
def rereadKeys (lib : Taojson D V) (dbl : Doubles D) (text first : Bytes) : List Bytes :=
  if (csvKeys lib dbl text first).getLast? = some [] then (csvKeys lib dbl text first).dropLast
  else csvKeys lib dbl text first

/-! ### Cells and objects that are read again -/

include hlib

theorem isCell_savedMember (hdouble : DoublesWritten lib dbl text) {line : Bytes}
    (hline : line ∈ csvLinesBehind text) (key : Bytes) :
    IsCell (savedMember lib dbl (csvHeaders text) line key) := by
  rw [savedMember]
  cases hmember : csvMember (csvHeaders text) line key with
  | none => exact ⟨List.not_mem_nil, List.not_mem_nil, List.not_mem_nil, rfl⟩
  | some cell =>
    exact (readAlike_savedCell hlib (isCell_of_mem_csvCells (lineBreak_notMem_csvLinesBehind hline)
      (mem_of_csvMember hmember).2) (hdouble line hline key cell hmember)).isCell

/-- **A member is read again as it was** when it has a column, and the column is not the last one or
the cell is not empty. A member that was not there is none again when it has no column, or the
last one. -/
theorem reread_member_iff (hdouble : DoublesWritten lib dbl text) {line : Bytes}
    (hline : line ∈ csvLinesBehind text) {keys : List Bytes} (hkeys : keys.Nodup)
    {last : Bytes} (hlast : keys.getLast? = some last) (key : Bytes) :
    (csvMember keys (csvJoin (keys.map (savedMember lib dbl (csvHeaders text) line)))
          key).map (jsontaoCell lib (stod dbl)) =
        (csvMember (csvHeaders text) line key).map (jsontaoCell lib (stod dbl)) ↔
      if key = last then csvMember (csvHeaders text) line key ≠ some []
      else csvMember (csvHeaders text) line key = none ↔ key ∉ keys := by
  have hmember := csvMember_csvJoin_eq_some_iff hkeys
    (List.ne_nil_of_mem (List.mem_of_getLast? hlast))
    (fun key _ => isCell_savedMember hlib hdouble hline key) key
  set reread := csvMember keys
    (csvJoin (keys.map (savedMember lib dbl (csvHeaders text) line))) key
  have hlastKey : keys.getLast? = some key ↔ key = last := by
    rw [hlast, Option.some.injEq, eq_comm]
  cases hcell : csvMember (csvHeaders text) line key with
  | none =>
    rw [savedMember, hcell, Option.elim_none, hlastKey] at hmember
    rw [Option.map_none, Option.map_eq_none_iff, Option.eq_none_iff_forall_not_mem]
    simp only [Option.mem_def, hmember]
    by_cases hkey : key = last
    · simp [hkey]
    · simp [hkey]
  | some cell =>
    obtain ⟨-, hread, hempty, -⟩ := readAlike_savedCell hlib
      (isCell_of_mem_csvCells (lineBreak_notMem_csvLinesBehind hline) (mem_of_csvMember hcell).2)
      (hdouble line hline key cell hcell)
    rw [savedMember, hcell, Option.elim_some, hlastKey, hempty] at hmember
    have hsame : reread.map (jsontaoCell lib (stod dbl)) =
        some (jsontaoCell lib (stod dbl) cell) ↔
          key ∈ keys ∧ ¬ (key = last ∧ cell = []) := by
      constructor
      · intro hmap
        obtain ⟨cell', hcell', -⟩ := Option.map_eq_some_iff.1 hmap
        exact ⟨((hmember cell').1 hcell').1, ((hmember cell').1 hcell').2.1⟩
      · rintro ⟨hkey, hnot⟩
        rw [(hmember _).2 ⟨hkey, hnot, rfl⟩, Option.map_some]
        exact congrArg some hread
    rw [Option.map_some, hsame]
    by_cases hkey : key = last
    · simp [hkey, List.mem_of_getLast? hlast]
    · simp [hkey]

/-- A line is read again as it was when its empty cells are not in the last column, and it has the
columns of the others. -/
theorem reread_object_iff (hdouble : DoublesWritten lib dbl text) {line : Bytes}
    (hline : line ∈ csvLinesBehind text) {keys : List Bytes} (hkeys : keys.Nodup)
    {last : Bytes} (hlast : keys.getLast? = some last) :
    csvObject lib (stod dbl) keys
        (csvJoin (keys.map (savedMember lib dbl (csvHeaders text) line))) =
        csvObject lib (stod dbl) (csvHeaders text) line ↔
      csvMember (csvHeaders text) line last ≠ some [] ∧
        ∀ key, key ≠ last → (csvMember (csvHeaders text) line key = none ↔ key ∉ keys) := by
  rw [csvObject_eq_iff hlib.toLawfulNumbers]
  simp only [reread_member_iff hlib hdouble hline hkeys hlast]
  constructor
  · intro h
    refine ⟨?_, fun key hkey => ?_⟩
    · have hmember := h last
      rwa [if_pos rfl] at hmember
    · have hmember := h key
      rwa [if_neg hkey] at hmember
  · rintro ⟨hmember, hothers⟩ key
    split
    · next hkey => rwa [hkey]
    · next hkey => exact hothers key hkey

theorem csvKeys_spec (dbl : Doubles D) (text line : Bytes) :
    (csvKeys lib dbl text line).Pairwise (· ≤ ·) ∧ (csvKeys lib dbl text line).Nodup ∧
      ∀ key, key ∈ csvKeys lib dbl text line ↔ csvMember (csvHeaders text) line key ≠ none := by
  obtain ⟨hobject, hfind⟩ :=
    find_csvObject hlib.toLawfulNumbers (stod dbl) (csvHeaders text) line
  refine ⟨hlib.keys_sorted _ hobject, hlib.keys_nodup _ hobject, fun key => ?_⟩
  rw [csvKeys, hlib.mem_keys _ key hobject, hfind, Ne, Option.map_eq_none_iff]

/-- The names in the first line of what is saved are read as they are. -/
theorem map_trim_csvKeys (dbl : Doubles D) (text line : Bytes) :
    (getlines 0x2c (csvJoin (csvKeys lib dbl text line))).map (trim (str " \t\r\n")) =
      rereadKeys lib dbl text line := by
  rw [rereadKeys]
  obtain ⟨-, -, hmem⟩ := csvKeys_spec hlib dbl text line
  have hname : ∀ key ∈ csvKeys lib dbl text line, 0x2c ∉ key ∧
      trim (str " \t\r\n") key = key := by
    intro key hkey
    obtain ⟨cell, hcell⟩ := Option.ne_none_iff_exists'.1 ((hmem key).1 hkey)
    obtain ⟨hcomma, -, htrim⟩ := csvHeaders_spec (mem_of_csvMember hcell).1
    exact ⟨hcomma, htrim⟩
  have htrim : ∀ l : List Bytes, (∀ key ∈ l, key ∈ csvKeys lib dbl text line) →
      l.map (trim (str " \t\r\n")) = l :=
    fun l hl => (List.map_congr_left fun key hkey => (hname key (hl key hkey)).2).trans
      (List.map_id' _)
  by_cases hne : csvKeys lib dbl text line = []
  · rw [hne]
    rfl
  · rw [getlines_csvJoin_eq hne fun key hkey => (hname key hkey).1]
    split
    · exact htrim _ fun key hkey => List.mem_of_mem_dropLast hkey
    · exact htrim _ fun key hkey => hkey

theorem rowCells_csvObject (dbl : Doubles D) (headers keys : List Bytes) (line : Bytes) :
    rowCells lib keys (csvObject lib (stod dbl) headers line) =
      keys.map (savedMember lib dbl headers line) := by
  refine List.map_congr_left fun key _ => ?_
  rw [(find_csvObject hlib.toLawfulNumbers (stod dbl) headers line).2, savedMember]
  cases csvMember headers line key <;> rfl

/-- **The lines of what is saved**: the names of the first object, and the texts of the members of
all objects that have these names. -/
theorem getlines_savedText (hdouble : DoublesWritten lib dbl text) {first : Bytes}
    {rest : List Bytes} (hlines : csvLinesBehind text = first :: rest) :
    getlines 0x0a (savedText lib dbl text) =
      csvJoin (csvKeys lib dbl text first) ::
        (first :: rest).map (savedLine lib dbl text first) := by
  obtain ⟨-, -, hmem⟩ := csvKeys_spec hlib dbl text first
  have hall : ∀ line ∈ csvJoin (csvKeys lib dbl text first) ::
      (first :: rest).map (savedLine lib dbl text first), 0x0a ∉ line := by
    refine List.forall_mem_cons.2 ⟨notMem_csvJoin (by decide) fun key hkey => ?_,
      List.forall_mem_map.2 fun line hline => notMem_csvJoin (by decide) ?_⟩
    · obtain ⟨cell, hcell⟩ := Option.ne_none_iff_exists'.1 ((hmem key).1 hkey)
      exact (csvHeaders_spec (mem_of_csvMember hcell).1).2.1
    · rw [List.forall_mem_map]
      exact fun key _ => (isCell_savedMember hlib hdouble (hlines ▸ hline) key).lineBreak
  have htext : savedText lib dbl text = (csvJoin (csvKeys lib dbl text first) ::
      (first :: rest).map (savedLine lib dbl text first)).flatMap fun line =>
        line ++ [0x0a] := by
    have helements := (jsontaoTable_elements hlib.toLawfulNumbers (stod dbl) text).2
    have hfirst : lib.firstObj (jsontaoTable lib (stod dbl) text) =
        csvObject lib (stod dbl) (csvHeaders text) first := by
      rw [Taojson.firstObj, helements, hlines, List.map_cons, List.headD_cons]
    rw [savedText, csvText, hfirst, helements, hlines]
    simp only [List.flatMap_cons, List.map_map, List.flatMap_map, Function.comp_def,
      rowCells_csvObject hlib, savedLine, csvKeys]
  rw [htext, getlines_flatMap hall]

theorem csvHeaders_savedText (hdouble : DoublesWritten lib dbl text) {first : Bytes}
    {rest : List Bytes} (hlines : csvLinesBehind text = first :: rest) :
    csvHeaders (savedText lib dbl text) = rereadKeys lib dbl text first := by
  rw [csvHeaders, getlines_savedText hlib hdouble hlines, List.headD_cons, map_trim_csvKeys hlib]

theorem csvLinesBehind_savedText (hdouble : DoublesWritten lib dbl text) {first : Bytes}
    {rest : List Bytes} (hlines : csvLinesBehind text = first :: rest) :
    csvLinesBehind (savedText lib dbl text) =
      (first :: rest).map (savedLine lib dbl text first) := by
  rw [csvLinesBehind, getlines_savedText hlib hdouble hlines, List.tail_cons]

/-- A table is read again as it was when its objects are. -/
theorem reread_table_iff (hdouble : DoublesWritten lib dbl text) {first : Bytes}
    {rest : List Bytes} (hlines : csvLinesBehind text = first :: rest) :
    jsontaoTable lib (stod dbl) (savedText lib dbl text) =
        jsontaoTable lib (stod dbl) text ↔
      ∀ line ∈ first :: rest,
        csvObject lib (stod dbl) (rereadKeys lib dbl text first)
            (savedLine lib dbl text first line) =
          csvObject lib (stod dbl) (csvHeaders text) line := by
  obtain ⟨harray, helements⟩ := jsontaoTable_elements hlib.toLawfulNumbers (stod dbl) text
  obtain ⟨harray', helements'⟩ :=
    jsontaoTable_elements hlib.toLawfulNumbers (stod dbl) (savedText lib dbl text)
  rw [csvHeaders_savedText hlib hdouble hlines, csvLinesBehind_savedText hlib hdouble hlines,
    List.map_map] at helements'
  rw [hlines] at helements
  constructor
  · intro hsame
    rw [hsame, helements, List.map_inj_left] at helements'
    exact fun line hline => (helements' line hline).symm
  · intro hsame
    refine hlib.array_ext _ _ harray' harray ?_
    rw [helements, helements', List.map_inj_left]
    exact hsame

/-- Nothing is read from a line when there are no names. -/
theorem csvObject_nil_eq_iff (dbl : Doubles D) (s : Bytes) (headers : List Bytes) (line : Bytes) :
    csvObject lib (stod dbl) [] s = csvObject lib (stod dbl) headers line ↔
      ∀ key, csvMember headers line key = none := by
  rw [csvObject_eq_iff hlib.toLawfulNumbers]
  refine forall_congr' fun key => ?_
  rw [show csvMember [] s key = none from rfl, Option.map_none, eq_comm, Option.map_eq_none_iff]

theorem rereadKeys_cases (dbl : Doubles D) (text first : Bytes) :
    (rereadKeys lib dbl text first = [] ∧
        ∀ last, last ≠ [] → (csvKeys lib dbl text first).getLast? ≠ some last) ∨
      ∃ last, last ≠ [] ∧ (csvKeys lib dbl text first).getLast? = some last ∧
        rereadKeys lib dbl text first = csvKeys lib dbl text first := by
  obtain ⟨hsorted, hnodup, -⟩ := csvKeys_spec hlib dbl text first
  rw [rereadKeys]
  cases hlast : (csvKeys lib dbl text first).getLast? with
  | none => exact Or.inl ⟨List.getLast?_eq_none_iff.1 hlast, fun last _ h => by cases h⟩
  | some last =>
    by_cases hne : last = []
    · subst hne
      rw [if_pos rfl]
      exact Or.inl ⟨dropLast_eq_nil_of_pairwise hsorted hnodup hlast,
        fun last hne h => hne (Option.some.inj h).symm⟩
    · rw [if_neg fun h => hne (Option.some.inj h)]
      exact Or.inr ⟨last, hne, rfl, rfl⟩

/-- **The tables that are read again as they were.** -/
theorem reread_table_iff_settled (hdouble : DoublesWritten lib dbl text)
    (hlines : csvLinesBehind text ≠ []) :
    jsontaoTable lib (stod dbl) (savedText lib dbl text) =
      jsontaoTable lib (stod dbl) text ↔ Settled text := by
  obtain ⟨first, rest, hlines⟩ := List.exists_cons_of_ne_nil hlines
  obtain ⟨hsorted, hnodup, hmem⟩ := csvKeys_spec hlib dbl text first
  have hnone : ∀ key, csvMember (csvHeaders text) first key = none ↔
      key ∉ csvKeys lib dbl text first := fun key => by rw [hmem, not_not]
  -- the last name of the first object
  have hlast : ∀ last, (csvKeys lib dbl text first).getLast? = some last ↔
      csvMember (csvHeaders text) first last ≠ none ∧
        ∀ key, csvMember (csvHeaders text) first key ≠ none → key ≤ last := by
    intro last
    rw [getLast?_eq_some_iff_of_pairwise hsorted, hmem]
    simp only [hmem]
  rw [reread_table_iff hlib hdouble hlines]
  obtain ⟨hnil, hname⟩ | ⟨last, hne, hkeys, hreread⟩ := rereadKeys_cases hlib dbl text first
  · rw [hnil]
    simp only [csvObject_nil_eq_iff hlib]
    constructor
    · exact fun h => ⟨first, rest, hlines, Or.inl h⟩
    · rintro ⟨first', rest', hlines', hsettled⟩
      obtain ⟨rfl, rfl⟩ := List.cons.inj (hlines.symm.trans hlines')
      obtain hempty | ⟨last, hne, hmember, hle, -⟩ := hsettled
      · exact hempty
      · exact absurd ((hlast last).2 ⟨hmember, hle⟩) (hname last hne)
  · obtain ⟨hmember, hle⟩ := (hlast last).1 hkeys
    rw [hreread]
    constructor
    · intro h
      refine ⟨first, rest, hlines, Or.inr ⟨last, hne, hmember, hle, fun line hline => ?_⟩⟩
      obtain ⟨hfull, hothers⟩ :=
        (reread_object_iff hlib hdouble (hlines ▸ hline) hnodup hkeys).1 (h line hline)
      exact ⟨hfull, fun key hkey => (hothers key hkey).trans (hnone key).symm⟩
    · rintro ⟨first', rest', hlines', hsettled⟩ line hline
      obtain ⟨rfl, rfl⟩ := List.cons.inj (hlines.symm.trans hlines')
      obtain hempty | ⟨last', -, hmember', hle', hcolumns⟩ := hsettled
      · exact absurd (hempty first (List.mem_cons_self ..) last) hmember
      · obtain rfl : last = last' :=
          Option.some.inj (hkeys.symm.trans ((hlast last').2 ⟨hmember', hle'⟩))
        obtain ⟨hfull, hothers⟩ := hcolumns line hline
        exact (reread_object_iff hlib hdouble (hlines ▸ hline) hnodup hkeys).2
          ⟨hfull, fun key hkey => (hothers key hkey).trans (hnone key)⟩

/-! ### Files that are read again -/

/-- A table that has been read is saved when there is a line behind the first one. -/
theorem jsontaoSaveToCsv_jsontaoTable (dbl : Doubles D) (text : Bytes) {d : Disk}
    (hd : d.Faultless) (path : Path) :
    (csvLinesBehind text ≠ [] →
      ∃ d', jsontaoSaveToCsv lib (jsontaoTable lib (stod dbl) text) path d = some (1, d') ∧
        d'.Faultless ∧ d'.files (cString path) = some (savedText lib dbl text)) ∧
      (csvLinesBehind text = [] → ∀ d',
        jsontaoSaveToCsv lib (jsontaoTable lib (stod dbl) text) path d ≠ some (1, d')) := by
  obtain ⟨harray, helements⟩ := jsontaoTable_elements hlib.toLawfulNumbers (stod dbl) text
  have hobjects : ∀ row ∈ lib.getArray (jsontaoTable lib (stod dbl) text),
      lib.isObject row = true := by
    rw [helements, List.forall_mem_map]
    exact fun line _ => (find_csvObject hlib.toLawfulNumbers (stod dbl) _ line).1
  constructor
  · intro hne
    refine jsontaoSaveToCsv_apply hd harray ?_ hobjects path
    rwa [helements, Ne, List.map_eq_nil_iff]
  · intro hlines d' hsave
    have hnot : ¬ lib.Saveable (jsontaoTable lib (stod dbl) text) := by
      intro h
      refine h.2.1 ?_
      rw [helements, hlines, List.map_nil]
    obtain ⟨code, hcode, hrejected⟩ :=
      jsontaoSaveToCsv_of_not_saveable hd.nextFault hnot path
    obtain ⟨rfl, -⟩ := Prod.mk.inj (Option.some.inj (hsave.symm.trans hrejected))
    omega

/-- **The files of which the same table is read again.** Without faults, a file is read, what has
been read is saved, to the same file or to another one, and is read from there again. Then it is
the same exactly when the file is settled. -/
theorem csvReread_iff (hdouble : DoublesWritten lib dbl text) {d : Disk}
    (hd : d.Faultless) {path : Path} (hfile : d.files (cString path) = some text) (path' : Path) :
    (∃ v d₁ d₂ d₃, jsontaoFromCsvFile lib (stod dbl) path d = some (v, d₁) ∧
      jsontaoSaveToCsv lib v path' d₁ = some (1, d₂) ∧
      jsontaoFromCsvFile lib (stod dbl) path' d₂ = some (v, d₃)) ↔ Settled text := by
  obtain ⟨d₁, hread, hd₁⟩ := jsontaoFromCsvFile_apply lib (stod dbl) hd hfile
  obtain ⟨hsaved, hrejected⟩ := jsontaoSaveToCsv_jsontaoTable hlib dbl text hd₁ path'
  by_cases hlines : csvLinesBehind text = []
  · refine iff_of_false ?_ ?_
    · rintro ⟨v, d₁', d₂, d₃, hread', hsave, -⟩
      obtain ⟨rfl, rfl⟩ := Prod.mk.inj (Option.some.inj (hread.symm.trans hread'))
      exact hrejected hlines d₂ hsave
    · rintro ⟨first, rest, hcons, -⟩
      exact List.cons_ne_nil _ _ (hcons.symm.trans hlines)
  · obtain ⟨d₂, hsave, hd₂, hfile'⟩ := hsaved hlines
    obtain ⟨d₃, hreread, -⟩ := jsontaoFromCsvFile_apply lib (stod dbl) hd₂ hfile'
    rw [← reread_table_iff_settled hlib hdouble hlines]
    constructor
    · rintro ⟨v, d₁', d₂', d₃', hread', hsave', hreread'⟩
      obtain ⟨rfl, rfl⟩ := Prod.mk.inj (Option.some.inj (hread.symm.trans hread'))
      obtain ⟨-, rfl⟩ := Prod.mk.inj (Option.some.inj (hsave.symm.trans hsave'))
      exact (Prod.mk.inj (Option.some.inj (hreread.symm.trans hreread'))).1
    · intro hsame
      exact ⟨_, d₁, d₂, d₃, hread, hsave, hreread.trans (congrArg some (Prod.ext hsame rfl))⟩

end Reread

/-! ### A file that is read again -/

/-- Doubles of which every one is a rational number, for files with numbers only. -/
def Doubles.rational : Doubles ℚ where
  round negative value := some (if negative then -value else value)
  infinity _ := 0
  nan _ := 0

/-- A list of parts. -/
def stockText : Bytes := str "item,size\nbolt,12\nnut,1.50\n"

theorem stod_oneAndAHalf : stod Doubles.rational (str "1.50") = some (3 / 2) ∧
    stod Doubles.rational (str "1.5") = some (3 / 2) := by
  have hlong : DecimalNumeral (str "1.50") false (decimal (str "150") * 10 ^ (0 - 2 : ℤ)) :=
    ⟨[], str "1", str ".50", [], str "50", 0, rfl, .absent, ⟨by decide, by decide⟩,
      .present ⟨by decide, by decide⟩, .absent, rfl⟩
  have hshort : DecimalNumeral (str "1.5") false (decimal (str "15") * 10 ^ (0 - 1 : ℤ)) :=
    ⟨[], str "1", str ".5", [], str "5", 0, rfl, .absent, ⟨by decide, by decide⟩,
      .present ⟨by decide, by decide⟩, .absent, rfl⟩
  rw [hlong.stod_eq, hshort.stod_eq, show decimal (str "150") = 150 by decide,
    show decimal (str "15") = 15 by decide]
  constructor
  · refine congrArg some ?_
    norm_num
  · refine congrArg some ?_
    norm_num

theorem doublesWritten_stockText :
    DoublesWritten (Json.taojsonNumbers fun _ => str "1.5") Doubles.rational stockText := by
  rintro line hline key cell hcell x ⟨hfloat, hread⟩
  have hlines : csvLinesBehind stockText = [str "bolt,12", str "nut,1.50"] := by decide
  have hcells : csvCells (str "bolt,12") = [str "bolt", str "12"] ∧
      csvCells (str "nut,1.50") = [str "nut", str "1.50"] := by decide
  have hmem := (mem_of_csvMember hcell).2
  rw [hlines, List.mem_pair] at hline
  -- the only cell with a point
  have hpoint : cell = str "1.50" := by
    obtain rfl | rfl := hline
    · rw [hcells.1, List.mem_pair] at hmem
      obtain rfl | rfl := hmem <;> exact absurd hfloat (by decide)
    · rw [hcells.2, List.mem_pair] at hmem
      obtain rfl | rfl := hmem
      · exact absurd hfloat (by decide)
      · rfl
  rw [hpoint, stod_oneAndAHalf.1, Option.some.injEq] at hread
  subst hread
  refine ⟨⟨by decide, fun c hc => ?_⟩, show LooksFloating (str "1.5") by decide,
    stod_oneAndAHalf.2⟩
  have hchars : (str "1.5").all (fun c => isdigit c || (str "+-.eE").contains c) = true := by
    decide
  simpa using List.all_eq_true.1 hchars c hc

theorem settled_stockText : Settled stockText := by
  have hheaders : csvHeaders stockText = [str "item", str "size"] := by decide
  refine ⟨str "bolt,12", [str "nut,1.50"], by decide, Or.inr ⟨str "size", by decide, by decide,
    fun key hkey => ?_, fun line hline => ⟨?_, fun key hkey => ?_⟩⟩⟩
  · obtain ⟨cell, hcell⟩ := Option.ne_none_iff_exists'.1 hkey
    have hmem := (mem_of_csvMember hcell).1
    rw [hheaders, List.mem_pair] at hmem
    obtain rfl | rfl := hmem <;> decide
  · obtain rfl | rfl := List.mem_pair.1 hline <;> decide
  · by_cases hitem : key = str "item"
    · subst hitem
      obtain rfl | rfl := List.mem_pair.1 hline <;> decide
    · have hnone : ∀ line, csvMember (csvHeaders stockText) line key = none := by
        intro line
        by_contra hmember
        obtain ⟨cell, hcell⟩ := Option.ne_none_iff_exists'.1 hmember
        have hmem := (mem_of_csvMember hcell).1
        rw [hheaders, List.mem_pair] at hmem
        exact hmem.elim hitem hkey
      rw [hnone, hnone]

/-- A list of parts is read, saved to another file, and read again. -/
theorem csvReread_stock : ∃ v d₁ d₂ d₃,
    jsontaoFromCsvFile (Json.taojsonNumbers fun _ => str "1.5") (stod Doubles.rational)
      (str "stock.csv") (Disk.single (str "stock.csv") stockText) = some (v, d₁) ∧
    jsontaoSaveToCsv (Json.taojsonNumbers fun _ => str "1.5") v (str "copy.csv") d₁ =
      some (1, d₂) ∧
    jsontaoFromCsvFile (Json.taojsonNumbers fun _ => str "1.5") (stod Doubles.rational)
      (str "copy.csv") d₂ = some (v, d₃) :=
  (csvReread_iff (Json.lawfulTexts _) doublesWritten_stockText (Disk.faultless_single _ _)
    (Disk.single_files _ _) (str "copy.csv")).2 settled_stockText

end Behh
