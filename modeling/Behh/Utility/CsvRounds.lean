import Behh.Library.Descent
import Behh.Utility.CsvReread

/-!
# CSV files that are read and saved again and again

A round reads a CSV file and saves what has been read to it. A table that does not come back may
lose the member in its last column, and then the one in the column before it, and so on. But a
round that does not settle the file takes a name away from the first object. So after at most as
many rounds as there are names, and two more, the file does not change any more.

## Main definitions

* `csvRounds`: rounds of reading and saving.
* `Rereadable`: the files of which a round leaves one.

## Main results

* `settled_or_length_lt`: a round settles a file or takes a name away.
* `csvRounds_settle`: the rounds come to an end.
-/

namespace Behh

variable {D V : Type} {lib : Taojson D V} {dbl : Doubles D} {text first : Bytes}
  {rest : List Bytes}

/-! ### What a round leaves -/

section Round

variable (hlib : lib.LawfulTexts) (hdouble : DoublesWritten lib dbl text)
  (hlines : csvLinesBehind text = first :: rest)
include hlib hdouble hlines

/-- The members of the lines that are saved: none when no name is left, and else
those of the first object, without an empty one in the last column. -/
theorem csvMember_savedText :
    (∀ line key, csvMember (csvHeaders (savedText lib dbl text))
        (savedLine lib dbl text first line) key = none) ∨
      ∃ last, last ≠ [] ∧ (csvKeys lib dbl text first).getLast? = some last ∧
        ∀ line ∈ first :: rest, ∀ key cell,
          csvMember (csvHeaders (savedText lib dbl text))
              (savedLine lib dbl text first line) key = some cell ↔
            key ∈ csvKeys lib dbl text first ∧
              ¬ (key = last ∧ savedMember lib dbl (csvHeaders text) line key = []) ∧
              cell = savedMember lib dbl (csvHeaders text) line key := by
  rw [csvHeaders_savedText hlib hdouble hlines]
  obtain hnil | ⟨last, hne, hlast, hkeys⟩ := rereadKeys_cases hlib dbl text first
  · rw [hnil.1]
    exact Or.inl fun line key => rfl
  · refine Or.inr ⟨last, hne, hlast, fun line hline key cell => ?_⟩
    have hmember := csvMember_csvJoin_eq_some_iff (csvKeys_spec hlib dbl text first).2.1
      (List.ne_nil_of_mem (List.mem_of_getLast? hlast))
      (fun key _ => isCell_savedMember hlib hdouble (hlines ▸ hline) key) key cell
    rw [hlast, Option.some.injEq, eq_comm (a := last)] at hmember
    rw [hkeys]
    exact hmember

/-- What is saved has doubles that come back as well. -/
theorem doublesWritten_savedText :
    DoublesWritten lib dbl (savedText lib dbl text) := by
  intro line' hline' key cell hcell x hx
  rw [csvLinesBehind_savedText hlib hdouble hlines] at hline'
  obtain ⟨line, hline, rfl⟩ := List.mem_map.1 hline'
  obtain hnone | ⟨last, -, -, hmember⟩ := csvMember_savedText hlib hdouble hlines
  · rw [hnone] at hcell
    cases hcell
  · obtain ⟨-, -, rfl⟩ := (hmember line hline key cell).1 hcell
    rw [savedMember] at hx
    cases hread : csvMember (csvHeaders text) line key with
    | none =>
      rw [hread, Option.elim_none] at hx
      exact absurd hx.1 (by simp [LooksFloating])
    | some cell =>
      have hsame := (readAlike_savedCell hlib
        (isCell_of_mem_csvCells (lineBreak_notMem_csvLinesBehind (hlines ▸ hline))
          (mem_of_csvMember hread).2) (hdouble line (hlines ▸ hline) key cell hread)).double
      rw [hread, Option.elim_some] at hx
      exact hdouble line (hlines ▸ hline) key cell hread x (hsame x hx)

/-- **A round settles a file**, or takes a name away from the first object. -/
theorem settled_or_length_lt : Settled (savedText lib dbl text) ∨
    (csvKeys lib dbl (savedText lib dbl text)
      (savedLine lib dbl text first first)).length < (csvKeys lib dbl text first).length := by
  have hlines' := csvLinesBehind_savedText hlib hdouble hlines
  have hfirst : first ∈ first :: rest := List.mem_cons_self ..
  obtain hnone | ⟨last, hne, hlast, hmember⟩ := csvMember_savedText hlib hdouble hlines
  · refine Or.inl ⟨_, _, hlines', Or.inl ?_⟩
    rw [← List.map_cons, List.forall_mem_map]
    exact fun line _ key => hnone line key
  · have hnone : ∀ line ∈ first :: rest, ∀ key,
        csvMember (csvHeaders (savedText lib dbl text))
            (savedLine lib dbl text first line) key = none ↔
          ¬ (key ∈ csvKeys lib dbl text first ∧
            ¬ (key = last ∧ savedMember lib dbl (csvHeaders text) line key = [])) := by
      intro line hline key
      rw [Option.eq_none_iff_forall_ne_some]
      simp only [Ne, hmember line hline key]
      exact ⟨fun h hmem => h _ ⟨hmem.1, hmem.2, rfl⟩, fun h cell hmem => h ⟨hmem.1, hmem.2.1⟩⟩
    obtain ⟨hsorted, hnodup, -⟩ := csvKeys_spec hlib dbl text first
    obtain ⟨hlastMem, hle⟩ := (getLast?_eq_some_iff_of_pairwise hsorted).1 hlast
    by_cases hempty : savedMember lib dbl (csvHeaders text) first last = []
    · -- the first object has lost its last name
      right
      obtain ⟨-, hnodup', hmem'⟩ := csvKeys_spec hlib dbl (savedText lib dbl text)
        (savedLine lib dbl text first first)
      have hsubset : ∀ key ∈ csvKeys lib dbl (savedText lib dbl text)
          (savedLine lib dbl text first first),
            key ∈ (csvKeys lib dbl text first).erase last := by
        intro key hkey
        rw [hmem', Ne, hnone first hfirst, not_not] at hkey
        refine (hnodup.mem_erase_iff).2 ⟨?_, hkey.1⟩
        rintro rfl
        exact hkey.2 ⟨rfl, hempty⟩
      have hlength := (hnodup'.subperm hsubset).length_le
      have hpos := List.length_pos_of_mem hlastMem
      rw [List.length_erase_of_mem hlastMem] at hlength
      omega
    · refine Or.inl ⟨_, _, hlines', Or.inr ⟨last, hne, ?_, fun key hkey => ?_, ?_⟩⟩
      · rw [Ne, hnone first hfirst, not_not]
        exact ⟨hlastMem, fun h => hempty h.2⟩
      · rw [Ne, hnone first hfirst, not_not] at hkey
        exact hle key hkey.1
      · rw [← List.map_cons, List.forall_mem_map]
        intro line hline
        refine ⟨fun h => ?_, fun key hkey => ?_⟩
        · obtain ⟨-, hnot, hcell⟩ := (hmember line hline last []).1 h
          exact hnot ⟨rfl, hcell.symm⟩
        · rw [hnone line hline, hnone first hfirst]
          simp [hkey]

end Round

/-! ### Rounds -/

/-- Rounds of reading a file and saving to it what has been read. -/
def csvRounds (lib : Taojson D V) (stod : Bytes → Option D) (path : Path) :
    ℕ → Prog Disk Unit
  | 0 => pure ()
  | n + 1 => do
    csvRounds lib stod path n
    let input ← jsontaoFromCsvFile lib stod path
    let _ ← jsontaoSaveToCsv lib input path

/-- There is a line behind the first one, and the doubles come back. -/
def Rereadable (lib : Taojson D V) (dbl : Doubles D) (text : Bytes) : Prop :=
  DoublesWritten lib dbl text ∧ csvLinesBehind text ≠ []

/-- How many names the first object has. -/
def nameCount (lib : Taojson D V) (dbl : Doubles D) (text : Bytes) : ℕ :=
  (csvKeys lib dbl text ((csvLinesBehind text).headD [])).length

section Rounds

variable (hlib : lib.LawfulTexts)
include hlib

/-- **Every round** leaves a line behind the first one, and doubles that come back. -/
theorem Rereadable.savedText (h : Rereadable lib dbl text) :
    Rereadable lib dbl (savedText lib dbl text) := by
  obtain ⟨first, rest, hlines⟩ := List.exists_cons_of_ne_nil h.2
  refine ⟨doublesWritten_savedText hlib h.1 hlines, ?_⟩
  rw [csvLinesBehind_savedText hlib h.1 hlines]
  exact List.cons_ne_nil _ _

theorem Rereadable.iterate (h : Rereadable lib dbl text) (n : ℕ) :
    Rereadable lib dbl ((Behh.savedText lib dbl)^[n] text) :=
  Function.Iterate.rec _ h (fun _ => Rereadable.savedText hlib) n

theorem csvRounds_apply (h : Rereadable lib dbl text) {d : Disk} (hd : d.Faultless)
    {path : Path} (hfile : d.files (cString path) = some text) (n : ℕ) :
    ∃ d', csvRounds lib (stod dbl) path n d = some ((), d') ∧ d'.Faultless ∧
      d'.files (cString path) = some ((savedText lib dbl)^[n] text) := by
  induction n with
  | zero => exact ⟨d, rfl, hd, hfile⟩
  | succ n ih =>
    obtain ⟨d₁, hrun, hd₁, hfile₁⟩ := ih
    obtain ⟨d₂, hread, hd₂⟩ := jsontaoFromCsvFile_apply lib (stod dbl) hd₁ hfile₁
    obtain ⟨d₃, hsave, hd₃, hfile₃⟩ := (jsontaoSaveToCsv_jsontaoTable hlib dbl
      ((savedText lib dbl)^[n] text) hd₂ path).1 (h.iterate hlib n).2
    refine ⟨d₃, ?_, hd₃, ?_⟩
    · rw [csvRounds, Prog.bind_apply, hrun, Option.bind_some, Prog.bind_apply, hread,
        Option.bind_some, Prog.bind_apply]
      dsimp only
      rw [hsave]
      rfl
    · rw [hfile₃, Function.iterate_succ_apply']

theorem nameCount_le (dbl : Doubles D) (text : Bytes) :
    nameCount lib dbl text ≤ (csvHeaders text).length := by
  obtain ⟨-, hnodup, hmem⟩ := csvKeys_spec hlib dbl text ((csvLinesBehind text).headD [])
  refine (hnodup.subperm fun key hkey => ?_).length_le
  obtain ⟨cell, hcell⟩ := Option.ne_none_iff_exists'.1 ((hmem key).1 hkey)
  exact (mem_of_csvMember hcell).1

theorem settled_or_nameCount_lt (h : Rereadable lib dbl text) :
    Settled (savedText lib dbl text) ∨
      nameCount lib dbl (savedText lib dbl text) < nameCount lib dbl text := by
  obtain ⟨first, rest, hlines⟩ := List.exists_cons_of_ne_nil h.2
  have hstep := settled_or_length_lt hlib h.1 hlines
  rwa [nameCount, nameCount, csvLinesBehind_savedText hlib h.1 hlines, hlines]

/-- What is saved for a settled file is settled, and is saved again as it is. -/
theorem Settled.savedText (h : Rereadable lib dbl text) (hsettled : Settled text) :
    Settled (savedText lib dbl text) ∧
      Behh.savedText lib dbl (Behh.savedText lib dbl text) = Behh.savedText lib dbl text := by
  have htable := (reread_table_iff_settled hlib h.1 h.2).2 hsettled
  have hsaved : Behh.savedText lib dbl (Behh.savedText lib dbl text) =
      Behh.savedText lib dbl text := congrArg (csvText lib) htable
  have hagain := h.savedText hlib
  refine ⟨(reread_table_iff_settled hlib hagain.1 hagain.2).1 ?_, hsaved⟩
  rw [hsaved]

/-- **The rounds come to an end.** Without faults, a file with a line behind the first one is
settled after at most two rounds more than there are names, and no later round changes it. -/
theorem csvRounds_settle (h : Rereadable lib dbl text) {d : Disk} (hd : d.Faultless)
    {path : Path} (hfile : d.files (cString path) = some text) :
    ∃ n ≤ (csvHeaders text).length + 2, ∃ settled, Settled settled ∧ ∀ m ≥ n, ∃ d',
      csvRounds lib (stod dbl) path m d = some ((), d') ∧
        d'.files (cString path) = some settled := by
  obtain ⟨n, hn, hsettled, hfixed⟩ := @Descent.exists_iterate_fixed _ (savedText lib dbl)
    (Rereadable lib dbl) Settled (nameCount lib dbl) (fun _ => Rereadable.savedText hlib)
    (fun _ => settled_or_nameCount_lt hlib) (fun _ => Settled.savedText hlib) text h
  have hle := nameCount_le hlib dbl text
  refine ⟨n, by omega, _, hsettled, fun m hm => ?_⟩
  obtain ⟨d', hrun, -, hfile'⟩ := csvRounds_apply hlib h hd hfile m
  exact ⟨d', hrun, hfile'.trans (congrArg some (hfixed m hm))⟩

end Rounds

/-- A list of parts is saved again and again. -/
theorem csvRounds_settle_stock :
    ∃ n ≤ (csvHeaders stockText).length + 2, ∃ settled, Settled settled ∧ ∀ m ≥ n, ∃ d',
      csvRounds (Json.taojsonNumbers fun _ => str "1.5") (stod Doubles.rational)
        (str "stock.csv") m (Disk.single (str "stock.csv") stockText) = some ((), d') ∧
        d'.files (str "stock.csv") = some settled :=
  csvRounds_settle (Json.lawfulTexts _) ⟨doublesWritten_stockText, by decide⟩
    (Disk.faultless_single _ _) (Disk.single_files _ _)

end Behh
