import Behh.Std.Bytes
import Mathlib.Data.List.DropRight
import Mathlib.Data.List.TakeWhile

/-!
# Lines, blanks and numerals

The parts of the C++ library that take a text apart: `std::getline`, the character classes in the
C locale, `std::stoi` and `std::stoll`.

## Main definitions

* `getlines`: the texts that a loop over `std::getline` meets.
* `trim`: the idiom that erases blanks at both ends.
* `isspace`, `isdigit`, `toupper`: the functions of `<cctype>`.
* `strtol`, `stoi`, `stoll`, `stoull`: integers at the beginning of a text.

## Main results

* `getlines_flatMap`: what is written line by line is read line by line.
* `getlines_eq`: a loop over `std::getline` is a split without an empty text at its end.
* `strtol_digits`, `strtol_minus_digits`: a text of digits is read to its end.
-/

namespace Behh

theorem zero_notMem_cString (s : Bytes) : (0 : UInt8) ∉ cString s := by
  intro h
  simpa using List.mem_takeWhile_imp h

theorem cString_eq_self {s : Bytes} (h : 0 ∉ s) : cString s = s :=
  List.takeWhile_eq_self_iff.2 fun _ hc => decide_eq_true fun hzero => h (hzero ▸ hc)

/-- A text is read whole exactly when there is no NUL in it. -/
theorem length_cString_eq_iff {s : Bytes} : (cString s).length = s.length ↔ 0 ∉ s := by
  constructor
  · intro h hzero
    have hself : cString s = s := (List.takeWhile_prefix _).eq_of_length h
    rw [← hself] at hzero
    simpa using List.mem_takeWhile_imp hzero
  · intro h
    rw [cString_eq_self h]

theorem cString_append {s : Bytes} (h : 0 ∉ s) (t : Bytes) : cString (s ++ t) = s ++ cString t :=
  List.takeWhile_append_of_pos fun _ hc => decide_eq_true fun hzero => h (hzero ▸ hc)

/-! ### Lines -/

/-- The texts that `while (std::getline(stream, text, delim))` meets: what lies behind the last
delimiter counts unless it is empty. -/
def getlines (delim : UInt8) : Bytes → List Bytes
  | [] => []
  | c :: cs =>
    if c = delim then [] :: getlines delim cs
    else
      match getlines delim cs with
      | [] => [[c]]
      | line :: lines => (c :: line) :: lines

theorem getlines_append_cons {delim : UInt8} {line : Bytes} (h : delim ∉ line) (rest : Bytes) :
    getlines delim (line ++ delim :: rest) = line :: getlines delim rest := by
  induction line with
  | nil => rw [List.nil_append, getlines, if_pos rfl]
  | cons c line ih =>
    have hc : c ≠ delim := (List.ne_of_not_mem_cons h).symm
    rw [List.cons_append, getlines, if_neg hc, ih (List.not_mem_of_not_mem_cons h)]

/-- **Lines that are written are read.** Texts without the delimiter, each with the delimiter
behind it, are what a loop over `std::getline` meets. -/
theorem getlines_flatMap {delim : UInt8} {lines : List Bytes} (h : ∀ line ∈ lines, delim ∉ line) :
    getlines delim (lines.flatMap fun line => line ++ [delim]) = lines := by
  induction lines with
  | nil => rfl
  | cons line lines ih =>
    obtain ⟨hline, hlines⟩ := List.forall_mem_cons.1 h
    rw [List.flatMap_cons, List.append_assoc, List.singleton_append, getlines_append_cons hline,
      ih hlines]

theorem splitOn_cons_cases (delim c : UInt8) (cs : Bytes) :
    (c = delim ∧ (c :: cs).splitOn delim = [] :: cs.splitOn delim) ∨
      c ≠ delim ∧ ∃ first rest, cs.splitOn delim = first :: rest ∧
        (c :: cs).splitOn delim = (c :: first) :: rest := by
  rw [List.splitOn_cons_eq_if_modifyHead]
  by_cases hc : c = delim
  · exact Or.inl ⟨hc, if_pos (beq_iff_eq.2 hc)⟩
  · obtain ⟨first, rest, hsplit⟩ := List.exists_cons_of_ne_nil (List.splitOn_ne_nil delim cs)
    refine Or.inr ⟨hc, first, rest, hsplit, ?_⟩
    rw [if_neg (mt beq_iff_eq.1 hc), hsplit, List.modifyHead_cons]

/-- **A loop over `std::getline` is a split** that leaves out the last text when it is empty. -/
theorem getlines_eq (delim : UInt8) (s : Bytes) :
    getlines delim s =
      if (s.splitOn delim).getLast? = some [] then (s.splitOn delim).dropLast
      else s.splitOn delim := by
  induction s with
  | nil => rfl
  | cons c cs ih =>
    rw [getlines]
    obtain ⟨hc, hsplit⟩ | ⟨hc, first, rest, hcs, hsplit⟩ := splitOn_cons_cases delim c cs
    · obtain ⟨first, rest, hcs⟩ := List.exists_cons_of_ne_nil (List.splitOn_ne_nil delim cs)
      rw [if_pos hc, ih, hsplit, hcs, List.getLast?_cons_cons]
      split
      · rfl
      · rfl
    · rw [if_neg hc, ih, hsplit, hcs]
      cases rest with
      | nil => cases first <;> simp
      | cons second rest =>
        rw [List.getLast?_cons_cons, List.getLast?_cons_cons]
        by_cases hlast : (second :: rest).getLast? = some []
        · rw [if_pos hlast, if_pos hlast]
          rfl
        · rw [if_neg hlast, if_neg hlast]

/-- A split has one text more than there are delimiters. -/
theorem length_splitOn (delim : UInt8) (s : Bytes) :
    (s.splitOn delim).length = s.count delim + 1 := by
  induction s with
  | nil => rfl
  | cons c cs ih =>
    obtain ⟨rfl, hsplit⟩ | ⟨hc, first, rest, hcs, hsplit⟩ := splitOn_cons_cases delim c cs
    · rw [hsplit, List.length_cons, ih, List.count_cons_self]
    · rw [hsplit, List.count_cons_of_ne hc, ← ih, hcs]
      rfl

/-- The last text of a split is empty when a delimiter ends the text, or nothing is in it. -/
theorem getLast?_splitOn_iff (delim : UInt8) (s : Bytes) :
    (s.splitOn delim).getLast? = some [] ↔ s = [] ∨ s.getLast? = some delim := by
  induction s with
  | nil => exact iff_of_true rfl (Or.inl rfl)
  | cons c cs ih =>
    rw [or_iff_right (List.cons_ne_nil c cs)]
    obtain ⟨rfl, hsplit⟩ | ⟨hc, first, rest, hcs, hsplit⟩ := splitOn_cons_cases delim c cs
    · obtain ⟨first, rest, hcs⟩ := List.exists_cons_of_ne_nil (List.splitOn_ne_nil c cs)
      rw [hsplit, hcs, List.getLast?_cons_cons, ← hcs, ih]
      cases cs with
      | nil => simp
      | cons d cs => rw [List.getLast?_cons_cons, or_iff_right (List.cons_ne_nil d cs)]
    · cases cs with
      | nil =>
        obtain ⟨rfl, rfl⟩ := List.cons.inj (hcs.symm.trans (List.splitOn_nil delim))
        simp [hsplit, hc]
      | cons d cs =>
        rw [or_iff_right (List.cons_ne_nil d cs), hcs] at ih
        rw [hsplit, List.getLast?_cons_cons, ← ih]
        cases rest with
        | cons second rest => rw [List.getLast?_cons_cons, List.getLast?_cons_cons]
        | nil =>
          have hne : first ≠ [] := by
            rintro rfl
            have hjoin : [delim].intercalate ((d :: cs).splitOn delim) = d :: cs :=
              List.intercalate_splitOn delim
            rw [hcs] at hjoin
            exact List.cons_ne_nil d cs hjoin.symm
          simp [hne]

example : getlines 0x2c (str "a,,b,") = [str "a", [], str "b"] := by decide

/-- `s.erase(s.find_last_not_of(blanks) + 1); s.erase(0, s.find_first_not_of(blanks));`. -/
def trim (blanks s : Bytes) : Bytes :=
  (s.rdropWhile fun c => blanks.contains c).dropWhile fun c => blanks.contains c

/-! ### Characters -/

/-- `isspace`. -/
def isspace (c : UInt8) : Bool := c == 0x20 || (0x09 ≤ c && c ≤ 0x0d)

/-- `isdigit`. -/
def isdigit (c : UInt8) : Bool := 0x30 ≤ c && c ≤ 0x39

/-- `toupper`. -/
def toupper (c : UInt8) : UInt8 := if 0x61 ≤ c ∧ c ≤ 0x7a then c - 0x20 else c

/-- A text of one kind of characters is cut off in front of another kind. -/
theorem takeWhile_append_of_all {p : UInt8 → Bool} {s : Bytes} (h : s.all p = true)
    {rest : Bytes} (hrest : ∀ c, rest.head? = some c → p c = false) :
    (s ++ rest).takeWhile p = s ∧ (s ++ rest).dropWhile p = rest := by
  have hall := List.all_eq_true.1 h
  rw [List.takeWhile_append_of_pos hall, List.dropWhile_append_of_pos hall]
  cases rest with
  | nil => simp
  | cons c cs => simp [hrest c rfl]

/-! ### Integers -/

/-- The number that a text of digits denotes. -/
def decimal (digits : Bytes) : ℕ := digits.foldl (fun n c => 10 * n + (c.toNat - 0x30)) 0

/-- `strtol(s.c_str(), &end, 10)` for numbers of any size: the number, and how many characters
have been read; `none` when there is no number at the beginning of the text. -/
def strtol (s : Bytes) : Option (ℤ × ℕ) :=
  let t := s.dropWhile isspace
  let sign : ℤ := if t.head? = some 0x2d then -1 else 1
  let t := if t.head? = some 0x2d ∨ t.head? = some 0x2b then t.tail else t
  let digits := t.takeWhile isdigit
  if digits = [] then none
  else some (sign * decimal digits, s.length - t.length + digits.length)

/-- `std::stoi(s, &pos)`; `none` when it throws. -/
def stoi (s : Bytes) : Option (ℤ × ℕ) :=
  (strtol s).filter fun r => -2 ^ 31 ≤ r.1 && r.1 < 2 ^ 31

/-- `std::stoll(s, &pos)`; `none` when it throws. -/
def stoll (s : Bytes) : Option (ℤ × ℕ) :=
  (strtol s).filter fun r => -2 ^ 63 ≤ r.1 && r.1 < 2 ^ 63

/-- `std::stoull(s, &pos)`; `none` when it throws. A number behind a minus sign is taken modulo
`2 ^ 64`. -/
def stoull (s : Bytes) : Option (ℕ × ℕ) :=
  ((strtol s).filter fun r => r.1.natAbs < 2 ^ 64).map fun r => ((r.1 % 2 ^ 64).toNat, r.2)

theorem ne_sign_of_isdigit {c : UInt8} (h : isdigit c = true) :
    isspace c = false ∧ c ≠ 0x2d ∧ c ≠ 0x2b := by
  have hall : ∀ c : UInt8, isdigit c = true → isspace c = false ∧ c ≠ 0x2d ∧ c ≠ 0x2b :=
    forall_byte (by decide +kernel)
  exact hall c h

variable {digits : Bytes}

theorem strtol_digits (hne : digits ≠ []) (h : digits.all isdigit = true) :
    strtol digits = some ((decimal digits : ℤ), digits.length) := by
  obtain ⟨c, cs, rfl⟩ := List.exists_cons_of_ne_nil hne
  have hc := List.all_eq_true.1 h c (List.mem_cons_self ..)
  obtain ⟨hspace, hminus, hplus⟩ := ne_sign_of_isdigit hc
  have htake := List.takeWhile_eq_self_iff.2 (List.all_eq_true.1 h)
  simp [strtol, hspace, hminus, hplus, htake]

theorem strtol_minus_digits (hne : digits ≠ []) (h : digits.all isdigit = true) :
    strtol (0x2d :: digits) = some (-(decimal digits : ℤ), digits.length + 1) := by
  have htake := List.takeWhile_eq_self_iff.2 (List.all_eq_true.1 h)
  have hspace : isspace 0x2d = false := by decide
  simp [strtol, hspace, htake, hne, Nat.add_comm]

end Behh
