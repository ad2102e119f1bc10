import Behh.Std.HexText
import Behh.Std.Text
import Behh.Utility.Generate
import Mathlib.Data.List.Nodup

/-!
# Letter case

`string::to_another_letter_case` of `src/utility.cc`, lines 459–499. Mode 0 makes letters lower
case, mode 1 upper case, and mode 2 draws a number for every character and makes it lower or upper
case; with any other mode the text is returned as it is. The character functions are those of the C
locale, in which a character that is no ASCII letter is left alone.

## Main definitions

* `tolower`, `isalpha`: the functions of `<cctype>`.
* `toAnotherLetterCase`: the function.
* `letterCases`: the texts that differ from a text in the case of letters only.

## Main results

* `mem_letterCases_iff`, `length_letterCases`: the texts with the same lower-case form, and how
  many.
* `toAnotherLetterCase_mixed`: the texts that mode 2 can return.
* `toAnotherLetterCase_absorbs`: what was done to the case before makes no difference.
-/

namespace Behh

/-! ### Characters -/

/-- `tolower`. -/
def tolower (c : UInt8) : UInt8 := if 0x41 ≤ c ∧ c ≤ 0x5a then c + 0x20 else c

/-- `isalpha`. -/
def isalpha (c : UInt8) : Bool := (0x41 ≤ c && c ≤ 0x5a) || (0x61 ≤ c && c ≤ 0x7a)

theorem case_table : ∀ c : UInt8, tolower (toupper c) = tolower c ∧
    toupper (tolower c) = toupper c ∧ tolower (tolower c) = tolower c ∧
    isalpha (tolower c) = isalpha c ∧ (c = tolower c ∨ c = toupper c) ∧
    (isalpha c = true → tolower c ≠ toupper c) ∧ (isalpha c = false → tolower c = c) :=
  forall_byte (by decide +kernel)

theorem tolower_toupper (c : UInt8) : tolower (toupper c) = tolower c := (case_table c).1

theorem toupper_tolower (c : UInt8) : toupper (tolower c) = toupper c := (case_table c).2.1

theorem tolower_tolower (c : UInt8) : tolower (tolower c) = tolower c := (case_table c).2.2.1

theorem isalpha_tolower (c : UInt8) : isalpha (tolower c) = isalpha c := (case_table c).2.2.2.1

theorem eq_tolower_or_toupper (c : UInt8) : c = tolower c ∨ c = toupper c :=
  (case_table c).2.2.2.2.1

theorem tolower_ne_toupper (c : UInt8) : isalpha c = true → tolower c ≠ toupper c :=
  (case_table c).2.2.2.2.2.1

theorem tolower_of_not_isalpha (c : UInt8) : isalpha c = false → tolower c = c :=
  (case_table c).2.2.2.2.2.2

/-- The characters with the same lower-case form as a letter are its two cases; any other character
has that form alone. -/
theorem tolower_eq_tolower_iff {c c' : UInt8} : tolower c' = tolower c ↔
    if isalpha c then c' = tolower c ∨ c' = toupper c else c' = c := by
  split_ifs with h
  · constructor
    · intro heq
      rcases eq_tolower_or_toupper c' with hc | hc
      · exact .inl (hc.trans heq)
      · exact .inr (by rw [hc, ← toupper_tolower c', heq, toupper_tolower])
    · rintro (rfl | rfl)
      · exact tolower_tolower c
      · exact tolower_toupper c
  · rw [Bool.not_eq_true] at h
    constructor
    · intro heq
      have h' : isalpha c' = false := by rw [← isalpha_tolower, heq, isalpha_tolower, h]
      rwa [tolower_of_not_isalpha c' h', tolower_of_not_isalpha c h] at heq
    · exact congrArg tolower

/-! ### The function -/

variable {W : Type}

/-- One character of the loop of mode 2. -/
def toMixedCase (number : Numbers W) (c : UInt8) (w : W) : UInt8 × W :=
  let mixedcase := number 0 1 w
  (if mixedcase.1 = 0 ∧ isalpha c then tolower c
    else if mixedcase.1 = 1 ∧ isalpha c then toupper c
    else c, mixedcase.2)

/-- The loop of mode 2. -/
def appendMixedCase (number : Numbers W) : Bytes → Bytes → W → Bytes × W
  | [], result, w => (result, w)
  | c :: cs, result, w =>
    let r := toMixedCase number c w
    appendMixedCase number cs (result ++ [r.1]) r.2

/-- `string::to_another_letter_case`. -/
def toAnotherLetterCase (number : Numbers W) (input : Bytes) (mode : ℤ) (w : W) : Bytes × W :=
  match mode with
  | 0 => (input.map tolower, w)
  | 1 => (input.map toupper, w)
  | 2 => appendMixedCase number input [] w
  | _ => (input, w)

/-! ### Texts that differ in case -/

/-- The texts that differ from a text in the case of letters only. -/
def letterCases : Bytes → List Bytes
  | [] => [[]]
  | c :: cs =>
    if isalpha c then
      (letterCases cs).map (tolower c :: ·) ++ (letterCases cs).map (toupper c :: ·)
    else (letterCases cs).map (c :: ·)

theorem mem_map_cons_iff {c c' : UInt8} {cs : Bytes} {texts : List Bytes} :
    c' :: cs ∈ texts.map (c :: ·) ↔ c' = c ∧ cs ∈ texts := by
  rw [List.mem_map]
  constructor
  · rintro ⟨cs', hcs', heq⟩
    obtain ⟨rfl, rfl⟩ := List.cons.inj heq
    exact ⟨rfl, hcs'⟩
  · rintro ⟨rfl, hcs⟩
    exact ⟨cs, hcs, rfl⟩

/-- The texts that differ from the input in the case of letters only are those with the same
lower-case form. -/
theorem mem_letterCases_iff {input out : Bytes} :
    out ∈ letterCases input ↔ out.map tolower = input.map tolower := by
  induction input generalizing out with
  | nil => simp [letterCases]
  | cons c cs ih =>
    cases out with
    | nil =>
      rw [letterCases]
      split_ifs <;> simp
    | cons c' cs' =>
      rw [List.map_cons, List.map_cons, List.cons_eq_cons, tolower_eq_tolower_iff, ← ih,
        letterCases]
      by_cases h : isalpha c = true
      · rw [if_pos h, if_pos h, List.mem_append, mem_map_cons_iff, mem_map_cons_iff, or_and_right]
      · rw [if_neg h, if_neg h, mem_map_cons_iff]

theorem length_letterCases (input : Bytes) :
    (letterCases input).length = 2 ^ input.countP isalpha := by
  induction input with
  | nil => rfl
  | cons c cs ih =>
    rw [letterCases, List.countP_cons]
    split_ifs with h
    · rw [List.length_append, List.length_map, List.length_map, ih, pow_succ]
      omega
    · rw [List.length_map, ih]
      rfl

theorem nodup_letterCases (input : Bytes) : (letterCases input).Nodup := by
  induction input with
  | nil => exact List.nodup_singleton []
  | cons c cs ih =>
    have hcons : ∀ c : UInt8, ((letterCases cs).map (c :: ·)).Nodup := fun c =>
      ih.map (List.cons_injective)
    rw [letterCases]
    split_ifs with h
    · refine (hcons _).append (hcons _) ?_
      rintro _ hlower hupper
      obtain ⟨cs₁, -, rfl⟩ := List.mem_map.1 hlower
      obtain ⟨cs₂, -, heq⟩ := List.mem_map.1 hupper
      exact tolower_ne_toupper c h (List.cons.inj heq).1.symm
    · exact hcons c

/-! ### The loop of mode 2 -/

theorem tolower_toMixedCase (number : Numbers W) (c : UInt8) (w : W) :
    tolower (toMixedCase number c w).1 = tolower c := by
  rw [toMixedCase]
  split_ifs
  · exact tolower_tolower c
  · exact tolower_toupper c
  · rfl

theorem map_tolower_appendMixedCase (number : Numbers W) (input result : Bytes) (w : W) :
    (appendMixedCase number input result w).1.map tolower =
      result.map tolower ++ input.map tolower := by
  induction input generalizing result w with
  | nil => exact (List.append_nil _).symm
  | cons c cs ih =>
    rw [appendMixedCase, ih, List.map_append, List.map_singleton, tolower_toMixedCase,
      List.append_assoc, List.singleton_append, List.map_cons]

/-- **No mode changes more than the case of letters.** -/
theorem map_tolower_toAnotherLetterCase (number : Numbers W) (input : Bytes) (mode : ℤ) (w : W) :
    (toAnotherLetterCase number input mode w).1.map tolower = input.map tolower := by
  unfold toAnotherLetterCase
  split
  · simp [tolower_tolower]
  · simp [tolower_toupper]
  · exact map_tolower_appendMixedCase number input [] w
  · rfl

/-- Numbers that are known beforehand, and the lower bound when there are none left or one is not
between the bounds. -/
def givenNumbers : Numbers (List ℤ)
  | min, _, [] => (min, [])
  | min, max, k :: ks => (if min ≤ k ∧ k ≤ max then k else min, ks)

theorem givenNumbers_inRange : Numbers.InRange givenNumbers := by
  intro min max w h
  cases w with
  | nil => exact ⟨le_refl _, h⟩
  | cons k ks =>
    rw [givenNumbers]
    split_ifs with hk
    · exact hk
    · exact ⟨le_refl _, h⟩

/-- The numbers that make `out` of a text in mode 2. -/
def numbersFor (out : Bytes) : List ℤ := out.map fun c => if c = tolower c then 0 else 1

theorem toMixedCase_numbersFor {c c' : UInt8} (h : tolower c' = tolower c) (cs : Bytes) :
    toMixedCase givenNumbers c (numbersFor (c' :: cs)) = (c', numbersFor cs) := by
  rw [tolower_eq_tolower_iff] at h
  have hlower : tolower c' = tolower c := tolower_eq_tolower_iff.2 h
  rw [toMixedCase, numbersFor, List.map_cons, givenNumbers]
  split_ifs at h with halpha
  · by_cases hc : c' = tolower c'
    · have hc' : c' = tolower c := hc.trans hlower
      simp [hc', tolower_tolower, halpha, numbersFor]
    · have hc' : c' = toupper c := h.resolve_left fun heq => hc (heq.trans hlower.symm)
      have hne : toupper c ≠ tolower (toupper c) := hc' ▸ hc
      simp [hc', hne, halpha, numbersFor]
  · subst h
    simp [halpha, numbersFor]

theorem appendMixedCase_numbersFor {input out : Bytes}
    (h : out.map tolower = input.map tolower) (result : Bytes) :
    (appendMixedCase givenNumbers input result (numbersFor out)).1 = result ++ out := by
  induction input generalizing out result with
  | nil =>
    obtain rfl : out = [] := by simpa using h
    exact (List.append_nil result).symm
  | cons c cs ih =>
    cases out with
    | nil => cases h
    | cons c' cs' =>
      obtain ⟨hc, hcs⟩ := List.cons.inj h
      rw [appendMixedCase, toMixedCase_numbersFor hc, ih hcs, List.append_assoc,
        List.singleton_append]

/-! ### What the function returns -/

/-- **The texts that mode 2 can return**, over all numbers that may be drawn, are the texts with the
same lower-case form as the input, which differ from it in the case of letters only. They are two to
the power of the number of letters. -/
theorem toAnotherLetterCase_mixed (input : Bytes) : ∃ outs : List Bytes, outs.Nodup ∧
    outs.length = 2 ^ input.countP isalpha ∧
    (∀ out, out ∈ outs ↔ out.map tolower = input.map tolower) ∧
    ∀ out, out ∈ outs ↔
      ∃ (W : Type) (number : Numbers W) (w : W), number.InRange ∧
        (toAnotherLetterCase number input 2 w).1 = out := by
  refine ⟨letterCases input, nodup_letterCases input, length_letterCases input,
    fun out => mem_letterCases_iff, fun out => ?_⟩
  rw [mem_letterCases_iff]
  constructor
  · intro h
    exact ⟨List ℤ, givenNumbers, numbersFor out, givenNumbers_inRange,
      appendMixedCase_numbersFor h []⟩
  · rintro ⟨W, number, w, -, rfl⟩
    exact map_tolower_toAnotherLetterCase number input 2 w

/-- **Case after case.** Whatever was done to the case before, in any number of calls with any modes
and whatever is drawn: making the text lower or upper case gives what it gives for the input. -/
theorem toAnotherLetterCase_absorbs (number : Numbers W) (input : Bytes) (modes : List ℤ) (w : W) :
    let r := modes.foldl (fun r mode => toAnotherLetterCase number r.1 mode r.2) (input, w)
    (toAnotherLetterCase number r.1 0 r.2).1 = (toAnotherLetterCase number input 0 w).1 ∧
      (toAnotherLetterCase number r.1 1 r.2).1 = (toAnotherLetterCase number input 1 w).1 ∧
      r.1.length = input.length := by
  have hlower : (modes.foldl (fun r mode => toAnotherLetterCase number r.1 mode r.2)
      (input, w)).1.map tolower = input.map tolower := by
    induction modes generalizing input w with
    | nil => rfl
    | cons mode modes ih =>
      rw [List.foldl_cons]
      exact (ih _ _).trans (map_tolower_toAnotherLetterCase number input mode w)
  have hupper : ∀ s : Bytes, s.map toupper = (s.map tolower).map toupper := fun s => by
    rw [List.map_map]
    exact List.map_congr_left fun c _ => (toupper_tolower c).symm
  refine ⟨hlower, ?_, by simpa using congrArg List.length hlower⟩
  change List.map toupper _ = List.map toupper _
  rw [hupper, hlower, ← hupper]

end Behh
