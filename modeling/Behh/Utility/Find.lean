import Behh.Library.Substitution
import Behh.Std.Bytes

/-!
# Finding and replacing

`find::and_replace_all` looks for a string from a position on, replaces it where it stands, and
goes on behind the replacement. The loop is granted a number of iterations; one that uses them up
has no outcome, as the loop for the empty string, which stands everywhere.

## Main definitions

* `find`, `replace`: `std::string::find` and `std::string::replace`.
* `andReplaceAll`: `find::and_replace_all`.
* `LookAndReplace`, `andReplaceEach`: the loops of the mail functions over `look_and_replace_t`.

## Main results

* `andReplaceAll_eq`, `andReplaceEach_eq`: with enough iterations, strings that are not empty are
  replaced in scans from the left.
-/

namespace Behh

open Substitution

/-! ### Strings -/

/-- `source.find(query)`. -/
def findFirst (query : Bytes) : Bytes → Option ℕ
  | [] => if query = [] then some 0 else none
  | c :: cs => if query.isPrefixOf (c :: cs) then some 0 else (findFirst query cs).map (· + 1)

/-- `source.find(query, position)`; `none` is `std::string::npos`. -/
def find (source query : Bytes) (position : ℕ) : Option ℕ :=
  if position ≤ source.length then
    (findFirst query (source.drop position)).map (position + ·)
  else none

/-- `source.replace(position, count, replacement)`. -/
def replace (source : Bytes) (position count : ℕ) (replacement : Bytes) : Bytes :=
  source.take position ++ replacement ++ source.drop (position + count)

/-! ### Replacing -/

/-- The loop of `find::and_replace_all`, granted `fuel` iterations. -/
def andReplaceAllLoop (query replacement : Bytes) : ℕ → Bytes → ℕ → Option Bytes
  | 0, _, _ => none
  | fuel + 1, source, position =>
    match find source query position with
    | none => some source
    | some position =>
      andReplaceAllLoop query replacement fuel (replace source position query.length replacement)
        (position + replacement.length)

/-- `find::and_replace_all`: the result, and what the source has become. -/
def andReplaceAll (fuel : ℕ) (source query replacement : Bytes) : Option (ℤ × Bytes) :=
  (andReplaceAllLoop query replacement fuel source 0).map fun source => (1, source)

/-- `look_and_replace_t`. -/
structure LookAndReplace where
  /-- `to_look`. -/
  toLook : Bytes
  /-- `to_replace`. -/
  toReplace : Bytes
  deriving DecidableEq

/-- `for (auto& data : datas) { find::and_replace_all(source, data.to_look, data.to_replace); }`,
each loop granted `fuel` iterations. -/
def andReplaceEach (fuel : ℕ) (datas : List LookAndReplace) (source : Bytes) : Option Bytes :=
  datas.foldlM (fun source data =>
    (andReplaceAll fuel source data.toLook data.toReplace).map Prod.snd) source

/-- The strings to look for, with their replacements. -/
def LookAndReplace.table (datas : List LookAndReplace) : List (Bytes × Bytes) :=
  datas.map fun data => (data.toLook, data.toReplace)

/-! ### The scan -/

variable {query t : Bytes}

/-- The place that is found is the first at which the string stands. -/
theorem findFirst_eq_some {k : ℕ} (h : findFirst query t = some k) :
    query <+: t.drop k ∧ ∀ j < k, ¬ query <+: t.drop j := by
  induction t generalizing k with
  | nil =>
    obtain ⟨rfl, rfl⟩ : query = [] ∧ 0 = k := by simpa [findFirst] using h
    exact ⟨List.nil_prefix, fun j hj => absurd hj (Nat.not_lt_zero j)⟩
  | cons c cs ih =>
    rw [findFirst] at h
    split at h
    · obtain rfl := Option.some.inj h
      exact ⟨List.isPrefixOf_iff_prefix.1 ‹_›, fun j hj => absurd hj (Nat.not_lt_zero j)⟩
    · rename_i hfirst
      obtain ⟨k, hk, rfl⟩ := Option.map_eq_some_iff.1 h
      obtain ⟨hstands, hbefore⟩ := ih hk
      refine ⟨hstands, fun j hj => ?_⟩
      cases j with
      | zero => exact fun hzero => hfirst (List.isPrefixOf_iff_prefix.2 hzero)
      | succ j => exact hbefore j (Nat.lt_of_succ_lt_succ hj)

/-- Nothing is found when the string stands nowhere. -/
theorem findFirst_eq_none (h : findFirst query t = none) : ¬ query <:+: t := by
  induction t with
  | nil =>
    intro hinfix
    rw [List.infix_nil.1 hinfix] at h
    cases h
  | cons c cs ih =>
    rw [findFirst] at h
    split at h
    · cases h
    · rename_i hfirst
      rintro hinfix
      rcases List.infix_cons_iff.1 hinfix with hstands | hrest
      · exact hfirst (List.isPrefixOf_iff_prefix.2 hstands)
      · exact ih (Option.map_eq_none_iff.1 h) hrest

theorem find_append (done : Bytes) :
    find (done ++ t) query done.length = (findFirst query t).map (done.length + ·) := by
  rw [find, if_pos (by rw [List.length_append]; omega), List.drop_left]

/-- **The loop scans.** Before an iteration, what lies in front of the position is done. -/
theorem andReplaceAllLoop_eq (hquery : query ≠ []) (replacement done : Bytes) {fuel : ℕ}
    (hfuel : t.length < fuel) :
    andReplaceAllLoop query replacement fuel (done ++ t) done.length =
      some (done ++ replaceAll query replacement t) := by
  induction fuel generalizing done t with
  | zero => exact absurd hfuel (Nat.not_lt_zero _)
  | succ fuel ih =>
    rw [andReplaceAllLoop, find_append]
    cases hfind : findFirst query t with
    | none => rw [replaceAll_eq_self _ (findFirst_eq_none hfind)]; rfl
    | some k =>
      obtain ⟨⟨rest, hrest⟩, hbefore⟩ := findFirst_eq_some hfind
      -- the text falls into what is passed over, the string, and the rest
      have hk : k ≤ t.length := by
        by_contra hlt
        rw [List.drop_of_length_le (Nat.le_of_not_le hlt)] at hrest
        exact hquery (List.append_eq_nil_iff.1 hrest).1
      have ht : t = t.take k ++ (query ++ rest) := by rw [hrest, List.take_append_drop]
      have htake : (t.take k).length = k := List.length_take_of_le hk
      have hpassed : ∀ j < (t.take k).length, ¬ query <+: (t.take k ++ (query ++ rest)).drop j := by
        intro j hj
        rw [← ht]
        exact hbefore j (htake ▸ hj)
      have hscan : replaceAll query replacement t =
          t.take k ++ (replacement ++ replaceAll query replacement rest) := by
        rw [ht, replaceAll_append replacement hpassed, replaceAll_append_self hquery, ← ht]
      have hreplace : replace (done ++ t) (done.length + k) query.length replacement =
          (done ++ t.take k ++ replacement) ++ rest := by
        rw [replace, List.take_length_add_append, Nat.add_assoc, List.drop_length_add_append]
        rw [← List.drop_drop, ← hrest, List.drop_left]
      have hposition : done.length + k + replacement.length =
          (done ++ t.take k ++ replacement).length := by
        rw [List.length_append, List.length_append, htake]
      have hlength : rest.length < fuel := by
        have hpos := List.length_pos_of_ne_nil hquery
        have hsum := congrArg List.length ht
        rw [List.length_append, List.length_append] at hsum
        omega
      change andReplaceAllLoop query replacement fuel (replace (done ++ t) (done.length + k)
        query.length replacement) (done.length + k + replacement.length) = _
      rw [hreplace, hposition, ih _ hlength, hscan, List.append_assoc, List.append_assoc]

/-- **Replacing everywhere.** With enough iterations, a string that is not empty is replaced in one
scan from the left. -/
theorem andReplaceAll_eq (hquery : query ≠ []) (replacement : Bytes) {fuel : ℕ}
    (hfuel : t.length < fuel) :
    andReplaceAll fuel t query replacement = some (1, replaceAll query replacement t) := by
  have hloop := andReplaceAllLoop_eq hquery replacement [] hfuel
  rw [List.nil_append, List.nil_append] at hloop
  exact congrArg (Option.map fun source => ((1 : ℤ), source)) hloop

/-- **Replacing one string after the other.** With enough iterations, strings that are not empty are
replaced one after the other, each in one scan. -/
theorem andReplaceEach_eq {datas : List LookAndReplace} (hlook : ∀ data ∈ datas, data.toLook ≠ [])
    (source : Bytes) : ∃ n, ∀ fuel ≥ n, andReplaceEach fuel datas source =
      some (replaceEach (LookAndReplace.table datas) source) := by
  induction datas generalizing source with
  | nil => exact ⟨0, fun _ _ => rfl⟩
  | cons data datas ih =>
    obtain ⟨hdata, hdatas⟩ := List.forall_mem_cons.1 hlook
    obtain ⟨n, hn⟩ := ih hdatas (replaceAll data.toLook data.toReplace source)
    refine ⟨max n (source.length + 1), fun fuel hfuel => ?_⟩
    have hfirst := andReplaceAll_eq hdata data.toReplace (t := source)
      (show source.length < fuel by omega)
    rw [andReplaceEach, List.foldlM_cons, hfirst]
    exact hn fuel (by omega)

end Behh
