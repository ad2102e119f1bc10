import Behh.Library.Cuts
import Behh.Utility.Find

/-!
# What replacing does, and when it ends

`find::and_replace_all` cuts the source at the occurrences of the query and joins the pieces with
the replacement. A query that is empty stands everywhere: the loop then inserts the replacement
again and again, and only an exception ends it, when the string has become longer than a string may
be.

The model of this module has a bound on the length of strings, `std::string::max_size` or what
memory there is; without a bound it is the model of `Behh.Utility.Find`.

## Main definitions

* `andReplaceAllWithin`, `andReplaceEachWithin`: the functions, with a bound on strings.
* `Progresses`: the arguments for which an iteration leads on.

## Main results

* `andReplaceAll_cut`: what is left in the source.
* `replaceLoops_end_iff`: when the loops end.
-/

namespace Behh

open Substitution

/-! ### What is left in the source -/

/-- **Replacing everywhere.** The source has one list of pieces between the occurrences of the query
from the left, and they are joined with the replacement. -/
theorem andReplaceAll_cut (source query replacement : Bytes) (hquery : query ≠ []) :
    (∃! ps, Cut query source ps) ∧ ∀ ps, Cut query source ps → ∀ fuel > source.length,
      andReplaceAll fuel source query replacement = some (1, replacement.intercalate ps) := by
  refine ⟨existsUnique_cut hquery source, fun ps hps fuel hfuel => ?_⟩
  rw [andReplaceAll_eq hquery replacement hfuel, hps.replaceAll_eq hquery replacement]

/-- A query that overlaps itself, with a replacement that contains it. -/
theorem andReplaceAll_cut_aba :
    (∃! ps, Cut (str "aba") (str "ababa") ps) ∧
      ∀ ps, Cut (str "aba") (str "ababa") ps → ∀ fuel > (str "ababa").length,
        andReplaceAll fuel (str "ababa") (str "aba") (str "xaba") =
          some (1, (str "xaba").intercalate ps) :=
  andReplaceAll_cut (str "ababa") (str "aba") (str "xaba") (by decide)

/-! ### Strings with a bound -/

/-- `source.replace(position, count, replacement)` throws: the string would be longer than the
bound. -/
def replaceThrows (limit : Option ℕ) (source : Bytes) (count : ℕ) (replacement : Bytes) : Bool :=
  limit.any fun maxSize => maxSize - (source.length - count) < replacement.length

/-- The body of `find::and_replace_all`, its loop granted `fuel` iterations: the result, and what
the source has become. -/
def andReplaceAllWithinLoop (limit : Option ℕ) (query replacement : Bytes) :
    ℕ → Bytes → ℕ → Option (ℤ × Bytes)
  | 0, _, _ => none
  | fuel + 1, source, position =>
    match find source query position with
    | none => some (1, source)
    | some position =>
      if replaceThrows limit source query.length replacement then some (-1, source)
      else andReplaceAllWithinLoop limit query replacement fuel
        (replace source position query.length replacement) (position + replacement.length)

/-- `find::and_replace_all`. -/
def andReplaceAllWithin (limit : Option ℕ) (fuel : ℕ) (source query replacement : Bytes) :
    Option (ℤ × Bytes) :=
  andReplaceAllWithinLoop limit query replacement fuel source 0

/-- The loops of the mail functions, each call granted `fuel` iterations. -/
def andReplaceEachWithin (limit : Option ℕ) (fuel : ℕ) (datas : List LookAndReplace)
    (source : Bytes) : Option Bytes :=
  datas.foldlM (fun source data =>
    (andReplaceAllWithin limit fuel source data.toLook data.toReplace).map Prod.snd) source

/-- An iteration leads on: the query is not empty, or the string grows and there is a bound. -/
def Progresses (limit : Option ℕ) (query replacement : Bytes) : Prop :=
  query ≠ [] ∨ replacement ≠ [] ∧ limit ≠ none

variable {limit : Option ℕ} {query replacement source : Bytes} {position : ℕ}

/-! ### Without a bound -/

theorem andReplaceAllWithin_none (fuel : ℕ) (source query replacement : Bytes) :
    andReplaceAllWithin none fuel source query replacement =
      andReplaceAll fuel source query replacement := by
  have hloop : ∀ source position,
      andReplaceAllWithinLoop none query replacement fuel source position =
        (andReplaceAllLoop query replacement fuel source position).map
          fun source => (1, source) := by
    induction fuel with
    | zero => exact fun _ _ => rfl
    | succ fuel ih =>
      intro source position
      rw [andReplaceAllWithinLoop, andReplaceAllLoop]
      cases find source query position with
      | none => rfl
      | some position => exact ih _ _
  exact hloop source 0

theorem andReplaceEachWithin_none (fuel : ℕ) (datas : List LookAndReplace) (source : Bytes) :
    andReplaceEachWithin none fuel datas source = andReplaceEach fuel datas source := by
  simp only [andReplaceEachWithin, andReplaceEach, andReplaceAllWithin_none]

/-! ### The loop of one call -/

theorem findFirst_nil (t : Bytes) : findFirst [] t = some 0 := by
  cases t <;> rfl

theorem find_nil (h : position ≤ source.length) : find source [] position = some position := by
  rw [find, if_pos h, findFirst_nil, Option.map_some, Nat.add_zero]

/-- What is found lies behind the position and in the source. -/
theorem find_eq_some {k : ℕ} (h : find source query position = some k) :
    position ≤ k ∧ k + query.length ≤ source.length := by
  rw [find] at h
  split at h
  · rename_i hposition
    obtain ⟨i, hi, rfl⟩ := Option.map_eq_some_iff.1 h
    refine ⟨Nat.le_add_right position i, ?_⟩
    by_cases hquery : query = []
    · subst hquery
      rw [findFirst_nil] at hi
      obtain rfl := Option.some.inj hi
      exact hposition
    · have hle := (findFirst_eq_some hi).1.length_le
      have hpos := List.length_pos_iff.2 hquery
      rw [List.length_drop, List.length_drop] at hle
      omega
  · cases h

theorem length_replace {k count : ℕ} (h : k + count ≤ source.length) :
    (replace source k count replacement).length =
      source.length - count + replacement.length := by
  rw [replace, List.length_append, List.length_append, List.length_take, List.length_drop]
  omega

/-- A query that is not empty: what lies behind the position becomes shorter. -/
theorem isSome_of_query_ne_nil (hquery : query ≠ []) {fuel : ℕ}
    (hfuel : source.length - position < fuel) :
    (andReplaceAllWithinLoop limit query replacement fuel source position).isSome := by
  induction fuel generalizing source position with
  | zero => exact absurd hfuel (Nat.not_lt_zero _)
  | succ fuel ih =>
    rw [andReplaceAllWithinLoop]
    cases hfind : find source query position with
    | none => rfl
    | some k =>
      obtain ⟨hle, hin⟩ := find_eq_some hfind
      have hpos := List.length_pos_iff.2 hquery
      dsimp only
      split_ifs
      · rfl
      · refine ih ?_
        rw [length_replace hin]
        omega

/-- A replacement that is not empty, under a bound: the source becomes longer. -/
theorem isSome_of_replacement_ne_nil (hreplacement : replacement ≠ []) {maxSize fuel : ℕ}
    (hfuel : maxSize - source.length < fuel) :
    (andReplaceAllWithinLoop (some maxSize) [] replacement fuel source position).isSome := by
  induction fuel generalizing source position with
  | zero => exact absurd hfuel (Nat.not_lt_zero _)
  | succ fuel ih =>
    rw [andReplaceAllWithinLoop]
    cases hfind : find source [] position with
    | none => rfl
    | some k =>
      have hpos := List.length_pos_iff.2 hreplacement
      dsimp only
      split_ifs with hthrows
      · rfl
      · refine ih ?_
        rw [replaceThrows, Option.any_some, decide_eq_true_eq, List.length_nil] at hthrows
        rw [length_replace (find_eq_some hfind).2, List.length_nil]
        omega

/-- Nothing leads on: the empty query is found at every position, and no exception is thrown. -/
theorem andReplaceAllWithinLoop_eq_none (h : ¬ Progresses limit query replacement) (fuel : ℕ)
    (hposition : position ≤ source.length) :
    andReplaceAllWithinLoop limit query replacement fuel source position = none := by
  rw [Progresses, not_or, not_and, not_not, not_not] at h
  obtain ⟨rfl, hbound⟩ := h
  have hthrows : ∀ source, replaceThrows limit source 0 replacement = false := by
    intro source
    cases limit with
    | none => rfl
    | some maxSize =>
      have hreplacement : replacement = [] := by
        by_contra hne
        exact absurd (hbound hne) (Option.some_ne_none _)
      subst hreplacement
      rfl
  induction fuel generalizing source position with
  | zero => rfl
  | succ fuel ih =>
    rw [andReplaceAllWithinLoop, find_nil hposition]
    dsimp only
    rw [List.length_nil, hthrows, if_neg Bool.false_ne_true]
    refine ih ?_
    have hlen : (replace source position 0 replacement).length =
        source.length - 0 + replacement.length := length_replace hposition
    omega

/-- An outcome does not depend on the iterations that are granted. -/
theorem andReplaceAllWithinLoop_mono {fuel fuel' : ℕ} {r : ℤ × Bytes}
    (h : andReplaceAllWithinLoop limit query replacement fuel source position = some r)
    (hle : fuel ≤ fuel') :
    andReplaceAllWithinLoop limit query replacement fuel' source position = some r := by
  induction fuel generalizing source position fuel' with
  | zero => cases h
  | succ fuel ih =>
    obtain ⟨more, rfl⟩ := Nat.exists_eq_add_of_le' hle
    rw [← Nat.add_assoc, andReplaceAllWithinLoop]
    rw [andReplaceAllWithinLoop] at h
    cases hfind : find source query position with
    | none => rwa [hfind] at h
    | some k =>
      rw [hfind] at h
      dsimp only at h ⊢
      split_ifs at h ⊢
      · exact h
      · exact ih h (Nat.le_add_left fuel more)

/-! ### When the loops end -/

theorem Progresses.exists_fuel (h : Progresses limit query replacement) (source : Bytes) :
    ∃ fuel, (andReplaceAllWithin limit fuel source query replacement).isSome := by
  by_cases hquery : query = []
  · subst hquery
    obtain ⟨hreplacement, hlimit⟩ := h.resolve_left (not_not.2 rfl)
    obtain ⟨maxSize, rfl⟩ := Option.ne_none_iff_exists'.1 hlimit
    exact ⟨_, isSome_of_replacement_ne_nil hreplacement (Nat.lt_succ_self _)⟩
  · exact ⟨_, isSome_of_query_ne_nil hquery (Nat.lt_succ_self _)⟩

theorem andReplaceAllWithin_ends_iff :
    (∃ fuel, (andReplaceAllWithin limit fuel source query replacement).isSome) ↔
      Progresses limit query replacement := by
  refine ⟨?_, fun h => h.exists_fuel source⟩
  rintro ⟨fuel, hfuel⟩
  by_contra h
  rw [andReplaceAllWithin, andReplaceAllWithinLoop_eq_none h fuel (Nat.zero_le _)] at hfuel
  cases hfuel

/-- The calls of a mail function end when each of them does. -/
theorem andReplaceEachWithin_ends {datas : List LookAndReplace}
    (h : ∀ data ∈ datas, Progresses limit data.toLook data.toReplace) (source : Bytes) :
    ∃ n content, ∀ fuel ≥ n, andReplaceEachWithin limit fuel datas source = some content := by
  induction datas generalizing source with
  | nil => exact ⟨0, source, fun _ _ => rfl⟩
  | cons data datas ih =>
    obtain ⟨hdata, hdatas⟩ := List.forall_mem_cons.1 h
    obtain ⟨n, hn⟩ := hdata.exists_fuel source
    obtain ⟨r, hr⟩ := Option.isSome_iff_exists.1 hn
    obtain ⟨n', content, hcontent⟩ := ih hdatas r.2
    refine ⟨max n n', content, fun fuel hfuel => ?_⟩
    have hfirst : andReplaceAllWithin limit fuel source data.toLook data.toReplace = some r :=
      andReplaceAllWithinLoop_mono hr (by omega)
    rw [andReplaceEachWithin, List.foldlM_cons, hfirst]
    exact hcontent fuel (by omega)

theorem progresses_of_andReplaceEachWithin {fuel : ℕ} {datas : List LookAndReplace}
    (h : (andReplaceEachWithin limit fuel datas source).isSome) :
    ∀ data ∈ datas, Progresses limit data.toLook data.toReplace := by
  induction datas generalizing source with
  | nil => exact fun data hdata => by cases hdata
  | cons data datas ih =>
    rw [andReplaceEachWithin, List.foldlM_cons] at h
    cases hrun : andReplaceAllWithin limit fuel source data.toLook data.toReplace with
    | none =>
      rw [hrun] at h
      cases h
    | some r =>
      rw [hrun] at h
      have hfirst := andReplaceAllWithin_ends_iff.1 ⟨fuel, by rw [hrun]; rfl⟩
      exact List.forall_mem_cons.2 ⟨hfirst, ih h⟩

/-- **When the loops end.** With or without a bound on strings and whatever the source is: a call
ends exactly when its arguments lead on, and the loop of a mail function when those of every pair
do. -/
theorem replaceLoops_end_iff (limit : Option ℕ) (source : Bytes) :
    (∀ query replacement,
        (∃ fuel, (andReplaceAllWithin limit fuel source query replacement).isSome) ↔
          Progresses limit query replacement) ∧
      ∀ datas, (∃ fuel, (andReplaceEachWithin limit fuel datas source).isSome) ↔
        ∀ data ∈ datas, Progresses limit data.toLook data.toReplace := by
  refine ⟨fun _ _ => andReplaceAllWithin_ends_iff, fun datas => ⟨?_, fun h => ?_⟩⟩
  · rintro ⟨fuel, hfuel⟩
    exact progresses_of_andReplaceEachWithin hfuel
  · obtain ⟨n, content, hn⟩ := andReplaceEachWithin_ends h source
    exact ⟨n, by rw [hn n (le_refl n)]; rfl⟩

/-- With an empty query and an empty replacement the loop does not end, whether there is a bound
on strings or not, nor does the loop of a mail function that is given this pair. -/
theorem andReplaceAll_empty_endless :
    (¬ ∃ fuel, (andReplaceAllWithin (some (2 ^ 63 - 1)) fuel (str "a") [] []).isSome) ∧
      (¬ ∃ fuel, (andReplaceAll fuel (str "a") [] []).isSome) ∧
      ¬ ∃ fuel, (andReplaceEach fuel [⟨[], []⟩] (str "a")).isSome := by
  have hnot : ∀ limit, ¬ Progresses limit [] [] := by
    rintro limit (h | ⟨h, -⟩)
    · exact h rfl
    · exact h rfl
  simp only [← andReplaceAllWithin_none, ← andReplaceEachWithin_none]
  refine ⟨mt andReplaceAllWithin_ends_iff.1 (hnot _), mt andReplaceAllWithin_ends_iff.1 (hnot _),
    ?_⟩
  rintro ⟨fuel, hfuel⟩
  exact hnot none (progresses_of_andReplaceEachWithin hfuel ⟨[], []⟩ (List.mem_singleton_self _))

end Behh
