import Behh.Utility.ReplaceAll

/-!
# Keywords

`find::each_keywords`, `find::keyword_before` and `find::keyword_after` of `src/utility.cc`, lines
229–285. They all ask `std::string::find` for the first place at which a keyword stands, as
`find::and_replace_all` does.

## Main definitions

* `eachKeywords`, `keywordBefore`, `keywordAfter`: the functions.

## Main results

* `find_cases`: the first place of a keyword.
* `keywords_agree`: the functions cut a text at the same place, and so does the replacement.
-/

namespace Behh

open Substitution

/-- `find::each_keywords`. -/
def eachKeywords (source : Bytes) (keywords : List Bytes) : List Bytes :=
  keywords.foldl (fun result keyword =>
    if find source keyword 0 ≠ none then result ++ [keyword] else result) []

/-- `find::keyword_after`: the result, and what the destination has become. -/
def keywordAfter (source keyword extractionResult : Bytes) : ℤ × Bytes :=
  match find source keyword 0 with
  | none => (-1, extractionResult)
  | some pos => (1, source.drop (pos + keyword.length))

/-- `find::keyword_before`: the result, and what the destination has become. -/
def keywordBefore (source keyword extractionResult : Bytes) : ℤ × Bytes :=
  match find source keyword 0 with
  | none => (-1, extractionResult)
  | some pos => (1, source.take pos)

variable {source keyword : Bytes}

/-- **The first place.** Either the keyword stands nowhere, or it is found behind a text before
which it does not stand. -/
theorem find_cases (source keyword : Bytes) :
    (find source keyword 0 = none ∧ ¬ keyword <:+: source) ∨
      ∃ before after, find source keyword 0 = some before.length ∧
        source = before ++ (keyword ++ after) ∧
        ∀ j < before.length, ¬ keyword <+: source.drop j := by
  have hfind : find source keyword 0 = findFirst keyword source := by
    rw [find, if_pos (Nat.zero_le _), List.drop_zero]
    simp
  cases hfirst : findFirst keyword source with
  | none => exact .inl ⟨hfind.trans hfirst, findFirst_eq_none hfirst⟩
  | some k =>
    have hlen : k + keyword.length ≤ source.length := (find_eq_some (hfind.trans hfirst)).2
    obtain ⟨⟨after, hafter⟩, hfirst'⟩ := findFirst_eq_some hfirst
    have htake : (source.take k).length = k := List.length_take_of_le (by omega)
    refine .inr ⟨source.take k, after, ?_, ?_, ?_⟩
    · rw [hfind, hfirst, htake]
    · rw [hafter, List.take_append_drop]
    · rw [htake]
      exact hfirst'

/-- The keywords that are listed are those that stand in the text, in their order. -/
theorem eachKeywords_eq (source : Bytes) (keywords : List Bytes) :
    eachKeywords source keywords = keywords.filter fun keyword => find source keyword 0 ≠ none := by
  have hloop : ∀ result : List Bytes, keywords.foldl (fun result keyword =>
      if find source keyword 0 ≠ none then result ++ [keyword] else result) result =
        result ++ keywords.filter fun keyword => find source keyword 0 ≠ none := by
    induction keywords with
    | nil => exact fun result => (List.append_nil result).symm
    | cons keyword keywords ih =>
      intro result
      rw [List.foldl_cons, ih]
      by_cases h : find source keyword 0 ≠ none
      · rw [if_pos h, List.filter_cons_of_pos (by simpa using h), List.append_assoc,
          List.singleton_append]
      · rw [if_neg h, List.filter_cons_of_neg (by simpa using h)]
  exact hloop []

/-- **The functions agree.** For every text, every list of keywords and every replacement, and a
keyword of the list that is not empty. When the keyword stands nowhere, it is not listed, both
extractions return -1 and leave their destinations alone, and nothing is replaced. When it stands
somewhere, it is listed, both return 1, what they extract makes up the text with the keyword in
between, before which it does not stand, and replacing the keyword keeps the text before it, puts
the replacement, and goes on in the text behind it. -/
theorem keywords_agree (source replacement : Bytes) (keywords : List Bytes) {keyword : Bytes}
    (hkeyword : keyword ≠ []) (hmem : keyword ∈ keywords) (before after : Bytes) :
    (¬ keyword <:+: source ∧ keyword ∉ eachKeywords source keywords ∧
        keywordBefore source keyword before = (-1, before) ∧
        keywordAfter source keyword after = (-1, after) ∧
        andReplaceAll (source.length + 1) source keyword replacement = some (1, source)) ∨
      keyword ∈ eachKeywords source keywords ∧ ∃ front back,
        keywordBefore source keyword before = (1, front) ∧
        keywordAfter source keyword after = (1, back) ∧
        source = front ++ keyword ++ back ∧
        (∀ j < front.length, ¬ keyword <+: source.drop j) ∧
        ∃ replaced, andReplaceAll (back.length + 1) back keyword replacement = some (1, replaced) ∧
          andReplaceAll (source.length + 1) source keyword replacement =
            some (1, front ++ replacement ++ replaced) := by
  have hreplace : ∀ t : Bytes, andReplaceAll (t.length + 1) t keyword replacement =
      some (1, replaceAll keyword replacement t) := fun t =>
    andReplaceAll_eq hkeyword replacement (Nat.lt_succ_self t.length)
  rcases find_cases source keyword with ⟨hfind, hnowhere⟩ | ⟨front, back, hfind, hsource, hfirst⟩
  · refine .inl ⟨hnowhere, ?_, ?_, ?_, ?_⟩
    · rw [eachKeywords_eq]
      simp [hfind]
    · rw [keywordBefore, hfind]
    · rw [keywordAfter, hfind]
    · rw [hreplace, replaceAll_eq_self _ hnowhere]
  · refine .inr ⟨?_, front, back, ?_, ?_, ?_, hfirst, _, hreplace back, ?_⟩
    · rw [eachKeywords_eq]
      exact List.mem_filter.2 ⟨hmem, by simp [hfind]⟩
    · rw [keywordBefore, hfind]
      simp [hsource]
    · rw [keywordAfter, hfind]
      simp [hsource]
    · rw [hsource, List.append_assoc]
    · rw [hreplace, hsource, replaceAll_append replacement (hsource ▸ hfirst),
        replaceAll_append_self hkeyword, List.append_assoc]

/-- A keyword that stands twice in a text. -/
theorem keywords_agree_twice : str "=" ∈ eachKeywords (str "k=v=w") [str "=", str ";"] ∧
    keywordBefore (str "k=v=w") (str "=") [] = (1, str "k") ∧
      keywordAfter (str "k=v=w") (str "=") [] = (1, str "v=w") := by
  rcases keywords_agree (str "k=v=w") (str ": ") [str "=", str ";"]
    (by decide : str "=" ≠ []) (by decide) [] [] with ⟨-, hnone, -⟩ | ⟨hlisted, -⟩
  · exact absurd (by decide) hnone
  · exact ⟨hlisted, by decide, by decide⟩

end Behh
