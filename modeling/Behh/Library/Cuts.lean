import Behh.Library.Substitution

/-!
# Cutting a text at a string

A text is cut at the occurrences of a string that are found from the left, each behind the end of
the one before. What is left between them are the pieces. Joining the pieces with another string
is replacing the string by it.

## Main definitions

* `Cut`: a text and its pieces.

## Main results

* `existsUnique_cut`: a text has one list of pieces.
* `Cut.replaceAll_eq`: replacing is joining the pieces.
-/

namespace Substitution

variable {α : Type}

/-- The text `t`, cut at the occurrences of `q`: the first one that is met from the left, and the
occurrences in the text behind it. -/
inductive Cut (q : List α) : List α → List (List α) → Prop
  | last {t} (h : ¬ q <:+: t) : Cut q t [t]
  | cut {t p s ps} (htext : t = p ++ (q ++ s)) (hfirst : ∀ j < p.length, ¬ q <+: t.drop j)
      (rest : Cut q s ps) : Cut q t (p :: ps)

variable {q t : List α}

/-- A string that stands in a text has a first occurrence. -/
theorem exists_first (h : q <:+: t) :
    ∃ p s, t = p ++ (q ++ s) ∧ ∀ j < p.length, ¬ q <+: t.drop j := by
  induction t with
  | nil =>
    have hq : q = [] := List.infix_nil.1 h
    exact ⟨[], [], by rw [hq]; rfl, fun j hj => absurd hj (Nat.not_lt_zero j)⟩
  | cons c t ih =>
    by_cases hbegins : q <+: c :: t
    · obtain ⟨s, hs⟩ := hbegins
      exact ⟨[], s, hs.symm, fun j hj => absurd hj (Nat.not_lt_zero j)⟩
    · obtain ⟨p, s, rfl, hbefore⟩ := ih ((List.infix_cons_iff.1 h).resolve_left hbegins)
      refine ⟨c :: p, s, rfl, fun j hj => ?_⟩
      cases j with
      | zero => exact hbegins
      | succ j => exact hbefore j (Nat.lt_of_succ_lt_succ hj)

theorem exists_cut (hq : q ≠ []) (t : List α) : ∃ ps, Cut q t ps := by
  induction hlen : t.length using Nat.strongRecOn generalizing t with
  | ind k ih =>
    by_cases h : q <:+: t
    · obtain ⟨p, s, htext, hfirst⟩ := exists_first h
      have hshort : s.length < k := by
        have hpos := List.length_pos_iff.2 hq
        rw [← hlen, htext, List.length_append, List.length_append]
        omega
      obtain ⟨ps, hps⟩ := ih s.length hshort s rfl
      exact ⟨p :: ps, .cut htext hfirst hps⟩
    · exact ⟨[t], .last h⟩

theorem first_unique {p p' s s' : List α} (h : p ++ (q ++ s) = p' ++ (q ++ s'))
    (hfirst : ∀ j < p.length, ¬ q <+: (p ++ (q ++ s)).drop j)
    (hfirst' : ∀ j < p'.length, ¬ q <+: (p ++ (q ++ s)).drop j) : p = p' ∧ s = s' := by
  have hlen : p.length = p'.length := by
    rcases Nat.lt_trichotomy p.length p'.length with hlt | heq | hgt
    · refine absurd ?_ (hfirst' p.length hlt)
      rw [List.drop_left]
      exact List.prefix_append q s
    · exact heq
    · refine absurd ?_ (hfirst p'.length hgt)
      rw [h, List.drop_left]
      exact List.prefix_append q s'
  obtain ⟨hp, hrest⟩ := List.append_inj h hlen
  exact ⟨hp, List.append_cancel_left hrest⟩

theorem Cut.unique {ps ps' : List (List α)} (h : Cut q t ps) (h' : Cut q t ps') : ps = ps' := by
  induction h generalizing ps' with
  | @last t hnone =>
    cases h' with
    | last => rfl
    | @cut _ p s _ htext => exact absurd ⟨p, s, by rw [htext, List.append_assoc]⟩ hnone
  | @cut t p s ps htext hfirst rest ih =>
    cases h' with
    | last hnone => exact absurd ⟨p, s, by rw [htext, List.append_assoc]⟩ hnone
    | @cut _ p' s' ps' htext' hfirst' rest' =>
      rw [htext] at htext' hfirst hfirst'
      obtain ⟨rfl, rfl⟩ := first_unique htext' hfirst hfirst'
      rw [ih rest']

/-- **A text has one list of pieces**, if the string is not empty. -/
theorem existsUnique_cut (hq : q ≠ []) (t : List α) : ∃! ps, Cut q t ps := by
  obtain ⟨ps, hps⟩ := exists_cut hq t
  exact ⟨ps, hps, fun ps' hps' => hps'.unique hps⟩

theorem Cut.ne_nil {ps : List (List α)} (h : Cut q t ps) : ps ≠ [] := by
  cases h <;> exact List.cons_ne_nil _ _

/-- **Replacing is joining the pieces.** -/
theorem Cut.replaceAll_eq [DecidableEq α] (hq : q ≠ []) (r : List α) {ps : List (List α)}
    (h : Cut q t ps) : replaceAll q r t = r.intercalate ps := by
  induction h with
  | last hnone => rw [replaceAll_eq_self r hnone, List.intercalate_singleton]
  | @cut t p s ps htext hfirst rest ih =>
    subst htext
    rw [replaceAll_append r hfirst, replaceAll_append_self hq, ih,
      List.intercalate_cons_of_ne_nil rest.ne_nil, List.append_assoc]

end Substitution
