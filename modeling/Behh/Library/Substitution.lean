import Mathlib.Data.List.Infix
import Mathlib.Data.List.Nodup
import Mathlib.Data.List.Perm.Subperm
import Mathlib.Data.List.Permutation
import Mathlib.Data.List.Sublists
import Mathlib.Data.Nat.Notation
import Mathlib.Tactic.Common

/-!
# Substitution in texts

A table lists strings to look for, each with a label. A text is cut at the strings of the table,
scanned from the left: where one of them stands, the first of the table is taken out and the scan
goes on behind it. Putting a string in the place of every label is the *simultaneous* substitution
of the table. Replacing the strings of the table one after the other, each in the text that the one
before has left, is another thing, since a string may stand in what has been put in.

The two agree when the strings stand apart in the text and no replacement gives rise to a new
occurrence of a string that is still to be replaced, and the order of the table does not matter
then. In a text whose pieces are fenced off by characters that no string contains, one replacement
after the other acts on each piece alone.

## Main definitions

* `pieces`, `render`, `substitute`: the simultaneous substitution.
* `replaceAll`, `replaceEach`: one string, and one string after the other.
* `occurrences`, `Apart`: how often a string stands in a text, and that two strings do not overlap.
* `Separate`, `GivesRiseToNone`: what makes replacements in sequence simultaneous.
* `fenced`: pieces between characters that do not occur in the strings.

## Main results

* `replaceAll_substitute`: a replacement that follows a simultaneous substitution.
* `replaceEach_eq_substitute`: when replacements in sequence are simultaneous.
* `substitute_perm`: the order of the table.
* `replaceAll_render`, `replaceEach_render`: replacements in a text with fenced pieces.
* `pieces_render`: fenced pieces are found again.
-/

namespace Substitution

variable {α β γ : Type}

/-! ### Pieces of a text -/

/-- The text made of pieces, with `f b` in the place of the label `b`. -/
def render (f : β → List α) (ps : List (α ⊕ β)) : List α :=
  ps.flatMap (Sum.elim (fun c => [c]) f)

@[simp] theorem render_nil (f : β → List α) : render f [] = [] := rfl

@[simp] theorem render_inl (f : β → List α) (c : α) (ps : List (α ⊕ β)) :
    render f (.inl c :: ps) = c :: render f ps := rfl

@[simp] theorem render_inr (f : β → List α) (b : β) (ps : List (α ⊕ β)) :
    render f (.inr b :: ps) = f b ++ render f ps := List.flatMap_cons ..

theorem render_append (f : β → List α) (ps ps' : List (α ⊕ β)) :
    render f (ps ++ ps') = render f ps ++ render f ps' := List.flatMap_append

theorem render_map (f : γ → List α) (g : β → γ) (ps : List (α ⊕ β)) :
    render f (ps.map (Sum.map id g)) = render (f ∘ g) ps := by
  induction ps with
  | nil => rfl
  | cons p ps ih =>
    cases p with
    | inl c => simp [ih]
    | inr b => simp [ih]

/-! ### Strings that stand apart -/

/-- No occurrence of one string in the text overlaps one of the other. -/
def Apart (t a b : List α) : Prop :=
  ∀ i j, a <+: t.drop i → b <+: t.drop j → i + a.length ≤ j ∨ j + b.length ≤ i

theorem Apart.drop {t a b : List α} (h : Apart t a b) (n : ℕ) : Apart (t.drop n) a b := by
  intro i j hi hj
  rw [List.drop_drop] at hi hj
  have := h _ _ hi hj
  omega

theorem Apart.symm {t a b : List α} (h : Apart t a b) : Apart t b a :=
  fun i j hi hj => (h j i hj hi).symm

/-- Whether two strings stand apart is seen at the places in the text. -/
instance [DecidableEq α] (t a b : List α) : Decidable (Apart t a b) :=
  decidable_of_iff (∀ i ≤ t.length, ∀ j ≤ t.length, a <+: t.drop i → b <+: t.drop j →
      i + a.length ≤ j ∨ j + b.length ≤ i) <| by
    refine ⟨fun h i j hi hj => ?_, fun h i _ j _ => h i j⟩
    by_cases hinside : i ≤ t.length ∧ j ≤ t.length
    · exact h i hinside.1 j hinside.2 hi hj
    · -- a string that stands behind the text is empty
      have hla := hi.length_le
      have hlb := hj.length_le
      rw [List.length_drop] at hla hlb
      omega

/-- Where one of two strings stands, the other does not begin. -/
theorem Apart.not_begins {t a b : List α} (h : Apart t a b) (hb : b ≠ []) (ha : a <+: t) {k : ℕ}
    (hk : k < a.length) : ¬ b <+: t.drop k := by
  intro hstands
  have hlength := List.length_pos_of_ne_nil hb
  rcases h 0 k ha hstands with hle | hle <;> omega

/-- A string does not reach over a character that it does not contain. -/
theorem prefix_of_prefix_append_cons {q s t : List α} {c : α} (hc : c ∉ q)
    (h : q <+: s ++ c :: t) : q <+: s := by
  rcases List.prefix_or_prefix_of_prefix h (List.prefix_append s (c :: t)) with hs | ⟨u, rfl⟩
  · exact hs
  · rw [List.prefix_append_right_inj] at h
    cases u with
    | nil => exact ⟨[], by simp⟩
    | cons d u =>
      obtain ⟨rfl, -⟩ := List.cons_prefix_cons.1 h
      exact absurd (List.mem_append_right s (List.mem_cons_self ..)) hc

theorem not_begins_of_head? {q t : List α} {c : α} (hq : q ≠ []) (hc : q.head? ≠ some c) :
    ¬ q <+: c :: t := by
  rintro ⟨u, hu⟩
  obtain ⟨d, q, rfl⟩ := List.exists_cons_of_ne_nil hq
  exact hc (congrArg some (List.cons.inj hu).1)

/-- The strings of the table are not empty, differ and stand apart in the text. -/
structure Separate (table : List (List α × List α)) (t : List α) : Prop where
  /-- No string is empty. -/
  nonempty : ∀ p ∈ table, p.1 ≠ []
  /-- No two strings are equal. -/
  nodup : (table.map Prod.fst).Nodup
  /-- No two strings overlap in the text. -/
  apart : ∀ p ∈ table, ∀ p' ∈ table, p.1 ≠ p'.1 → Apart t p.1 p'.1

theorem separate_iff {table : List (List α × List α)} {t : List α} :
    Separate table t ↔ (∀ p ∈ table, p.1 ≠ []) ∧ (table.map Prod.fst).Nodup ∧
      ∀ p ∈ table, ∀ p' ∈ table, p.1 ≠ p'.1 → Apart t p.1 p'.1 :=
  ⟨fun h => ⟨h.nonempty, h.nodup, h.apart⟩, fun h => ⟨h.1, h.2.1, h.2.2⟩⟩

instance [DecidableEq α] (table : List (List α × List α)) (t : List α) :
    Decidable (Separate table t) :=
  decidable_of_iff' _ separate_iff

namespace Separate

variable {table table' : List (List α × List α)} {t : List α}

theorem perm (h : Separate table t) (hperm : table.Perm table') : Separate table' t where
  nonempty p hp := h.nonempty p (hperm.mem_iff.2 hp)
  nodup := (hperm.map Prod.fst).nodup_iff.1 h.nodup
  apart p hp p' hp' := h.apart p (hperm.mem_iff.2 hp) p' (hperm.mem_iff.2 hp')

theorem sublist (h : Separate table t) (hsub : table'.Sublist table) : Separate table' t where
  nonempty p hp := h.nonempty p (hsub.subset hp)
  nodup := h.nodup.sublist (hsub.map Prod.fst)
  apart p hp p' hp' := h.apart p (hsub.subset hp) p' (hsub.subset hp')

theorem drop (h : Separate table t) (n : ℕ) : Separate table (t.drop n) where
  nonempty := h.nonempty
  nodup := h.nodup
  apart p hp p' hp' hne := (h.apart p hp p' hp' hne).drop n

/-- At most one entry of the table stands at a place. -/
theorem eq_of_begins (h : Separate table t) {k : ℕ} {p p' : List α × List α} (hp : p ∈ table)
    (hp' : p' ∈ table) (hstands : p.1 <+: t.drop k) (hstands' : p'.1 <+: t.drop k) : p = p' := by
  by_cases hsame : p.1 = p'.1
  · exact List.inj_on_of_nodup_map h.nodup hp hp' hsame
  · have hpos := List.length_pos_of_ne_nil (h.nonempty p hp)
    have hpos' := List.length_pos_of_ne_nil (h.nonempty p' hp')
    rcases h.apart p hp p' hp' hsame k k hstands hstands' with hle | hle <;> omega

theorem ne_of_append_singleton {p p' : List α × List α} (h : Separate (table ++ [p]) t)
    (hp' : p' ∈ table) : p.1 ≠ p'.1 := by
  have hnodup := h.nodup
  rw [List.map_append, List.map_singleton, List.nodup_append] at hnodup
  exact (hnodup.2.2 p'.1 (List.mem_map_of_mem hp') p.1 (List.mem_singleton_self _)).symm

end Separate

/-! ### Simultaneous substitution -/

variable [DecidableEq α]

/-- The first entry of the table whose string stands at the beginning of the text. -/
def hit (table : List (List α × β)) (t : List α) : Option (List α × β) :=
  table.find? fun p => p.1.isPrefixOf t

/-- The pieces of a text behind its first `n` characters, which are skipped. -/
def piecesFrom (table : List (List α × β)) : ℕ → List α → List (α ⊕ β)
  | _, [] => []
  | n + 1, _ :: t => piecesFrom table n t
  | 0, c :: t =>
    match hit table (c :: t) with
    | some p => .inr p.2 :: piecesFrom table (p.1.length - 1) t
    | none => .inl c :: piecesFrom table 0 t

/-- A text cut at the strings of a table. -/
def pieces (table : List (List α × β)) (t : List α) : List (α ⊕ β) := piecesFrom table 0 t

/-- All strings of the table replaced at once. -/
def substitute (table : List (List α × List α)) (t : List α) : List α :=
  render id (pieces table t)

/-- One string replaced. -/
def replaceAll (query replacement t : List α) : List α := substitute [(query, replacement)] t

/-- The strings of the table replaced one after the other. -/
def replaceEach (table : List (List α × List α)) (t : List α) : List α :=
  table.foldl (fun t p => replaceAll p.1 p.2 t) t

theorem hit_eq_none_iff {table : List (List α × β)} {t : List α} :
    hit table t = none ↔ ∀ p ∈ table, ¬ p.1 <+: t := by
  simp [hit, List.find?_eq_none]

theorem prefix_of_hit {table : List (List α × β)} {t : List α} {p : List α × β}
    (h : hit table t = some p) : p ∈ table ∧ p.1 <+: t :=
  ⟨List.mem_of_find?_eq_some h, List.isPrefixOf_iff_prefix.1 (List.find?_some h :)⟩

theorem hit_cons_of_begins {table : List (List α × β)} {t : List α} {p : List α × β}
    (h : p.1 <+: t) : hit (p :: table) t = some p :=
  List.find?_cons_of_pos (List.isPrefixOf_iff_prefix.2 h)

theorem hit_cons_of_not_begins {table : List (List α × β)} {t : List α} {p : List α × β}
    (h : ¬ p.1 <+: t) : hit (p :: table) t = hit table t :=
  List.find?_cons_of_neg (List.isPrefixOf_iff_prefix.not.2 h)

theorem piecesFrom_eq (table : List (List α × β)) (n : ℕ) (t : List α) :
    piecesFrom table n t = pieces table (t.drop n) := by
  induction n generalizing t with
  | zero => rfl
  | succ n ih =>
    cases t with
    | nil => rfl
    | cons c t => exact ih t

/-- Where no string of the table stands, the text is copied. -/
theorem pieces_of_none {table : List (List α × β)} {c : α} {t : List α}
    (h : hit table (c :: t) = none) : pieces table (c :: t) = .inl c :: pieces table t := by
  rw [pieces, piecesFrom, h]
  rfl

/-- Where a string of the table stands, it is taken out. -/
theorem pieces_of_some {table : List (List α × β)} {t : List α} {p : List α × β}
    (h : hit table t = some p) (hp : p.1 ≠ []) :
    pieces table t = .inr p.2 :: pieces table (t.drop p.1.length) := by
  obtain ⟨c, q, hq⟩ := List.exists_cons_of_ne_nil hp
  cases t with
  | nil => exact absurd (List.prefix_nil.1 (prefix_of_hit h).2) hp
  | cons d t =>
    have hdrop : (d :: t).drop p.1.length = t.drop (p.1.length - 1) := by
      rw [hq, List.length_cons, List.drop_succ_cons, Nat.add_sub_cancel]
    rw [pieces, piecesFrom, h, hdrop]
    exact congrArg (Sum.inr p.2 :: ·) (piecesFrom_eq table (p.1.length - 1) t)

theorem pieces_map (f : β → γ) (table : List (List α × β)) (t : List α) :
    pieces (table.map (Prod.map id f)) t = (pieces table t).map (Sum.map id f) := by
  have hhit : ∀ t : List α,
      hit (table.map (Prod.map id f)) t = (hit table t).map (Prod.map id f) := by
    intro t
    simp only [hit, List.find?_map]
    rfl
  suffices h : ∀ n, piecesFrom (table.map (Prod.map id f)) n t =
      (piecesFrom table n t).map (Sum.map id f) from h 0
  induction t with
  | nil => intro n; cases n <;> rfl
  | cons c t ih =>
    intro n
    cases n with
    | succ n => exact ih n
    | zero =>
      rw [piecesFrom, piecesFrom, hhit]
      cases hit table (c :: t) with
      | none => exact congrArg _ (ih 0)
      | some p => exact congrArg _ (ih _)

@[simp] theorem substitute_nil (table : List (List α × List α)) : substitute table [] = [] := rfl

theorem substitute_of_none {table : List (List α × List α)} {c : α} {t : List α}
    (h : hit table (c :: t) = none) : substitute table (c :: t) = c :: substitute table t := by
  rw [substitute, pieces_of_none h, render_inl, substitute]

theorem substitute_of_some {table : List (List α × List α)} {t : List α} {p : List α × List α}
    (h : hit table t = some p) (hp : p.1 ≠ []) :
    substitute table t = p.2 ++ substitute table (t.drop p.1.length) := by
  rw [substitute, pieces_of_some h hp, render_inr, substitute, id]

/-- As far as no string of the table stands anywhere, the text is copied. -/
theorem substitute_append {table : List (List α × List α)} {s t : List α}
    (h : ∀ k < s.length, hit table ((s ++ t).drop k) = none) :
    substitute table (s ++ t) = s ++ substitute table t := by
  induction s with
  | nil => rfl
  | cons c s ih =>
    have hfirst : hit table (c :: (s ++ t)) = none := h 0 (Nat.succ_pos _)
    have hrest : ∀ k < s.length, hit table ((s ++ t).drop k) = none :=
      fun k hk => h (k + 1) (Nat.succ_lt_succ hk)
    rw [List.cons_append, substitute_of_none hfirst, ih hrest, List.cons_append]

/-- A simultaneous substitution puts replacements in the place of labels. -/
theorem substitute_map (f : β → List α) (table : List (List α × β)) (t : List α) :
    substitute (table.map (Prod.map id f)) t = render f (pieces table t) := by
  rw [substitute, pieces_map, render_map, Function.id_comp]

theorem scan_induction {table : List (List α × β)} {P : List α → Prop}
    (hne : ∀ p ∈ table, p.1 ≠ []) (nil : P [])
    (copy : ∀ c t, hit table (c :: t) = none → P t → P (c :: t))
    (take : ∀ t p, hit table t = some p → P (t.drop p.1.length) → P t) (t : List α) : P t := by
  induction hlen : t.length using Nat.strongRecOn generalizing t with
  | ind n ih =>
    cases h : hit table t with
    | none =>
      cases t with
      | nil => exact nil
      | cons c t =>
        have hlt : t.length < n := by rw [← hlen, List.length_cons]; exact Nat.lt_succ_self _
        exact copy c t h (ih t.length hlt t rfl)
    | some p =>
      obtain ⟨hp, hbegins⟩ := prefix_of_hit h
      have hpos := List.length_pos_of_ne_nil (hne p hp)
      have hle := hbegins.length_le
      have hlt : (t.drop p.1.length).length < n := by rw [List.length_drop]; omega
      exact take t p h (ih _ hlt _ rfl)

/-! ### One string -/

theorem hit_singleton_eq_none_iff {q r t : List α} : hit [(q, r)] t = none ↔ ¬ q <+: t := by
  rw [hit_eq_none_iff, List.forall_mem_singleton]

@[simp] theorem replaceAll_nil (q r : List α) : replaceAll q r [] = [] := rfl

theorem replaceAll_cons {q r t : List α} {c : α} (h : ¬ q <+: c :: t) :
    replaceAll q r (c :: t) = c :: replaceAll q r t :=
  substitute_of_none (hit_singleton_eq_none_iff.2 h)

theorem replaceAll_append_self {q : List α} (hq : q ≠ []) (r t : List α) :
    replaceAll q r (q ++ t) = r ++ replaceAll q r t := by
  have hhit : hit [(q, r)] (q ++ t) = some (q, r) := hit_cons_of_begins (List.prefix_append q t)
  rw [replaceAll, substitute_of_some hhit hq, List.drop_left]
  rfl

/-- As far as the string begins nowhere, the text is copied. -/
theorem replaceAll_append {q s t : List α} (r : List α)
    (h : ∀ k < s.length, ¬ q <+: (s ++ t).drop k) :
    replaceAll q r (s ++ t) = s ++ replaceAll q r t :=
  substitute_append fun k hk => hit_singleton_eq_none_iff.2 (h k hk)

/-- A text in which the string does not stand is left as it is. -/
theorem replaceAll_eq_self {q t : List α} (r : List α) (h : ¬ q <:+: t) :
    replaceAll q r t = t := by
  have hcopy := replaceAll_append (q := q) (s := t) (t := []) r fun k _ hk =>
    h ((List.append_nil t ▸ hk).isInfix.trans (List.drop_suffix k t).isInfix)
  simpa using hcopy

/-! ### One string after the other -/

/-- How often a string stands in a text, occurrences that overlap counted as well. -/
def occurrences (q : List α) : List α → ℕ
  | [] => 0
  | c :: t => (if q.isPrefixOf (c :: t) then 1 else 0) + occurrences q t

theorem occurrences_cons_of_begins {q t : List α} {c : α} (h : q <+: c :: t) :
    occurrences q (c :: t) = occurrences q t + 1 := by
  rw [occurrences, if_pos (List.isPrefixOf_iff_prefix.2 h), Nat.add_comm]

theorem occurrences_cons_of_not_begins {q t : List α} {c : α} (h : ¬ q <+: c :: t) :
    occurrences q (c :: t) = occurrences q t := by
  rw [occurrences, if_neg (List.isPrefixOf_iff_prefix.not.2 h), Nat.zero_add]

theorem occurrences_le_cons (q t : List α) (c : α) :
    occurrences q t ≤ occurrences q (c :: t) := by
  rw [occurrences]
  omega

theorem occurrences_le_append (q s t : List α) : occurrences q t ≤ occurrences q (s ++ t) := by
  induction s with
  | nil => exact Nat.le_refl _
  | cons c s ih => exact ih.trans (occurrences_le_cons ..)

theorem occurrences_append_of_not_begins {q s t : List α}
    (h : ∀ k < s.length, ¬ q <+: (s ++ t).drop k) : occurrences q (s ++ t) = occurrences q t := by
  induction s with
  | nil => rfl
  | cons c s ih =>
    have hfirst : ¬ q <+: c :: (s ++ t) := h 0 (Nat.succ_pos _)
    rw [List.cons_append, occurrences_cons_of_not_begins hfirst]
    exact ih fun k hk => h (k + 1) (Nat.succ_lt_succ hk)

/-- When a text in front adds no occurrence, the string begins nowhere in it. -/
theorem not_prefix_of_occurrences_append_le {q s t : List α}
    (h : occurrences q (s ++ t) ≤ occurrences q t) : ∀ k < s.length, ¬ q <+: (s ++ t).drop k := by
  induction s with
  | nil => intro k hk; exact absurd hk (Nat.not_lt_zero k)
  | cons c s ih =>
    intro k hk hstands
    have hle := occurrences_le_append q s t
    cases k with
    | zero =>
      have := occurrences_cons_of_begins (t := s ++ t) hstands
      rw [List.cons_append] at h
      omega
    | succ k =>
      have hcons := occurrences_le_cons q (s ++ t) c
      exact ih (hcons.trans h) k (Nat.lt_of_succ_lt_succ hk) hstands

/-! ### A replacement after a simultaneous substitution -/

section After

variable {table : List (List α × List α)} {q t : List α}

/-- A string that stands apart from the strings of the table is copied. -/
theorem substitute_of_apart (hne : ∀ p ∈ table, p.1 ≠ [])
    (hapart : ∀ p ∈ table, Apart t q p.1) (hq : q <+: t) :
    substitute table t = q ++ substitute table (t.drop q.length) := by
  obtain ⟨s, rfl⟩ := hq
  rw [List.drop_left]
  exact substitute_append fun k hk => hit_eq_none_iff.2 fun p hp =>
    (hapart p hp).not_begins (hne p hp) (List.prefix_append q s) hk

theorem prefix_cons_substitute {c : α} (hne : ∀ p ∈ table, p.1 ≠ [])
    (hapart : ∀ p ∈ table, Apart (c :: t) q p.1) (h : hit table (c :: t) = none)
    (hq : q <+: c :: t) : q <+: c :: substitute table t := by
  rw [← substitute_of_none h, substitute_of_apart hne hapart hq]
  exact List.prefix_append ..

/-- Where a string of the table stands, the string does not begin. -/
theorem occurrences_drop_of_hit {p : List α × List α} (hq : q ≠ [])
    (hapart : ∀ p ∈ table, Apart t q p.1) (h : hit table t = some p) :
    occurrences q t = occurrences q (t.drop p.1.length) := by
  obtain ⟨hp, s, rfl⟩ := prefix_of_hit h
  rw [List.drop_left]
  exact occurrences_append_of_not_begins fun k hk =>
    (hapart p hp).symm.not_begins hq (List.prefix_append p.1 s) hk

/-- A substitution destroys no occurrence of a string that stands apart. -/
theorem occurrences_le_substitute (hne : ∀ p ∈ table, p.1 ≠ []) (hq : q ≠ [])
    (hapart : ∀ p ∈ table, Apart t q p.1) :
    occurrences q t ≤ occurrences q (substitute table t) := by
  induction t using scan_induction hne with
  | nil => exact Nat.le_refl _
  | copy c t h ih =>
    have hle := ih fun p hp => (hapart p hp).drop 1
    by_cases hstands : q <+: c :: t
    · have hcopied := prefix_cons_substitute hne hapart h hstands
      rw [substitute_of_none h, occurrences_cons_of_begins hstands,
        occurrences_cons_of_begins hcopied]
      exact Nat.succ_le_succ hle
    · rw [substitute_of_none h, occurrences_cons_of_not_begins hstands]
      exact hle.trans (occurrences_le_cons ..)
  | take t p h ih =>
    have hp := (prefix_of_hit h).1
    rw [occurrences_drop_of_hit hq hapart h, substitute_of_some h (hne p hp)]
    exact (ih fun p hp => (hapart p hp).drop _).trans (occurrences_le_append ..)

/-- When a substitution gives rise to no occurrence, it does not behind a text that it copies. -/
theorem occurrences_substitute_le_of_append {s : List α} (hne : ∀ p ∈ table, p.1 ≠ [])
    (hapart : ∀ p ∈ table, Apart (s ++ t) q p.1)
    (hcopy : ∀ k < s.length, hit table ((s ++ t).drop k) = none)
    (h : occurrences q (substitute table (s ++ t)) ≤ occurrences q (s ++ t)) :
    occurrences q (substitute table t) ≤ occurrences q t := by
  induction s with
  | nil => exact h
  | cons c s ih =>
    have hnone : hit table (c :: (s ++ t)) = none := hcopy 0 (Nat.succ_pos _)
    refine ih (fun p hp => (hapart p hp).drop 1)
      (fun k hk => hcopy (k + 1) (Nat.succ_lt_succ hk)) ?_
    rw [List.cons_append, substitute_of_none hnone] at h
    by_cases hstands : q <+: c :: (s ++ t)
    · have hcopied : q <+: c :: substitute table (s ++ t) :=
        prefix_cons_substitute hne hapart hnone hstands
      rw [occurrences_cons_of_begins hstands, occurrences_cons_of_begins hcopied] at h
      exact Nat.le_of_succ_le_succ h
    · rw [occurrences_cons_of_not_begins hstands] at h
      exact (occurrences_le_cons ..).trans h

/-- **A replacement that follows a substitution.** It can be done at the same time, if the string
stands apart from the others and the substitution gives rise to no new occurrence of it. -/
theorem replaceAll_substitute (r : List α) (hne : ∀ p ∈ table, p.1 ≠ []) (hq : q ≠ [])
    (hapart : ∀ p ∈ table, Apart t q p.1)
    (hnew : occurrences q (substitute table t) ≤ occurrences q t) :
    replaceAll q r (substitute table t) = substitute ((q, r) :: table) t := by
  have hne' : ∀ p ∈ (q, r) :: table, p.1 ≠ [] := List.forall_mem_cons.2 ⟨hq, hne⟩
  induction t using scan_induction hne' with
  | nil => rfl
  | copy c t h ih =>
    obtain ⟨hstands, hothers⟩ := List.forall_mem_cons.1 (hit_eq_none_iff.1 h)
    have hnone : hit table (c :: t) = none := hit_eq_none_iff.2 hothers
    have hapart' : ∀ p ∈ table, Apart t q p.1 := fun p hp => (hapart p hp).drop 1
    rw [substitute_of_none hnone, occurrences_cons_of_not_begins hstands] at hnew
    have hbegins : ¬ q <+: c :: substitute table t :=
      not_prefix_of_occurrences_append_le (s := [c])
        (hnew.trans (occurrences_le_substitute hne hq hapart')) 0 Nat.one_pos
    rw [substitute_of_none hnone, replaceAll_cons hbegins, substitute_of_none h,
      ih hapart' ((occurrences_le_cons ..).trans hnew)]
  | take t p h ih =>
    have hapart' : ∀ p' ∈ table, Apart (t.drop p.1.length) q p'.1 :=
      fun p' hp' => (hapart p' hp').drop _
    by_cases hstands : q <+: t
    · -- the string itself is taken out
      obtain ⟨s, rfl⟩ := hstands
      obtain rfl : (q, r) = p := by
        rw [hit_cons_of_begins (List.prefix_append q s)] at h
        exact Option.some.inj h
      have hcopy : ∀ k < q.length, hit table ((q ++ s).drop k) = none := fun k hk =>
        hit_eq_none_iff.2 fun p hp =>
          (hapart p hp).not_begins (hne p hp) (List.prefix_append q s) hk
      have hnew' := occurrences_substitute_le_of_append hne hapart hcopy hnew
      rw [List.drop_left] at ih hapart'
      rw [substitute_append hcopy, replaceAll_append_self hq, ih hapart' hnew',
        substitute_of_some h hq, List.drop_left]
    · -- another string is taken out, and the string begins nowhere in its replacement
      have hit' : hit table t = some p := by rwa [hit_cons_of_not_begins hstands] at h
      have hp := hne p (prefix_of_hit hit').1
      rw [substitute_of_some hit' hp, occurrences_drop_of_hit hq hapart hit'] at hnew
      have hnowhere := not_prefix_of_occurrences_append_le
        (hnew.trans (occurrences_le_substitute hne hq hapart'))
      rw [substitute_of_some hit' hp, replaceAll_append r hnowhere, substitute_of_some h hp,
        ih hapart' ((occurrences_le_append ..).trans hnew)]

end After

/-! ### One string after the other -/

section Sequence

variable {table table' : List (List α × List α)} {t : List α}

/-- No text that replacing some strings of the table leads to has more occurrences of another of
them than the text at the beginning. -/
def GivesRiseToNone (table : List (List α × List α)) (t : List α) : Prop :=
  ∀ l p, (l ++ [p]).Subperm table → occurrences p.1 (replaceEach l t) ≤ occurrences p.1 t

theorem GivesRiseToNone.subperm (h : GivesRiseToNone table t) (hsub : table'.Subperm table) :
    GivesRiseToNone table' t :=
  fun l p hl => h l p (hl.trans hsub)

/-- Whether replacements give rise to none can be checked: there are finitely many orders. -/
instance : Decidable (GivesRiseToNone table t) :=
  decidable_of_iff (∀ s ∈ table.sublists, ∀ m ∈ s.permutations', ∀ p, m.getLast? = some p →
      occurrences p.1 (replaceEach m.dropLast t) ≤ occurrences p.1 t) <| by
    constructor
    · rintro h l p ⟨s, hperm, hsub⟩
      have hm : l ++ [p] ∈ s.permutations' := List.mem_permutations'.2 hperm.symm
      simpa using h s (List.mem_sublists.2 hsub) _ hm p (by simp)
    · intro h s hs m hm p hp
      obtain ⟨l, rfl⟩ := List.getLast?_eq_some_iff.1 hp
      have hsub : (l ++ [p]).Subperm table :=
        ⟨s, (List.mem_permutations'.1 hm).symm, List.mem_sublists.1 hs⟩
      simpa using h l p hsub

theorem hit_perm (h : Separate table t) (hperm : table.Perm table') (k : ℕ) :
    hit table (t.drop k) = hit table' (t.drop k) := by
  cases hhit : hit table (t.drop k) with
  | none =>
    refine (hit_eq_none_iff.2 fun p hp => ?_).symm
    exact hit_eq_none_iff.1 hhit p (hperm.mem_iff.2 hp)
  | some p =>
    obtain ⟨hp, hstands⟩ := prefix_of_hit hhit
    cases hhit' : hit table' (t.drop k) with
    | none => exact absurd hstands (hit_eq_none_iff.1 hhit' p (hperm.mem_iff.1 hp))
    | some p' =>
      obtain ⟨hp', hstands'⟩ := prefix_of_hit hhit'
      rw [h.eq_of_begins hp (hperm.mem_iff.2 hp') hstands hstands']

/-- **The order of the table does not matter** when its strings stand apart in the text. -/
theorem substitute_perm (h : Separate table t) (hperm : table.Perm table') :
    substitute table t = substitute table' t := by
  induction t using scan_induction h.nonempty with
  | nil => rfl
  | copy c t hhit ih =>
    have hhit' : hit table' (c :: t) = none := by rw [← hhit]; exact (hit_perm h hperm 0).symm
    rw [substitute_of_none hhit, substitute_of_none hhit', ih (h.drop 1)]
  | take t p hhit ih =>
    have hhit' : hit table' t = some p := by rw [← hhit]; exact (hit_perm h hperm 0).symm
    have hp := h.nonempty p (prefix_of_hit hhit).1
    rw [substitute_of_some hhit hp, substitute_of_some hhit' hp, ih (h.drop _)]

theorem replaceEach_append (table table' : List (List α × List α)) (t : List α) :
    replaceEach (table ++ table') t = replaceEach table' (replaceEach table t) := by
  rw [replaceEach, List.foldl_append, replaceEach, replaceEach]

theorem replaceEach_cons (p : List α × List α) (table : List (List α × List α)) (t : List α) :
    replaceEach (p :: table) t = replaceEach table (replaceAll p.1 p.2 t) := rfl

theorem replaceEach_append_singleton (p : List α × List α) :
    replaceEach (table ++ [p]) t = replaceAll p.1 p.2 (replaceEach table t) :=
  replaceEach_append ..

/-- A text in which no string of the table stands is left as it is. -/
theorem replaceEach_eq_self (h : ∀ p ∈ table, ¬ p.1 <:+: t) : replaceEach table t = t := by
  induction table with
  | nil => rfl
  | cons p table ih =>
    obtain ⟨hp, htable⟩ := List.forall_mem_cons.1 h
    rw [replaceEach_cons, replaceAll_eq_self p.2 hp, ih htable]

/-- **When replacements in sequence are simultaneous.** -/
theorem replaceEach_eq_substitute (h : Separate table t) (hnew : GivesRiseToNone table t) :
    replaceEach table t = substitute table t := by
  induction table using List.reverseRecOn with
  | nil =>
    have hcopy : substitute [] (t ++ []) = t ++ substitute [] [] := substitute_append fun k _ => rfl
    rw [List.append_nil, substitute_nil, List.append_nil] at hcopy
    exact hcopy.symm
  | append_singleton l p ih =>
    have hsub : l.Sublist (l ++ [p]) := List.sublist_append_left ..
    have hp : p ∈ l ++ [p] := List.mem_append_right l (List.mem_singleton_self p)
    have hl := ih (h.sublist hsub) (hnew.subperm hsub.subperm)
    have hapart : ∀ p' ∈ l, Apart t p.1 p'.1 := fun p' hp' =>
      h.apart p hp p' (hsub.subset hp') (h.ne_of_append_singleton hp')
    have hcount := hnew l p (List.Subperm.refl _)
    rw [hl] at hcount
    rw [replaceEach_append_singleton, hl, replaceAll_substitute p.2 (h.sublist hsub).nonempty
      (h.nonempty p hp) hapart hcount]
    exact (substitute_perm h List.perm_append_comm).symm

end Sequence

/-! ### Fenced pieces -/

section Fence

variable {q : List α}

/-- Pieces none of which the string can reach out of: it does not begin with a character of the
text, and behind every label stands a character that it does not contain. -/
def fenced (q : List α) : List (α ⊕ β) → Bool
  | [] => true
  | .inl c :: ps => q.head? != some c && fenced q ps
  | .inr _ :: .inl c :: ps => !q.contains c && fenced q (.inl c :: ps)
  | .inr _ :: _ => false

/-- A character that the string does not contain parts the text. -/
theorem replaceAll_append_cons (hq : q ≠ []) (r s t : List α) {c : α} (hc : c ∉ q) :
    replaceAll q r (s ++ c :: t) = replaceAll q r s ++ replaceAll q r (c :: t) := by
  have hne : ∀ p ∈ [(q, r)], p.1 ≠ [] := List.forall_mem_singleton.2 hq
  induction s using scan_induction hne with
  | nil => rfl
  | copy a s h ih =>
    have hstands := hit_singleton_eq_none_iff.1 h
    have hstands' : ¬ q <+: a :: (s ++ c :: t) := fun hbegins =>
      hstands (prefix_of_prefix_append_cons (s := a :: s) hc hbegins)
    rw [List.cons_append, replaceAll_cons hstands', replaceAll_cons hstands, ih, List.cons_append]
  | take s p h ih =>
    obtain ⟨hp, s', rfl⟩ := prefix_of_hit h
    obtain rfl := List.mem_singleton.1 hp
    rw [List.drop_left] at ih
    rw [List.append_assoc, replaceAll_append_self hq, replaceAll_append_self hq, ih,
      List.append_assoc]

/-- Induction along pieces that are fenced against some strings. -/
@[elab_as_elim]
theorem fenced_induction {queries : List (List α)} {P : List (α ⊕ β) → Prop} (hq : queries ≠ [])
    (nil : P [])
    (text : ∀ c ps, (∀ q ∈ queries, q.head? ≠ some c) → P ps → P (.inl c :: ps))
    (label : ∀ b c ps, (∀ q ∈ queries, c ∉ q) → P (.inl c :: ps) → P (.inr b :: .inl c :: ps))
    (ps : List (α ⊕ β)) (h : ∀ q ∈ queries, fenced q ps = true) : P ps := by
  induction ps with
  | nil => exact nil
  | cons p ps ih =>
    obtain ⟨q, hq⟩ := List.exists_mem_of_ne_nil queries hq
    have hfirst := h q hq
    match p, ps, h, hfirst, ih with
    | .inl c, ps, h, _, ih =>
      simp only [fenced, Bool.and_eq_true, bne_iff_ne] at h
      exact text c ps (fun q hq => (h q hq).1) (ih fun q hq => (h q hq).2)
    | .inr b, .inl c :: ps, h, _, ih =>
      simp only [fenced, Bool.and_eq_true, Bool.not_eq_true', List.contains_eq_mem,
        decide_eq_false_iff_not] at h ih
      exact label b c ps (fun q hq => (h q hq).1) (ih fun q hq => (h q hq).2)

/-- Strings with fewer characters and the same first one are fenced off as well. -/
theorem fenced_of_subset {q' : List α} (hhead : q'.head? = q.head?) (hsub : q' ⊆ q)
    {ps : List (α ⊕ β)} (h : fenced q ps = true) : fenced q' ps = true := by
  refine fenced_induction (List.cons_ne_nil q []) ?nil ?text ?label ps
    (List.forall_mem_singleton.2 h)
  case nil => rfl
  case text =>
    intro c ps hc ih
    have hc' : q'.head? ≠ some c := hhead ▸ hc q (List.mem_cons_self ..)
    simp [fenced, ih, hc']
  case label =>
    intro b c ps hc ih
    have hc' : c ∉ q' := fun hmem => hc q (List.mem_cons_self ..) (hsub hmem)
    rw [fenced, ih]
    simp [hc']

/-- **A replacement in a text with fenced pieces** acts on every piece alone. -/
theorem replaceAll_render (hq : q ≠ []) (r : List α) {ps : List (α ⊕ β)}
    (h : fenced q ps = true) (f : β → List α) :
    replaceAll q r (render f ps) = render (fun b => replaceAll q r (f b)) ps := by
  refine fenced_induction (List.cons_ne_nil q []) ?nil ?text ?label ps
    (List.forall_mem_singleton.2 h)
  case nil => rfl
  case text =>
    intro c ps hc ih
    have hstands : ¬ q <+: c :: render f ps :=
      not_begins_of_head? hq (hc q (List.mem_cons_self ..))
    rw [render_inl, replaceAll_cons hstands, ih, render_inl]
  case label =>
    intro b c ps hc ih
    have hc' : c ∉ q := hc q (List.mem_cons_self ..)
    rw [render_inr, render_inr, ← ih, render_inl, replaceAll_append_cons hq r (f b) _ hc']

/-- **Pieces are found again** in the text that has the strings of the table in the place of their
labels, if it is fenced against these strings. -/
theorem pieces_render {table : List (List α × β)} (htable : table ≠ [])
    (hne : ∀ p ∈ table, p.1 ≠ []) (hone : ∀ p ∈ table, ∀ p' ∈ table, p.1 <+: p'.1 → p = p')
    {f : β → List α} (hf : ∀ b, (f b, b) ∈ table) {ps : List (α ⊕ β)}
    (h : ∀ q ∈ table.map Prod.fst, fenced q ps = true) : pieces table (render f ps) = ps := by
  have hmap : table.map Prod.fst ≠ [] := fun hnil => htable (List.map_eq_nil_iff.1 hnil)
  refine fenced_induction hmap ?nil ?text ?label ps h
  case nil => rfl
  case text =>
    intro c ps hc ih
    have hnone : hit table (c :: render f ps) = none := hit_eq_none_iff.2 fun p hp =>
      not_begins_of_head? (hne p hp) (hc p.1 (List.mem_map_of_mem hp))
    rw [render_inl, pieces_of_none hnone, ih]
  case label =>
    intro b c ps hc ih
    have hsome : hit table (f b ++ render f (.inl c :: ps)) = some (f b, b) := by
      cases hhit : hit table (f b ++ render f (.inl c :: ps)) with
      | none => exact absurd (List.prefix_append ..) (hit_eq_none_iff.1 hhit _ (hf b))
      | some p =>
        obtain ⟨hp, hstands⟩ := prefix_of_hit hhit
        have hshort := prefix_of_prefix_append_cons (hc p.1 (List.mem_map_of_mem hp)) hstands
        rw [hone p hp _ (hf b) hshort]
    rw [render_inr, pieces_of_some hsome (hne _ (hf b)), List.drop_left, ih]

theorem replaceEach_render {table : List (List α × List α)} {ps : List (α ⊕ β)}
    (h : ∀ p ∈ table, p.1 ≠ [] ∧ fenced p.1 ps = true) (f : β → List α) :
    replaceEach table (render f ps) = render (fun b => replaceEach table (f b)) ps := by
  induction table generalizing f with
  | nil => rfl
  | cons p table ih =>
    obtain ⟨⟨hne, hfenced⟩, hrest⟩ := List.forall_mem_cons.1 h
    rw [replaceEach, List.foldl_cons, replaceAll_render hne p.2 hfenced]
    exact ih hrest _

end Fence

end Substitution
