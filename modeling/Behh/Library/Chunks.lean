import Mathlib.Data.List.Forall2
import Mathlib.Data.Nat.Notation
import Mathlib.Tactic.Common

/-!
# Cutting a list into pieces of a fixed length

`chunks n l` is the list of the pieces that a reader with a buffer of `n` elements sees: all of
length `n` but the last one, which may be shorter. Pieces that are processed one by one and put
together again can be compared with the list they came from by counting an element that
processing does not add.

## Main definitions

* `List.chunks`: the pieces.

## Main results

* `List.chunks_induction`: induction along the pieces.
* `List.flatten_chunks`: the pieces make up the list.
* `List.length_chunks_le_one_iff`: when there is at most one piece.
* `List.chunks_flatten`, `List.chunks_flatten_map`: pieces that are put together can be told apart
  again, also when they have grown alike.
* `List.count_flatten_lt`: processing that adds an element nowhere and loses one in the first
  piece.
-/

namespace List

variable {α β : Type}

/-- The pieces of length `n` of a list, the last of which may be shorter. -/
def chunks (n : ℕ) (l : List α) : List (List α) :=
  if _h : l = [] ∨ n = 0 then [] else l.take n :: chunks n (l.drop n)
termination_by l.length
decreasing_by
  have := length_pos_of_ne_nil (not_or.1 ‹_›).1
  have := Nat.pos_of_ne_zero (not_or.1 ‹_›).2
  simp only [length_drop]
  omega

variable {n : ℕ}

@[simp] theorem chunks_nil : chunks n ([] : List α) = [] := by
  rw [chunks, dif_pos (Or.inl rfl)]

theorem chunks_of_ne_nil (hn : 0 < n) {l : List α} (hl : l ≠ []) :
    chunks n l = l.take n :: chunks n (l.drop n) := by
  rw [chunks, dif_neg (by rintro (h | h); exacts [hl h, by omega])]

theorem chunks_of_length_le (hn : 0 < n) {l : List α} (hl : l ≠ []) (hle : l.length ≤ n) :
    chunks n l = [l] := by
  rw [chunks_of_ne_nil hn hl, take_of_length_le hle, drop_of_length_le hle, chunks_nil]

theorem chunks_induction {P : List α → Prop} (hn : 0 < n) (nil : P [])
    (step : ∀ l, l ≠ [] → P (l.drop n) → P l) (l : List α) : P l := by
  induction hlen : l.length using Nat.strongRecOn generalizing l with
  | ind k ih =>
    by_cases hl : l = []
    · rwa [hl]
    · have hpos := length_pos_of_ne_nil hl
      exact step l hl (ih _ (by rw [length_drop]; omega) _ rfl)

theorem flatten_chunks (hn : 0 < n) (l : List α) : (chunks n l).flatten = l := by
  induction l using chunks_induction hn with
  | nil => simp
  | step l hl ih => rw [chunks_of_ne_nil hn hl, flatten_cons, ih, take_append_drop]

theorem chunks_eq_nil_iff (hn : 0 < n) {l : List α} : chunks n l = [] ↔ l = [] := by
  constructor
  · intro h
    rw [← flatten_chunks hn l, h, flatten_nil]
  · rintro rfl
    exact chunks_nil

/-- A list is one piece at most when it is not longer than a piece. -/
theorem length_chunks_le_one_iff (hn : 0 < n) {l : List α} :
    (chunks n l).length ≤ 1 ↔ l.length ≤ n := by
  by_cases hl : l = []
  · simp [hl]
  · rw [chunks_of_ne_nil hn hl, length_cons, ← drop_eq_nil_iff, ← chunks_eq_nil_iff hn,
      ← length_eq_zero_iff]
    omega

theorem length_le_of_mem_chunks (hn : 0 < n) {l c : List α} (hc : c ∈ chunks n l) :
    c.length ≤ n := by
  induction l using chunks_induction hn with
  | nil => simp at hc
  | step l hl ih =>
    rw [chunks_of_ne_nil hn hl, mem_cons] at hc
    rcases hc with rfl | hc
    · exact length_take_le _ _
    · exact ih hc

theorem chunks_append (hn : 0 < n) {c : List α} (hc : c.length = n) (l : List α) :
    chunks n (c ++ l) = c :: chunks n l := by
  have hne : c ++ l ≠ [] := append_ne_nil_of_left_ne_nil (ne_nil_of_length_pos (by omega)) l
  rw [chunks_of_ne_nil hn hne, take_left' hc, drop_left' hc]

/-- **Putting pieces together.** Nonempty pieces of length `n`, of which only the last may be
shorter, are the pieces of what they make up. -/
theorem chunks_flatten (hn : 0 < n) {cs : List (List α)} (hfull : ∀ c ∈ cs.dropLast, c.length = n)
    (hcs : ∀ c ∈ cs, c ≠ [] ∧ c.length ≤ n) : chunks n cs.flatten = cs := by
  induction cs with
  | nil => simp
  | cons c cs ih =>
    cases cs with
    | nil =>
      obtain ⟨hne, hle⟩ := hcs c mem_cons_self
      rw [flatten_singleton, chunks_of_length_le hn hne hle]
    | cons c' cs =>
      rw [dropLast_cons_cons, forall_mem_cons] at hfull
      rw [flatten_cons, chunks_append hn hfull.1,
        ih hfull.2 fun b hb => hcs b (mem_cons_of_mem c hb)]

theorem ne_nil_of_mem_chunks (hn : 0 < n) {l c : List α} (hc : c ∈ chunks n l) : c ≠ [] := by
  induction l using chunks_induction hn with
  | nil => simp at hc
  | step l hl ih =>
    rw [chunks_of_ne_nil hn hl, mem_cons] at hc
    rcases hc with rfl | hc
    · simpa [Nat.ne_of_gt hn] using hl
    · exact ih hc

theorem length_of_mem_dropLast_chunks (hn : 0 < n) {l c : List α}
    (hc : c ∈ (chunks n l).dropLast) : c.length = n := by
  induction l using chunks_induction hn with
  | nil => simp at hc
  | step l hl ih =>
    rw [chunks_of_ne_nil hn hl] at hc
    by_cases hdrop : l.drop n = []
    · simp [hdrop] at hc
    · rw [dropLast_cons_of_ne_nil (by rwa [Ne, chunks_eq_nil_iff hn]), mem_cons] at hc
      rcases hc with rfl | hc
      · have hlt : ¬ l.length ≤ n := fun h => hdrop (drop_eq_nil_iff.2 h)
        rw [length_take]
        omega
      · exact ih hc

/-- **Pieces that grow alike.** When processing makes pieces of length `k` out of the full pieces,
and nonempty pieces of length `k` at most out of shorter ones, cutting what comes out into pieces
of length `k` gives the processed pieces back. -/
theorem chunks_flatten_map {k : ℕ} (hk : 0 < k) {g : List α → List β}
    (hfull : ∀ c, c.length = n → (g c).length = k)
    (hlast : ∀ c, c ≠ [] → c.length ≤ n → g c ≠ [] ∧ (g c).length ≤ k) {cs : List (List α)}
    (hcs : ∀ c ∈ cs.dropLast, c.length = n) (hcs' : ∀ c ∈ cs, c ≠ [] ∧ c.length ≤ n) :
    chunks k (cs.map g).flatten = cs.map g := by
  refine chunks_flatten hk (fun b hb => ?_) fun b hb => ?_
  · rw [← map_dropLast] at hb
    obtain ⟨c, hc, rfl⟩ := mem_map.1 hb
    exact hfull c (hcs c hc)
  · obtain ⟨c, hc, rfl⟩ := mem_map.1 hb
    exact hlast c (hcs' c hc).1 (hcs' c hc).2

/-! ### Processing pieces one by one -/

/-- Every processed piece comes from one of the pieces. -/
theorem exists_of_forall₂_right {R : List α → β → Prop} {cs : List (List α)} {os : List β}
    (h : Forall₂ R cs os) {o : β} (ho : o ∈ os) : ∃ c ∈ cs, R c o := by
  induction h with
  | nil => simp at ho
  | cons hco _ ih =>
    rcases mem_cons.1 ho with rfl | ho
    · exact ⟨_, mem_cons_self, hco⟩
    · obtain ⟨c, hc, hr⟩ := ih ho
      exact ⟨c, mem_cons_of_mem _ hc, hr⟩

theorem exists_of_forall₂_left {R : List α → β → Prop} {cs : List (List α)} {os : List β}
    (h : Forall₂ R cs os) {c : List α} (hc : c ∈ cs) : ∃ o ∈ os, R c o := by
  induction h with
  | nil => simp at hc
  | cons hco _ ih =>
    rcases mem_cons.1 hc with rfl | hc
    · exact ⟨_, mem_cons_self, hco⟩
    · obtain ⟨o, ho, hr⟩ := ih hc
      exact ⟨o, mem_cons_of_mem _ ho, hr⟩

/-! ### Piecewise processing and counts -/

section Count

variable [BEq α] {a : α}

/-- Pieces that are processed without adding an `a` to any of them. -/
theorem count_flatten_le {cs os : List (List α)}
    (h : Forall₂ (fun c o => count a o ≤ count a c) cs os) :
    count a os.flatten ≤ count a cs.flatten := by
  induction h with
  | nil => exact Nat.le_refl _
  | cons hco _ ih =>
    rw [flatten_cons, flatten_cons, count_append, count_append]
    exact Nat.add_le_add hco ih

/-- If an `a` is lost in the first piece, there are fewer of them afterwards. -/
theorem count_flatten_lt {c o : List α} {cs os : List (List α)} (hco : count a o < count a c)
    (h : Forall₂ (fun c o => count a o ≤ count a c) cs os) :
    count a (o :: os).flatten < count a (c :: cs).flatten := by
  rw [flatten_cons, flatten_cons, count_append, count_append]
  exact Nat.add_lt_add_of_lt_of_le hco (count_flatten_le h)

end Count

end List
