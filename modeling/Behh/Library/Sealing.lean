import Mathlib.Data.List.Infix
import Mathlib.Data.Nat.Notation
import Mathlib.Logic.Equiv.Basic
import Mathlib.Tactic.Common

/-!
# Sealings

A sealing is an encryption under a fixed key and nonce, with everything that decryption needs
(padding, authentication tag) inside the ciphertext. What is assumed of one is that decryption
undoes encryption; an authentic sealing opens nothing that it did not seal itself.

`Sealing.marked` seals a message by a run of marks behind it, the length of the run being told by
the mark. It conceals nothing, but it has the lengths of a real cipher and is authentic, and what
it makes of a piece of a ciphertext can be computed: it shows that assumptions on a cipher are
satisfiable, and it tells apart what follows from them and what does not.

## Main definitions

* `Sealing`, `Sealing.Authentic`
* `Sealing.relabel`: the same sealing with the ciphertexts renamed.
* `Sealing.marked`: sealing by a run of marks.

## Main results

* `Sealing.authentic_marked`: sealing by marks is authentic.
* `Sealing.dec_marked_truncated`: a ciphertext cut inside its marks does not open.
-/

/-- An encryption of lists over `α` and the decryption that undoes it. -/
structure Sealing (α : Type) where
  /-- The ciphertext of a message. -/
  enc : List α → List α
  /-- The message of a ciphertext, if it opens. -/
  dec : List α → Option (List α)
  dec_enc : ∀ m, dec (enc m) = some m

namespace Sealing

variable {α : Type}

/-- Nothing opens but what has been sealed. -/
def Authentic (S : Sealing α) : Prop := ∀ c m, S.dec c = some m → S.enc m = c

attribute [simp] dec_enc

/-! ### Renaming ciphertexts -/

/-- The same sealing with the ciphertexts renamed, for instance so that a given message gets a
given ciphertext. -/
def relabel (S : Sealing α) (e : Equiv.Perm (List α)) : Sealing α where
  enc m := e (S.enc m)
  dec c := S.dec (e.symm c)
  dec_enc m := by simp

theorem authentic_relabel {S : Sealing α} (h : S.Authentic) (e : Equiv.Perm (List α)) :
    (S.relabel e).Authentic := by
  intro c m hm
  exact (Equiv.eq_symm_apply e).1 (h _ _ hm)

/-- Two ciphertexts of one length can be exchanged without changing any length. -/
theorem length_enc_relabel_swap [DecidableEq α] (S : Sealing α) {c c' : List α}
    (h : c.length = c'.length) (m : List α) :
    ((S.relabel (Equiv.swap c c')).enc m).length = (S.enc m).length := by
  simp only [relabel, Equiv.swap_apply_def]
  split_ifs with hc hc'
  · rw [hc, h]
  · rw [hc', h]
  · rfl

/-! ### Sealing by marks -/

section Marked

/-- A message and the marks behind it: `g` of them for a message of length `n`, where `g` is
`gap n`, all equal to `mark g`. -/
def addMarks (gap : ℕ → ℕ) (mark : ℕ → α) (m : List α) : List α :=
  m ++ List.replicate (gap m.length) (mark (gap m.length))

variable {gap : ℕ → ℕ} {mark : ℕ → α}

theorem addMarks_injective (hgap : ∀ n, 0 < gap n)
    (hmark : ∀ n k, mark (gap n) = mark (gap k) → gap n = gap k) :
    Function.Injective (addMarks gap mark) := by
  intro m m' h
  have hlast := congrArg List.getLast? h
  rw [addMarks, addMarks, List.getLast?_append, List.getLast?_append,
    List.getLast?_replicate, List.getLast?_replicate, if_neg (hgap _).ne', if_neg (hgap _).ne',
    Option.some_or, Option.some_or, Option.some_inj] at hlast
  have hgaps := hmark _ _ hlast
  refine List.append_inj_left' h ?_
  rw [List.length_replicate, List.length_replicate, hgaps]

variable [DecidableEq α]

/-- Sealing by marks: the message of a ciphertext is the prefix that has these marks. -/
def marked (gap : ℕ → ℕ) (mark : ℕ → α) (hgap : ∀ n, 0 < gap n)
    (hmark : ∀ n k, mark (gap n) = mark (gap k) → gap n = gap k) : Sealing α where
  enc := addMarks gap mark
  dec c := c.inits.find? fun m => addMarks gap mark m = c
  dec_enc m := by
    rw [List.find?_eq_some_iff_getElem]
    obtain ⟨i, hi, hget⟩ := List.getElem_of_mem
      ((List.mem_inits m (addMarks gap mark m)).2 (List.prefix_append _ _))
    refine ⟨by simp, i, hi, hget, fun j hj => ?_⟩
    -- An earlier prefix is shorter than `m`, so that it has another ciphertext.
    have hne : (addMarks gap mark m).inits[j] ≠ m := by
      intro heq
      have hlen := congrArg List.length (heq.trans hget.symm)
      simp only [List.getElem_inits, List.length_take, List.length_inits] at hlen hi
      omega
    simpa using fun h => hne (addMarks_injective hgap hmark h)

variable {hgap : ∀ n, 0 < gap n} {hmark : ∀ n k, mark (gap n) = mark (gap k) → gap n = gap k}

theorem enc_marked (m : List α) :
    (marked gap mark hgap hmark).enc m =
      m ++ List.replicate (gap m.length) (mark (gap m.length)) := rfl

theorem length_enc_marked (m : List α) :
    ((marked gap mark hgap hmark).enc m).length = m.length + gap m.length := by
  rw [enc_marked, List.length_append, List.length_replicate]

theorem authentic_marked : (marked gap mark hgap hmark).Authentic := by
  intro c m h
  simp only [marked] at h
  simpa [marked] using List.find?_some h

/-- The number of elements that are not marks does not change. -/
theorem count_enc_marked {a : α} (ha : ∀ n, mark (gap n) ≠ a) (m : List α) :
    ((marked gap mark hgap hmark).enc m).count a = m.count a := by
  rw [enc_marked, List.count_append, List.count_replicate, if_neg (by simpa using ha _),
    Nat.add_zero]

/-- **A truncated ciphertext.** What is left of a ciphertext without its last mark does not open,
when the message ends in an element that is no mark. -/
theorem dec_marked_truncated {a : α} (ha : ∀ n, mark (gap n) ≠ a) (m : List α) {j : ℕ}
    (hj : j < gap (m.length + 1)) :
    (marked gap mark hgap hmark).dec
      (m ++ [a] ++ List.replicate j (mark (gap (m.length + 1)))) = none := by
  rw [Option.eq_none_iff_forall_not_mem]
  intro m' hm'
  have hrev := congrArg List.reverse (authentic_marked _ _ hm')
  simp only [enc_marked, List.reverse_append, List.reverse_replicate, List.reverse_singleton]
    at hrev
  -- Read from the end, the marks of `m'` reach beyond the `j` marks that are left.
  have hlt : j < gap m'.length := by
    rcases Nat.eq_zero_or_pos j with rfl | hpos
    · exact hgap _
    · have hhead := congrArg (fun l => l[0]?) hrev
      simp only [List.getElem?_append_left, List.length_replicate, hgap, hpos,
        List.getElem?_replicate, ite_true, Option.some_inj] at hhead
      rwa [hmark _ _ hhead]
  have hat := congrArg (fun l => l[j]?) hrev
  simp only [List.getElem?_append_left, List.getElem?_append_right, List.length_replicate, hlt,
    List.getElem?_replicate, ite_true, le_refl, Nat.sub_self] at hat
  exact ha _ (by simpa using hat)

end Marked

end Sealing
