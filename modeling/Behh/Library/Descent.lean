import Mathlib.Logic.Function.Iterate

/-!
# Iterations that come to an end

A function that is applied again and again, with an invariant, a goal, and a rank that decreases
until the goal is reached.

## Main results

* `Descent.exists_iterate`: the goal is reached.
* `Descent.exists_iterate_fixed`: nothing changes after that, when the goal is a fixed point of the
  values.
-/

namespace Descent

variable {α : Type*} {f : α → α} {p q : α → Prop} {rank : α → ℕ}

/-- **The goal is reached** after at most one step more than the rank. -/
theorem exists_iterate (hkeep : ∀ a, p a → p (f a))
    (hstep : ∀ a, p a → q (f a) ∨ rank (f a) < rank a) {a : α} (ha : p a) :
    ∃ k ≤ rank a + 1, q (f^[k] a) := by
  have hbound : ∀ n a, p a → rank a ≤ n → ∃ k ≤ n + 1, q (f^[k] a) := by
    intro n
    induction n with
    | zero =>
      intro a ha hle
      exact ⟨1, Nat.le_refl _, (hstep a ha).resolve_right (by omega)⟩
    | succ n ih =>
      intro a ha hle
      obtain hq | hlt := hstep a ha
      · exact ⟨1, by omega, hq⟩
      · obtain ⟨k, hk, hq⟩ := ih (f a) (hkeep a ha) (by omega)
        exact ⟨k + 1, by omega, by rwa [Function.iterate_succ_apply]⟩
  exact hbound (rank a) a ha (Nat.le_refl _)

/-- **Nothing changes any more** one step behind the goal. -/
theorem exists_iterate_fixed (hkeep : ∀ a, p a → p (f a))
    (hstep : ∀ a, p a → q (f a) ∨ rank (f a) < rank a)
    (hfixed : ∀ a, p a → q a → q (f a) ∧ f (f a) = f a) {a : α} (ha : p a) :
    ∃ n ≤ rank a + 2, q (f^[n] a) ∧ ∀ m ≥ n, f^[m] a = f^[n] a := by
  obtain ⟨k, hk, hq⟩ := exists_iterate hkeep hstep ha
  obtain ⟨hq', hsame⟩ := hfixed _ (Function.Iterate.rec p ha hkeep k) hq
  rw [← Function.iterate_succ_apply' f] at hq' hsame
  refine ⟨k + 1, by omega, hq', fun m hm => ?_⟩
  obtain ⟨j, rfl⟩ := Nat.exists_eq_add_of_le hm
  rw [Nat.add_comm, Function.iterate_add_apply, Function.iterate_fixed hsame]

end Descent
