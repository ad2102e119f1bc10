import Behh.Library.Program

/-!
# Loops that end, and loops that do not

A loop that is granted enough iterations has an outcome, if its body has one each time. Here the
loop is granted none: it runs, iteration after iteration, for as long as its condition holds, and
ends when some number of iterations is not reached. A run of the body without outcome ends the loop
as well.

## Main definitions

* `Prog.Running`: a number of iterations is reached.
* `Prog.Ends`: some number is not.

## Main results

* `Prog.ends_of_variant`: the loop rule with an invariant and a variant.
* `Prog.running_of_invariant`: an invariant from which an iteration always leads on.
* `Prog.whileLoop_eq_none_of_running`: a loop with a bound on the iterations, while it is running.
-/

namespace Prog

variable {σ β : Type} {cond : β → Bool} {body : β → Prog σ β}

/-- `while (cond b) b = body b;` makes `k` iterations and goes on. -/
def Running (cond : β → Bool) (body : β → Prog σ β) : ℕ → β → σ → Prop
  | 0, b, _ => cond b = true
  | k + 1, b, s =>
    cond b = true ∧ ∃ b' s', body b s = some (b', s') ∧ Running cond body k b' s'

/-- `while (cond b) b = body b;` makes finitely many iterations. -/
def Ends (cond : β → Bool) (body : β → Prog σ β) (b : β) (s : σ) : Prop :=
  ∃ k, ¬ Running cond body k b s

theorem Running.cond_eq_true {k : ℕ} {b : β} {s : σ} (h : Running cond body k b s) :
    cond b = true := by
  cases k with
  | zero => exact h
  | succ k => exact h.1

/-- **Loop rule with a variant.** Every iteration keeps the invariant `I`, and one after which the
loop goes on decreases `μ`. -/
theorem ends_of_variant (I : β → σ → Prop) (μ : β → σ → ℕ)
    (hstep : ∀ b s b' s', I b s → cond b = true → body b s = some (b', s') → cond b' = true →
      I b' s' ∧ μ b' s' < μ b s) {b : β} {s : σ} (hI : I b s) : Ends cond body b s := by
  have hbound : ∀ k b s, I b s → μ b s < k → ¬ Running cond body k b s := by
    intro k
    induction k with
    | zero => exact fun b s _ hlt => absurd hlt (Nat.not_lt_zero _)
    | succ k ih =>
      rintro b s hI hlt ⟨hcond, b', s', hbody, hrunning⟩
      obtain ⟨hI', hμ⟩ := hstep b s b' s' hI hcond hbody hrunning.cond_eq_true
      exact ih b' s' hI' (by omega) hrunning
  exact ⟨μ b s + 1, hbound _ b s hI (Nat.lt_succ_self _)⟩

/-- **A loop that does not end.** An iteration leads on from the invariant `I` and keeps it. -/
theorem running_of_invariant (I : β → σ → Prop) (hcond : ∀ b s, I b s → cond b = true)
    (hstep : ∀ b s, I b s → ∃ b' s', body b s = some (b', s') ∧ I b' s') {b : β} {s : σ}
    (hI : I b s) (k : ℕ) : Running cond body k b s := by
  induction k generalizing b s with
  | zero => exact hcond b s hI
  | succ k ih =>
    obtain ⟨b', s', hbody, hI'⟩ := hstep b s hI
    exact ⟨hcond b s hI, b', s', hbody, ih hI'⟩

theorem not_ends_of_running {b : β} {s : σ} (h : ∀ k, Running cond body k b s) :
    ¬ Ends cond body b s := by
  rintro ⟨k, hk⟩
  exact hk (h k)

theorem whileLoop_eq_none_of_running {k : ℕ} {b : β} {s : σ} (h : Running cond body k b s) :
    whileLoop cond body k b s = none := by
  induction k generalizing b s with
  | zero => rw [whileLoop, if_pos h.cond_eq_true, failure_apply]
  | succ k ih =>
    obtain ⟨hcond, b', s', hbody, hrunning⟩ := h
    rw [whileLoop_succ_of_true hcond, bind_apply, hbody, Option.bind_some, ih hrunning]

end Prog
