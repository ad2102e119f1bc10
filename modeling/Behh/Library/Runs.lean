import Mathlib.Tactic.Common

/-!
# Runs of a system that takes steps

A run is a list of events; every event takes the system from one state to the next. A property
holds throughout a run when it holds in the first state and in every state that the run leads
through.

When one step keeps the property exactly under some condition on the state and the event, then a
whole run keeps it exactly when all its steps meet the condition.

## Main definitions

* `AllStates`, `AllSteps`: what holds in all states of a run, and at all its steps.

## Main results

* `allStates_iff_allSteps`: from one step to whole runs.
* `AllSteps.allStates`, `AllStates.last`: the same for a condition that is enough, and the last
  state.
-/

variable {σ ε : Type} (step : σ → ε → σ)

/-- `P` holds in all states of the run from `s` along the events. -/
def AllStates (P : σ → Prop) : σ → List ε → Prop
  | s, [] => P s
  | s, e :: es => P s ∧ AllStates P (step s e) es

/-- `C` holds at all steps of the run from `s` along the events. -/
def AllSteps (C : σ → ε → Prop) : σ → List ε → Prop
  | _, [] => True
  | s, e :: es => C s e ∧ AllSteps C (step s e) es

variable {step} {P : σ → Prop} {C : σ → ε → Prop}

theorem AllStates.first {s : σ} {es : List ε} (h : AllStates step P s es) : P s := by
  cases es with
  | nil => exact h
  | cons e es => exact h.1

/-- **From one step to whole runs.** -/
theorem allStates_iff_allSteps (hstep : ∀ s e, P s → (P (step s e) ↔ C s e)) {s : σ} (hs : P s)
    (es : List ε) : AllStates step P s es ↔ AllSteps step C s es := by
  induction es generalizing s with
  | nil => exact iff_of_true hs trivial
  | cons e es ih =>
    constructor
    · intro h
      have hnext : P (step s e) := h.2.first
      exact ⟨(hstep s e hs).1 hnext, (ih hnext).1 h.2⟩
    · intro h
      have hnext : P (step s e) := (hstep s e hs).2 h.1
      exact ⟨hs, (ih hnext).2 h.2⟩

/-- A property that every step with `C` keeps holds throughout a run of such steps. -/
theorem AllSteps.allStates (hstep : ∀ s e, P s → C s e → P (step s e)) {s : σ} {es : List ε}
    (h : AllSteps step C s es) (hs : P s) : AllStates step P s es := by
  induction es generalizing s with
  | nil => exact hs
  | cons e es ih => exact ⟨hs, ih h.2 (hstep s e hs h.1)⟩

theorem AllSteps.and {D : σ → ε → Prop} {s : σ} {es : List ε} (hC : AllSteps step C s es)
    (hD : AllSteps step D s es) : AllSteps step (fun s e => C s e ∧ D s e) s es := by
  induction es generalizing s with
  | nil => trivial
  | cons e es ih => exact ⟨⟨hC.1, hD.1⟩, ih hC.2 hD.2⟩

theorem AllStates.imp {Q : σ → Prop} (hPQ : ∀ s, P s → Q s) {s : σ} {es : List ε}
    (h : AllStates step P s es) : AllStates step Q s es := by
  induction es generalizing s with
  | nil => exact hPQ s h
  | cons e es ih => exact ⟨hPQ s h.1, ih h.2⟩

/-- What holds throughout a run holds at its end. -/
theorem AllStates.last {s : σ} {es : List ε} (h : AllStates step P s es) : P (es.foldl step s) := by
  induction es generalizing s with
  | nil => exact h
  | cons e es ih => exact ih h.2

instance AllSteps.decidable [∀ s e, Decidable (C s e)] :
    (s : σ) → (es : List ε) → Decidable (AllSteps step C s es)
  | _, [] => .isTrue trivial
  | s, e :: es =>
    haveI := AllSteps.decidable (step s e) es
    inferInstanceAs (Decidable (C s e ∧ AllSteps step C (step s e) es))
