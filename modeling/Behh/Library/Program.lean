import Mathlib.Data.Nat.Notation
import Mathlib.Tactic.Common

/-!
# Programs over a state, some runs of which have no outcome

A program over a state `σ` takes a state to a result and a new state, or to nothing at all. A
run without outcome is one the language gives no meaning to (a write past the end of an array,
a signed overflow) or one that has used up the iterations a loop was granted.

Calls of code that is not modelled enter a program through `Prog.call`, as arbitrary functions
on the state. An invariant of the state that every call keeps is kept by every program built
from the calls (`Prog.Keeps`), loops included (`Prog.keeps_whileLoop`).

## Main definitions

* `Prog σ α`: programs, a monad.
* `Prog.call`, `Prog.lift`: a call that always has an outcome, and one that does not see the state.
* `Prog.zoom`: a program on a part of the state.
* `Prog.whileLoop`: a loop with a bound on the number of iterations.
* `iterWhile`: the same for a loop body without effects.
* `Prog.Keeps`: partial correctness for an invariant of the state.
* `Prog.Grows`: an outcome for every run, and a measure of the state that does not decrease.
* `Prog.Simulates`: a program that is another one on an abstraction of the state, with a
  precondition and a postcondition.
* `Prog.Refines`: the same with an invariant.

## Main results

* `Prog.bind_eq_some_iff`: the runs of a sequential composition.
* `Prog.keeps_whileLoop`: the loop rule for invariants of the state.
* `Prog.Simulates.bind`, `Prog.Refines.bind`, `Prog.Refines.mapM`: refinements compose.
* `iterWhile_spec`: the loop rule for total correctness, with an invariant and a variant.
-/

/-- `while (cond b) b = body b;`, granted `fuel` iterations. -/
def iterWhile {β : Type} (cond : β → Bool) (body : β → β) : ℕ → β → β
  | 0, b => b
  | fuel + 1, b => if cond b then iterWhile cond body fuel (body b) else b

/-- **Loop rule with a variant.** If every iteration keeps the invariant `I` and decreases `μ`,
then `μ b` iterations are enough for the loop from `b` to end, in a state with `I`. -/
theorem iterWhile_spec {β : Type} {cond : β → Bool} {body : β → β} (I : β → Prop) (μ : β → ℕ)
    (hstep : ∀ b, I b → cond b = true → I (body b) ∧ μ (body b) < μ b) {fuel : ℕ} {b : β}
    (hfuel : μ b ≤ fuel) (hb : I b) :
    I (iterWhile cond body fuel b) ∧ cond (iterWhile cond body fuel b) = false := by
  induction fuel generalizing b with
  | zero =>
    refine ⟨hb, ?_⟩
    cases h : cond b with
    | true => exact absurd (hstep b hb h).2 (by omega)
    | false => exact h
  | succ fuel ih =>
    cases h : cond b with
    | true =>
      obtain ⟨hI, hμ⟩ := hstep b hb h
      simpa only [iterWhile, h, ite_true] using ih (by omega) hI
    | false => simpa [iterWhile, h] using hb

/-- A program on the state `σ` with results in `α`; `none` is a run without outcome. -/
abbrev Prog (σ α : Type) : Type := StateT σ Option α

namespace Prog

variable {σ τ α β γ : Type}

/-- A call of code that always returns. -/
def call (f : σ → α × σ) : Prog σ α := fun s => some (f s)

/-- A computation that does not see the state. -/
def lift (x : Option α) : Prog σ α := fun s => x.map fun a => (a, s)

/-- A program on the part of the state that `get` reads and `put` writes. -/
def zoom (get : σ → τ) (put : τ → σ → σ) (x : Prog τ α) : Prog σ α := fun s =>
  (x (get s)).map fun r => (r.1, put r.2 s)

@[simp] theorem pure_apply (a : α) (s : σ) : (pure a : Prog σ α) s = some (a, s) := rfl

@[simp] theorem bind_apply (x : Prog σ α) (f : α → Prog σ β) (s : σ) :
    (x >>= f) s = (x s).bind fun r => f r.1 r.2 := rfl

@[simp] theorem map_apply (f : α → β) (x : Prog σ α) (s : σ) :
    (f <$> x) s = (x s).map fun r => (f r.1, r.2) := by
  cases h : x s <;> simp [Functor.map, StateT.map, h]

@[simp] theorem call_apply (f : σ → α × σ) (s : σ) : call f s = some (f s) := rfl

@[simp] theorem lift_apply (x : Option α) (s : σ) : lift x s = x.map fun a => (a, s) := rfl

@[simp] theorem failure_apply (s : σ) : (failure : Prog σ α) s = none := rfl

@[simp] theorem zoom_apply (get : σ → τ) (put : τ → σ → σ) (x : Prog τ α) (s : σ) :
    zoom get put x s = (x (get s)).map fun r => (r.1, put r.2 s) := rfl

/-- A run of `x >>= f` is a run of `x` followed by a run of `f`. -/
theorem bind_eq_some_iff {x : Prog σ α} {f : α → Prog σ β} {s : σ} {r : β × σ} :
    (x >>= f) s = some r ↔ ∃ a s', x s = some (a, s') ∧ f a s' = some r := by
  simp [Option.bind_eq_some_iff]

/-! ### Loops -/

/-- `while (cond b) b = body b;`, granted `fuel` iterations. -/
def whileLoop (cond : β → Bool) (body : β → Prog σ β) : ℕ → β → Prog σ β
  | 0, b => if cond b then failure else pure b
  | fuel + 1, b => if cond b then body b >>= whileLoop cond body fuel else pure b

theorem whileLoop_of_false {cond : β → Bool} {body : β → Prog σ β} {b : β}
    (h : cond b = false) : (fuel : ℕ) → whileLoop cond body fuel b = pure b
  | 0 => by simp [whileLoop, h]
  | _ + 1 => by simp [whileLoop, h]

theorem whileLoop_succ_of_true {cond : β → Bool} {body : β → Prog σ β} {b : β}
    (h : cond b = true) (fuel : ℕ) :
    whileLoop cond body (fuel + 1) b = body b >>= whileLoop cond body fuel := by
  simp [whileLoop, h]

/-! ### Invariants of the state -/

/-- Every outcome of `x` from a state satisfying `I` is in a state satisfying `I`. -/
def Keeps (I : σ → Prop) (x : Prog σ α) : Prop :=
  ∀ s a s', I s → x s = some (a, s') → I s'

variable {I : σ → Prop}

theorem keeps_pure (a : α) : Keeps I (pure a : Prog σ α) := by
  intro s b s' hs h
  obtain ⟨-, rfl⟩ : a = b ∧ s = s' := by simpa using h
  exact hs

theorem keeps_failure : Keeps I (failure : Prog σ α) := by
  intro s a s' _ h
  simp at h

theorem keeps_call {f : σ → α × σ} (hf : ∀ s, I s → I (f s).2) : Keeps I (call f) := by
  intro s a s' hs h
  have h' : f s = (a, s') := by simpa using h
  simpa [h'] using hf s hs

theorem keeps_bind {x : Prog σ α} {f : α → Prog σ β} (hx : Keeps I x)
    (hf : ∀ a, Keeps I (f a)) : Keeps I (x >>= f) := by
  intro s b s' hs h
  obtain ⟨a, s₁, h₁, h₂⟩ := bind_eq_some_iff.1 h
  exact hf a s₁ b s' (hx s a s₁ hs h₁) h₂

theorem keeps_ite {c : Prop} [Decidable c] {x y : Prog σ α} (hx : Keeps I x) (hy : Keeps I y) :
    Keeps I (if c then x else y) := by
  split
  · exact hx
  · exact hy

/-- An invariant of a part of the state is kept by the programs on that part. -/
theorem keeps_zoom {get : σ → τ} {put : τ → σ → σ} {J : τ → Prop} {x : Prog τ α}
    (hx : Keeps J x) (hget : ∀ s, I s → J (get s)) (hput : ∀ t s, I s → J t → I (put t s)) :
    Keeps I (zoom get put x) := by
  intro s a s' hs h
  obtain ⟨⟨b, t⟩, hb, hr⟩ := Option.map_eq_some_iff.1 h
  obtain ⟨-, rfl⟩ : b = a ∧ put t s = s' := by simpa using hr
  exact hput t s hs (hx _ b t (hget s hs) hb)

/-- **Loop rule.** An invariant of the state that the body keeps is kept by the loop. -/
theorem keeps_whileLoop {cond : β → Bool} {body : β → Prog σ β} (hbody : ∀ b, Keeps I (body b)) :
    (fuel : ℕ) → (b : β) → Keeps I (whileLoop cond body fuel b)
  | 0, b => keeps_ite keeps_failure (keeps_pure b)
  | fuel + 1, b =>
    keeps_ite (keeps_bind (hbody b) (keeps_whileLoop hbody fuel)) (keeps_pure b)

/-! ### Programs that have an outcome -/

/-- Every run of `x` has an outcome, and `μ` does not get smaller in it. -/
def Grows (μ : σ → ℕ) (x : Prog σ α) : Prop := ∀ s, ∃ a s', x s = some (a, s') ∧ μ s ≤ μ s'

variable {μ : σ → ℕ}

/-- From states satisfying `P`, the runs of `x` are those of `y` on the abstraction `abs` of the
state, with the same results, and what they end with satisfies `Q`. -/
def Simulates (abs : σ → τ) (P : σ → Prop) (Q : α → σ → Prop) (x : Prog σ α) (y : Prog τ α) :
    Prop :=
  ∀ s, P s → (x s).map (fun r => (r.1, abs r.2)) = y (abs s) ∧ ∀ r, x s = some r → Q r.1 r.2

section Simulates

variable {abs : σ → τ} {P : σ → Prop} {Q : α → σ → Prop} {x : Prog σ α} {y : Prog τ α}

theorem simulates_pure {a : α} (h : ∀ s, P s → Q a s) : Simulates abs P Q (pure a) (pure a) := by
  intro s hs
  refine ⟨rfl, fun r hr => ?_⟩
  obtain rfl := Option.some.inj hr
  exact h s hs

theorem simulates_failure : Simulates abs P Q (failure : Prog σ α) failure :=
  fun _ _ => ⟨rfl, nofun⟩

theorem simulates_call {f : σ → α × σ} {g : τ → α × τ} (habs : ∀ s, (f s).1 = (g (abs s)).1 ∧
    abs (f s).2 = (g (abs s)).2) (h : ∀ s, P s → Q (f s).1 (f s).2) :
    Simulates abs P Q (call f) (call g) := by
  intro s hs
  refine ⟨congrArg some (Prod.ext (habs s).1 (habs s).2), fun r hr => ?_⟩
  obtain rfl := Option.some.inj hr
  exact h s hs

theorem Simulates.bind {R : β → σ → Prop} {f : α → Prog σ β} {g : α → Prog τ β}
    (hx : Simulates abs P Q x y) (hf : ∀ a, Simulates abs (Q a) R (f a) (g a)) :
    Simulates abs P R (x >>= f) (y >>= g) := by
  intro s hs
  obtain ⟨hxs, hQ⟩ := hx s hs
  rw [bind_apply, bind_apply, ← hxs]
  cases hrun : x s with
  | none => exact ⟨rfl, nofun⟩
  | some r => exact hf r.1 r.2 (hQ r hrun)

theorem simulates_ite {c : Prop} [Decidable c] {x' : Prog σ α} {y' : Prog τ α}
    (hx : c → Simulates abs P Q x y) (hx' : ¬ c → Simulates abs P Q x' y') :
    Simulates abs P Q (if c then x else x') (if c then y else y') := by
  split
  · exact hx ‹_›
  · exact hx' ‹_›

/-- More may be known before, and less is asked after. -/
theorem Simulates.mono {P' : σ → Prop} {Q' : α → σ → Prop} (h : Simulates abs P Q x y)
    (hP : ∀ s, P' s → P s) (hQ : ∀ a s, Q a s → Q' a s) : Simulates abs P' Q' x y :=
  fun s hs => ⟨(h s (hP s hs)).1, fun r hr => hQ _ _ ((h s (hP s hs)).2 r hr)⟩

end Simulates

/-- From states satisfying `I`, the runs of `x` are those of `y` on the abstraction `abs` of the
state, with the same results, and end in states satisfying `I`. -/
def Refines (abs : σ → τ) (I : σ → Prop) (x : Prog σ α) (y : Prog τ α) : Prop :=
  ∀ s, I s → (x s).map (fun r => (r.1, abs r.2)) = y (abs s) ∧ ∀ r, x s = some r → I r.2

variable {abs : σ → τ}

theorem refines_iff_simulates {x : Prog σ α} {y : Prog τ α} :
    Refines abs I x y ↔ Simulates abs I (fun _ => I) x y := Iff.rfl

theorem refines_pure (a : α) : Refines abs I (pure a) (pure a) :=
  refines_iff_simulates.2 (simulates_pure fun _ => id)

theorem Refines.bind {x : Prog σ α} {y : Prog τ α} {f : α → Prog σ β} {g : α → Prog τ β}
    (hx : Refines abs I x y) (hf : ∀ a, Refines abs I (f a) (g a)) :
    Refines abs I (x >>= f) (y >>= g) :=
  Simulates.bind (refines_iff_simulates.1 hx) fun a => refines_iff_simulates.1 (hf a)

theorem Refines.mapM {f : γ → Prog σ α} {g : γ → Prog τ α} (h : ∀ c, Refines abs I (f c) (g c))
    (cs : List γ) : Refines abs I (cs.mapM f) (cs.mapM g) := by
  induction cs with
  | nil => exact refines_pure []
  | cons c cs ih =>
    rw [List.mapM_cons, List.mapM_cons]
    exact (h c).bind fun a => ih.bind fun as => refines_pure (a :: as)

end Prog
