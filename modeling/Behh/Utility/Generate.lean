import Behh.Constants
import Behh.Std.Bytes

/-!
# Random numbers and texts

`generate::random_number`, `generate::random_bytes` and the two functions that make random texts,
of `src/utility.cc`, lines 264–372.

The engines and distributions of `<random>` are deterministic: what they give depends on the value
of `std::random_device` they were seeded with (`Engine`). A random text is appended to a string
that was resized to the length before, so that it comes after as many NULs.

## Main definitions

* `Engine`, `Engine.lowest`: an engine with a uniform distribution on integers, and the simplest
  one.
* `randomNumber`, `randomBytes`: numbers and bytes.
* `randomAlphanumeric`, `randomAlphanumericWithSpecialCharacter`: texts.
* `IsRandomText`: a text of the length that was asked for, over an alphabet.

## Main results

* `randomNumber_inRange`: numbers that are drawn from an engine.
* `appendRandom_eq`: the loop that makes a text.
* `randomTexts_eq`: what the two functions return.
-/

namespace Behh

/-! ### Numbers and bytes -/

/-- A random engine, and the values that `std::uniform_int_distribution` draws from it. -/
structure Engine where
  /-- The states of the engine. -/
  State : Type
  /-- The state after seeding. -/
  seed : UInt32 → State
  /-- A value between two bounds, and the state of the engine afterwards. -/
  uniform : ℤ → ℤ → State → ℤ × State
  /-- The value is between the bounds. -/
  uniform_mem : ∀ {min max : ℤ} (s : State), min ≤ max →
    min ≤ (uniform min max s).1 ∧ (uniform min max s).1 ≤ max

variable {W : Type}

/-- `random_number`, with the values that `std::random_device` gives. -/
def randomNumber (engine : Engine) (rand : W → UInt32 × W) (min max : ℤ) (w : W) : ℤ × W :=
  ((engine.uniform min max (engine.seed (rand w).1)).1, (rand w).2)

/-- The bytes that are drawn one after the other. -/
def drawBytes (engine : Engine) : ℕ → engine.State → Bytes
  | 0, _ => []
  | n + 1, s =>
    let drawn := engine.uniform 0 255 s
    UInt8.ofInt drawn.1 :: drawBytes engine n drawn.2

theorem length_drawBytes (engine : Engine) (n : ℕ) (s : engine.State) :
    (drawBytes engine n s).length = n := by
  induction n generalizing s with
  | zero => rfl
  | succ n ih => rw [drawBytes, List.length_cons, ih]

/-- A `std::array<uint8_t, 16>`. -/
abbrev Array16 : Type := Fin 16 → UInt8

/-- `random_bytes`, for the value of `std::random_device`. -/
def randomBytes (engine : Engine) (rand : UInt32) : Array16 := fun i =>
  (drawBytes engine 16 (engine.seed rand)).get
    (i.cast (length_drawBytes engine 16 (engine.seed rand)).symm)

/-! ### Texts -/

/-- `s[k]`, where the position behind the last character holds a NUL. -/
def charAt (s : Bytes) (k : ℤ) : Option UInt8 := if 0 ≤ k then (cStr s)[k.toNat]? else none

/-- A source of numbers: what `random_number` returns for two bounds. -/
abbrev Numbers (W : Type) : Type := ℤ → ℤ → W → ℤ × W

/-- The numbers are between the bounds. -/
def Numbers.InRange (number : Numbers W) : Prop :=
  ∀ min max w, min ≤ max → min ≤ (number min max w).1 ∧ (number min max w).1 ≤ max

/-- What `random_number` returns is between the bounds, whatever the engine and the device are. -/
theorem randomNumber_inRange (engine : Engine) (rand : W → UInt32 × W) :
    Numbers.InRange (randomNumber engine rand) :=
  fun _ _ _ h => engine.uniform_mem _ h

/-- The loop that appends `n` characters of an alphabet. -/
def appendRandom (number : Numbers W) (alphabet : Bytes) : ℕ → Bytes → Prog W Bytes
  | 0, result => pure result
  | n + 1, result => do
    let k ← Prog.call (number 0 (alphabet.length - 1))
    let c ← Prog.lift (charAt alphabet k)
    appendRandom number alphabet n (result ++ [c])

/-- The common body of the two functions. -/
def randomText (alphabet : Bytes) (number : Numbers W) (length : ℕ) : Prog W Bytes :=
  let length := if length ≤ 0 then 1 else length
  appendRandom number alphabet length (resize [] length)

/-- `random_alphanumeric`. -/
def randomAlphanumeric : Numbers W → ℕ → Prog W Bytes := randomText alphanumeric

/-- `random_alphanumeric_with_special_character`. -/
def randomAlphanumericWithSpecialCharacter : Numbers W → ℕ → Prog W Bytes :=
  randomText alphanumericWithSpecialCharacter

/-- What the caller is promised: a text is returned, it has the length that was asked for, at least
one character, and all its characters are of the alphabet. -/
def IsRandomText (alphabet : Bytes) (length : ℕ) (outcome : Option (Bytes × W)) : Prop :=
  ∃ text w, outcome = some (text, w) ∧ text.length = max length 1 ∧ ∀ c ∈ text, c ∈ alphabet

/-- Twice as long a text, with NULs in its first half. -/
def IsPaddedText (alphabet : Bytes) (length : ℕ) (outcome : Option (Bytes × W)) : Prop :=
  ∃ chars w, outcome = some (List.replicate (max length 1) 0 ++ chars, w) ∧
    chars.length = max length 1 ∧ ∀ c ∈ chars, c ∈ alphabet

theorem charAt_mem {s : Bytes} {k : ℤ} (h0 : 0 ≤ k) (hk : k < s.length) :
    ∃ c, charAt s k = some c ∧ c ∈ s := by
  have hlt : k.toNat < s.length := by omega
  refine ⟨s[k.toNat], ?_, List.getElem_mem hlt⟩
  rw [charAt, if_pos h0, cStr, List.getElem?_append_left hlt, List.getElem?_eq_getElem hlt]

/-- **The loop.** It appends as many characters of the alphabet as it is told. -/
theorem appendRandom_eq {number : Numbers W} (hnumber : number.InRange) {alphabet : Bytes}
    (halphabet : alphabet ≠ []) (n : ℕ) (result : Bytes) (w : W) :
    ∃ chars w', appendRandom number alphabet n result w = some (result ++ chars, w') ∧
      chars.length = n ∧ ∀ c ∈ chars, c ∈ alphabet := by
  induction n generalizing result w with
  | zero => exact ⟨[], w, by rw [List.append_nil]; rfl, rfl, fun c hc => by cases hc⟩
  | succ n ih =>
    have hpos := List.length_pos_iff.2 halphabet
    obtain ⟨h0, hk⟩ := hnumber 0 (alphabet.length - 1) w (by omega)
    obtain ⟨c, hc, hmem⟩ := charAt_mem h0 (show _ < (alphabet.length : ℤ) by omega)
    obtain ⟨chars, w', hrest, hlen, hchars⟩ :=
      ih (result ++ [c]) (number 0 (alphabet.length - 1) w).2
    refine ⟨c :: chars, w', ?_, by rw [List.length_cons, hlen],
      List.forall_mem_cons.2 ⟨hmem, hchars⟩⟩
    rw [appendRandom, Prog.bind_apply, Prog.call_apply, Option.bind_some, Prog.bind_apply,
      Prog.lift_apply, hc, Option.map_some, Option.bind_some, hrest, List.append_assoc,
      List.singleton_append]

theorem randomText_isPaddedText {number : Numbers W} (hnumber : number.InRange) {alphabet : Bytes}
    (halphabet : alphabet ≠ []) (length : ℕ) (w : W) :
    IsPaddedText alphabet length (randomText alphabet number length w) := by
  have hlength : (if length ≤ 0 then 1 else length) = max length 1 := by
    split_ifs <;> omega
  obtain ⟨chars, w', hrun, hlen, hchars⟩ :=
    appendRandom_eq hnumber halphabet (max length 1) (List.replicate (max length 1) 0) w
  refine ⟨chars, w', ?_, hlen, hchars⟩
  rw [randomText, hlength, resize, List.take_nil, List.nil_append, List.length_nil, Nat.sub_zero,
    hrun]

/-- Such a text is not what the caller is promised. -/
theorem IsPaddedText.not_isRandomText {alphabet : Bytes} {length : ℕ}
    {outcome : Option (Bytes × W)} (h : IsPaddedText alphabet length outcome) :
    ¬ IsRandomText alphabet length outcome := by
  obtain ⟨chars, w, rfl, hchars, -⟩ := h
  rintro ⟨text, w', hsome, hlen, -⟩
  obtain ⟨rfl, -⟩ := Prod.mk.inj (Option.some_inj.1 hsome)
  rw [List.length_append, List.length_replicate, hchars] at hlen
  omega

/-- **Random texts**, for every length and whatever numbers are drawn: a text behind as many NULs,
and never a text of the length that was asked for. -/
theorem randomTexts_eq (number : Numbers W) (hnumber : number.InRange) (length : ℕ) (w : W) :
    (IsPaddedText alphanumeric length (randomAlphanumeric number length w) ∧
        ¬ IsRandomText alphanumeric length (randomAlphanumeric number length w)) ∧
      IsPaddedText alphanumericWithSpecialCharacter length
          (randomAlphanumericWithSpecialCharacter number length w) ∧
        ¬ IsRandomText alphanumericWithSpecialCharacter length
          (randomAlphanumericWithSpecialCharacter number length w) := by
  have hletters : IsPaddedText alphanumeric length (randomAlphanumeric number length w) :=
    randomText_isPaddedText hnumber (by decide) length w
  have hspecial : IsPaddedText alphanumericWithSpecialCharacter length
      (randomAlphanumericWithSpecialCharacter number length w) :=
    randomText_isPaddedText hnumber (by decide) length w
  exact ⟨⟨hletters, hletters.not_isRandomText⟩, hspecial, hspecial.not_isRandomText⟩

/-- An engine without a state, from which the lower bound is drawn. -/
def Engine.lowest : Engine where
  State := Unit
  seed _ := ()
  uniform min _ s := (min, s)
  uniform_mem _ h := ⟨le_refl _, h⟩

/-- `random_number` with this engine, and a device that always gives 0. -/
def lowest : Numbers Unit := randomNumber Engine.lowest fun w => (0, w)

theorem randomTexts_eq_lowest :
    (IsPaddedText alphanumeric 8 (randomAlphanumeric lowest 8 ()) ∧
        ¬ IsRandomText alphanumeric 8 (randomAlphanumeric lowest 8 ())) ∧
      IsPaddedText alphanumericWithSpecialCharacter 8
          (randomAlphanumericWithSpecialCharacter lowest 8 ()) ∧
        ¬ IsRandomText alphanumericWithSpecialCharacter 8
          (randomAlphanumericWithSpecialCharacter lowest 8 ()) :=
  randomTexts_eq lowest (randomNumber_inRange Engine.lowest fun w => (0, w)) 8 ()

/-- For the length 1, a NUL and the letter `a` are returned. -/
theorem not_isRandomText_one : ¬ IsRandomText alphanumeric 1 (randomAlphanumeric lowest 1 ()) := by
  rintro ⟨text, w, hsome, hlen, -⟩
  have htext : randomAlphanumeric lowest 1 () = some ([0, 0x61], ()) := by decide +kernel
  rw [htext] at hsome
  obtain ⟨rfl, -⟩ := Prod.mk.inj (Option.some_inj.1 hsome)
  exact absurd hlen (by decide)

end Behh
