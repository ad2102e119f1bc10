import Mathlib.Data.Nat.Bitwise
import Mathlib.Tactic.Ring
import Mathlib.Tactic.Common

/-!
# Bit streams and their regrouping

A stream of bits is a list of Booleans, the first bit of the stream first. A number contributes
to a stream its low bits, most significant first (`toBits`), and a stream is cut into groups of
equal width from the front (`groups`), with a remainder that is too short to be a group
(`rest`).

A device that regroups a stream while it arrives holds the bits it has not used yet. The two
results about it are that cutting the stream as it arrives is cutting the whole stream
(`groups_append`, `rest_append`), and that a stream made of groups is cut into these groups
(`groups_flatMap_toBits`). The bits held back are usually the low bits of a machine word; how
the word changes is described by `toBits_push` and `toBits_add`.

## Main definitions

* `BitStream.toBits`, `BitStream.ofBits`: numbers as bits of a given width, and back.
* `BitStream.groups`, `BitStream.rest`: the groups of a stream, and what is left over.

## Main results

* `BitStream.ofBits_toBits`, `BitStream.toBits_ofBits`: the two are inverse.
* `BitStream.groups_append`, `BitStream.rest_append`: a stream that arrives in pieces.
* `BitStream.groups_flatMap_toBits`: regrouping with the width the stream was built with.
* `BitStream.flatMap_toBits_groups`: the groups of a stream of full groups give it back.
-/

namespace BitStream

/-- The `w` low bits of `x`, most significant first. -/
def toBits : ℕ → ℕ → List Bool
  | 0, _ => []
  | w + 1, x => x.testBit w :: toBits w x

/-- The number with the given binary digits, most significant first. -/
def ofBits (l : List Bool) : ℕ := l.foldl (fun v b => 2 * v + b.toNat) 0

@[simp] theorem toBits_zero (x : ℕ) : toBits 0 x = [] := rfl

theorem toBits_succ (w x : ℕ) : toBits (w + 1) x = x.testBit w :: toBits w x := rfl

@[simp] theorem length_toBits (w x : ℕ) : (toBits w x).length = w := by
  induction w with
  | zero => rfl
  | succ w ih => simp [toBits_succ, ih]

@[simp] theorem ofBits_nil : ofBits [] = 0 := rfl

theorem foldl_ofBits (v : ℕ) (l : List Bool) :
    l.foldl (fun v b => 2 * v + b.toNat) v = v * 2 ^ l.length + ofBits l := by
  induction l generalizing v with
  | nil => simp
  | cons b l ih =>
    have hb : ofBits (b :: l) = (2 * 0 + b.toNat) * 2 ^ l.length + ofBits l := ih _
    rw [List.foldl_cons, ih, hb, List.length_cons]
    ring

theorem ofBits_cons (b : Bool) (l : List Bool) :
    ofBits (b :: l) = b.toNat * 2 ^ l.length + ofBits l := by
  rw [ofBits, List.foldl_cons, foldl_ofBits, Nat.mul_zero, Nat.zero_add]

theorem ofBits_lt : (l : List Bool) → ofBits l < 2 ^ l.length
  | [] => by simp
  | b :: l => by
    have hl := ofBits_lt l
    have hb : b.toNat * 2 ^ l.length ≤ 2 ^ l.length :=
      Nat.mul_le_of_le_div _ _ _ (by simp [Bool.toNat_le b])
    rw [ofBits_cons, List.length_cons, pow_succ]
    omega

theorem ofBits_toBits (w x : ℕ) : ofBits (toBits w x) = x % 2 ^ w := by
  induction w with
  | zero => simp [Nat.mod_one]
  | succ w ih =>
    rw [toBits_succ, ofBits_cons, length_toBits, ih, Nat.testBit_eq_decide_div_mod_eq, pow_succ,
      Nat.mod_mul, Nat.add_comm, Nat.mul_comm]
    rcases Nat.mod_two_eq_zero_or_one (x / 2 ^ w) with h | h <;> simp [h]

/-- A value below `2 ^ w` is read back from its `w` bits. -/
theorem ofBits_toBits_of_lt {w x : ℕ} (h : x < 2 ^ w) : ofBits (toBits w x) = x := by
  rw [ofBits_toBits, Nat.mod_eq_of_lt h]

/-- The bits of width `a + b` are the bits above position `b` and then the bits below it. -/
theorem toBits_add (a b x : ℕ) : toBits (a + b) x = toBits a (x / 2 ^ b) ++ toBits b x := by
  induction a with
  | zero => simp
  | succ a ih =>
    rw [Nat.add_right_comm, toBits_succ, ih, toBits_succ, List.cons_append,
      Nat.testBit_div_two_pow, Nat.add_comm a b]

/-- The `w` low bits do not depend on what stands above them. -/
theorem toBits_mod {w k : ℕ} (h : w ≤ k) (x : ℕ) : toBits w (x % 2 ^ k) = toBits w x := by
  induction w with
  | zero => rfl
  | succ w ih =>
    rw [toBits_succ, toBits_succ, ih (by omega), Nat.testBit_mod_two_pow]
    simp [show w < k by omega]

/-- Shifting `x` in from the right puts its bits behind the bits held before. -/
theorem toBits_push (a b v : ℕ) {x : ℕ} (hx : x < 2 ^ b) :
    toBits (a + b) (v * 2 ^ b + x) = toBits a v ++ toBits b x := by
  have hdiv : (v * 2 ^ b + x) / 2 ^ b = v := by
    rw [Nat.mul_comm, Nat.mul_add_div (Nat.two_pow_pos b), Nat.div_eq_of_lt hx, Nat.add_zero]
  have hmod : toBits b (v * 2 ^ b + x) = toBits b x := by
    rw [← toBits_mod le_rfl (v * 2 ^ b + x), Nat.mul_add_mod_self_right, Nat.mod_eq_of_lt hx]
  rw [toBits_add, hdiv, hmod]

theorem toBits_zero_right (w : ℕ) : toBits w 0 = List.replicate w false := by
  induction w with
  | zero => rfl
  | succ w ih => rw [toBits_succ, ih, Nat.zero_testBit, List.replicate_succ]

theorem toBits_ofBits : (l : List Bool) → toBits l.length (ofBits l) = l
  | [] => rfl
  | b :: l => by
    have hbit : toBits 1 b.toNat = [b] := by cases b <;> rfl
    rw [List.length_cons, Nat.add_comm, ofBits_cons, toBits_push _ _ _ (ofBits_lt l),
      toBits_ofBits l, hbit, List.singleton_append]

/-! ### Groups of equal width -/

/-- The values of the groups of `w` bits into which a stream is cut from the front. -/
def groups (w : ℕ) (l : List Bool) : List ℕ :=
  if 0 < w ∧ w ≤ l.length then ofBits (l.take w) :: groups w (l.drop w) else []
termination_by l.length
decreasing_by simp only [List.length_drop]; omega

/-- The bits behind the last group, fewer than `w`. -/
def rest (w : ℕ) (l : List Bool) : List Bool :=
  if 0 < w ∧ w ≤ l.length then rest w (l.drop w) else l
termination_by l.length
decreasing_by simp only [List.length_drop]; omega

variable {w : ℕ}

theorem groups_of_lt {l : List Bool} (h : l.length < w) : groups w l = [] := by
  rw [groups, ite_cond_eq_false]
  simp only [eq_iff_iff, iff_false, not_and]
  omega

theorem rest_of_lt {l : List Bool} (h : l.length < w) : rest w l = l := by
  rw [rest, ite_cond_eq_false]
  simp only [eq_iff_iff, iff_false, not_and]
  omega

@[simp] theorem groups_nil : groups w [] = [] := by
  rw [groups, ite_cond_eq_false]
  simp only [List.length_nil, eq_iff_iff, iff_false, not_and]
  omega

@[simp] theorem rest_nil : rest w [] = [] := by
  rw [rest, ite_cond_eq_false]
  simp only [List.length_nil, eq_iff_iff, iff_false, not_and]
  omega

theorem groups_cons (hw : 0 < w) {b : List Bool} (hb : b.length = w) (l : List Bool) :
    groups w (b ++ l) = ofBits b :: groups w l := by
  subst hb
  rw [groups, ite_cond_eq_true _ _ (by simp [hw]), List.take_left, List.drop_left]

theorem rest_cons (hw : 0 < w) {b : List Bool} (hb : b.length = w) (l : List Bool) :
    rest w (b ++ l) = rest w l := by
  subst hb
  rw [rest, ite_cond_eq_true _ _ (by simp [hw]), List.drop_left]

theorem groups_of_length_eq (hw : 0 < w) {b : List Bool} (hb : b.length = w) :
    groups w b = [ofBits b] := by
  rw [← List.append_nil b, groups_cons hw hb, groups_nil, List.append_nil]

/-- Every stream either is shorter than a group or starts with one. -/
theorem exists_group (l : List Bool) :
    l.length < w ∨ ∃ b l', b.length = w ∧ l = b ++ l' := by
  rcases Nat.lt_or_ge l.length w with h | h
  · exact Or.inl h
  · exact Or.inr ⟨l.take w, l.drop w, by simp [h], (List.take_append_drop w l).symm⟩

theorem group_induction {P : List Bool → Prop} (hw : 0 < w)
    (short : ∀ l : List Bool, l.length < w → P l)
    (group : ∀ b l : List Bool, b.length = w → P l → P (b ++ l)) (l : List Bool) : P l := by
  induction hn : l.length using Nat.strong_induction_on generalizing l with
  | _ n ih =>
    rcases exists_group (w := w) l with h | ⟨b, l', hb, rfl⟩
    · exact short l h
    · refine group b l' hb (ih l'.length ?_ l' rfl)
      rw [← hn, List.length_append]
      omega

theorem length_rest_lt (hw : 0 < w) (l : List Bool) : (rest w l).length < w := by
  induction l using group_induction hw with
  | short l h => rwa [rest_of_lt h]
  | group b l hb ih => rwa [rest_cons hw hb]

theorem groups_lt (hw : 0 < w) (l : List Bool) : ∀ x ∈ groups w l, x < 2 ^ w := by
  induction l using group_induction hw with
  | short l h => simp [groups_of_lt h]
  | group b l hb ih =>
    rw [groups_cons hw hb]
    intro x hx
    rcases List.mem_cons.1 hx with rfl | hx
    · exact hb ▸ ofBits_lt b
    · exact ih x hx

/-- **A stream that arrives in two pieces.** The groups of `l ++ m` are those of `l`, followed
by those of what `l` left over and `m`. -/
theorem groups_append (hw : 0 < w) (l m : List Bool) :
    groups w (l ++ m) = groups w l ++ groups w (rest w l ++ m) := by
  induction l using group_induction hw with
  | short l h => rw [groups_of_lt h, rest_of_lt h, List.nil_append]
  | group b l hb ih =>
    rw [List.append_assoc, groups_cons hw hb, ih, groups_cons hw hb, rest_cons hw hb,
      List.cons_append]

theorem rest_append (hw : 0 < w) (l m : List Bool) :
    rest w (l ++ m) = rest w (rest w l ++ m) := by
  induction l using group_induction hw with
  | short l h => rw [rest_of_lt h]
  | group b l hb ih => rw [List.append_assoc, rest_cons hw hb, ih, rest_cons hw hb]

/-- **Regrouping with the same width.** A stream made of `w`-bit values and fewer than `w`
further bits is cut into these values. -/
theorem groups_flatMap_toBits {xs : List ℕ} (hxs : ∀ x ∈ xs, x < 2 ^ w) {r : List Bool}
    (hr : r.length < w) : groups w (xs.flatMap (toBits w) ++ r) = xs := by
  have hw : 0 < w := by omega
  induction xs with
  | nil => exact groups_of_lt hr
  | cons x xs ih =>
    obtain ⟨hx, hxs⟩ := List.forall_mem_cons.1 hxs
    rw [List.flatMap_cons, List.append_assoc, groups_cons hw (length_toBits w x), ih hxs,
      ofBits_toBits_of_lt hx]

/-- The groups of a stream, written out again, are the stream without its remainder. -/
theorem flatMap_toBits_groups (hw : 0 < w) (l : List Bool) :
    (groups w l).flatMap (toBits w) ++ rest w l = l := by
  induction l using group_induction hw with
  | short l h => rw [groups_of_lt h, rest_of_lt h, List.flatMap_nil, List.nil_append]
  | group b l hb ih =>
    have hbits : toBits w (ofBits b) = b := hb ▸ toBits_ofBits b
    rw [groups_cons hw hb, rest_cons hw hb, List.flatMap_cons, List.append_assoc, ih, hbits]

theorem length_groups (hw : 0 < w) (l : List Bool) :
    w * (groups w l).length + (rest w l).length = l.length := by
  induction l using group_induction hw with
  | short l h => simp [groups_of_lt h, rest_of_lt h]
  | group b l hb ih =>
    rw [groups_cons hw hb, rest_cons hw hb, List.length_cons, List.length_append, hb, Nat.mul_succ]
    omega

end BitStream
