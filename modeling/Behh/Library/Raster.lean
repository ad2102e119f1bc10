import Mathlib.Data.List.Basic
import Mathlib.Data.Nat.Notation
import Mathlib.Tactic.Common

/-!
# Row-major order

The positions of a grid in the order in which two nested loops visit them, row by row, and the
index of a position in this order. A buffer that is filled with one piece of a fixed length for
each position holds the piece of a position at a multiple of its index.

## Main definitions

* `coords w h`: the positions of a grid of `w` columns and `h` rows.

## Main results

* `coords_eq_map_range`: the position at an index.
* `slice_flatten_map`: the piece at an index.
-/

/-- The positions `(x, y)` with `x < w` and `y < h`, row by row. -/
def coords (w h : ℕ) : List (ℕ × ℕ) :=
  (List.range h).flatMap fun y => (List.range w).map fun x => (x, y)

variable {w h x y : ℕ}

@[simp] theorem mem_coords : (x, y) ∈ coords w h ↔ x < w ∧ y < h := by
  simp [coords, and_comm]

theorem coords_succ (w h : ℕ) :
    coords w (h + 1) = coords w h ++ (List.range w).map fun x => (x, h) := by
  rw [coords, List.range_succ, List.flatMap_append, List.flatMap_singleton, coords]

/-- The index of a position counts the positions before it. -/
theorem map_index_coords (w h : ℕ) :
    (coords w h).map (fun p => p.2 * w + p.1) = List.range (h * w) := by
  induction h with
  | zero => rw [Nat.zero_mul]; rfl
  | succ h ih =>
    rw [coords_succ, List.map_append, ih, List.map_map, Nat.succ_mul, List.range_add]
    rfl

@[simp] theorem length_coords (w h : ℕ) : (coords w h).length = h * w := by
  have hlen := congrArg List.length (map_index_coords w h)
  rwa [List.length_map, List.length_range] at hlen

theorem index_lt (hx : x < w) (hy : y < h) : y * w + x < h * w := by
  have hrow := Nat.mul_le_mul_right w (Nat.succ_le_of_lt hy)
  rw [Nat.succ_mul] at hrow
  omega

/-- The column and the row of a position can be told from its index. -/
theorem of_index (hx : x < w) : ((y * w + x) % w, (y * w + x) / w) = (x, y) := by
  rw [Nat.mul_comm, Nat.mul_add_mod, Nat.mod_eq_of_lt hx, Nat.mul_add_div (Nat.zero_lt_of_lt hx),
    Nat.div_eq_of_lt hx, Nat.add_zero]

/-- The position at an index. -/
theorem coords_eq_map_range (w h : ℕ) :
    coords w h = (List.range (h * w)).map fun i => (i % w, i / w) := by
  rw [← map_index_coords, List.map_map]
  refine (List.map_id _).symm.trans (List.map_congr_left fun p hp => ?_)
  exact (of_index (mem_coords.1 hp).1).symm

theorem getElem?_coords (hx : x < w) (hy : y < h) : (coords w h)[y * w + x]? = some (x, y) := by
  rw [coords_eq_map_range, List.getElem?_map, List.getElem?_range (index_lt hx hy),
    Option.map_some, of_index hx]

/-- The piece at an index of a buffer that is made of pieces of length `n`. -/
theorem slice_flatten_map {α β : Type} {g : α → List β} {n : ℕ} (hg : ∀ a, (g a).length = n)
    {l : List α} {i : ℕ} {a : α} (ha : l[i]? = some a) :
    ((l.map g).flatten.drop (n * i)).take n = g a := by
  induction i generalizing l with
  | zero =>
    cases l with
    | nil => cases ha
    | cons b l =>
      obtain rfl : b = a := by simpa using ha
      rw [Nat.mul_zero, List.drop_zero, List.map_cons, List.flatten_cons, List.take_left' (hg b)]
  | succ i ih =>
    cases l with
    | nil => cases ha
    | cons b l =>
      rw [List.map_cons, List.flatten_cons, Nat.mul_succ, Nat.add_comm, ← List.drop_drop,
        List.drop_left' (hg b)]
      exact ih (by simpa using ha)
