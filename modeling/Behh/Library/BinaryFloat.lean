import Mathlib.Algebra.Order.Field.Basic
import Mathlib.Algebra.Order.Floor.Ring
import Mathlib.Data.Int.Log
import Mathlib.Data.Rat.Floor
import Mathlib.Tactic.FieldSimp
import Mathlib.Tactic.Linarith
import Mathlib.Tactic.NormNum
import Mathlib.Tactic.Positivity
import Mathlib.Tactic.Ring

/-!
# Rounding to binary floating-point numbers

The result of an operation on floating-point numbers with a significand of `p` bits is the exact
result, rounded to the nearest number with such a significand, and to the one with an even
significand when there are two. Rational numbers stand for the numbers and for the exact results.
The range of the exponents is left out.

## Main definitions

* `roundTiesToEven`: the nearest integer.
* `roundBinary p`: the nearest number with a significand of `p` bits.

## Main results

* `abs_roundBinary_sub_le`: the relative error of rounding is at most `2 ^ (-p)`.
* `roundBinary_nonneg`: rounding keeps the sign of what is not negative.
-/

/-- The integer nearest to `q`; the even one of two. -/
def roundTiesToEven (q : ℚ) : ℤ :=
  if q - ⌊q⌋ < 1 / 2 then ⌊q⌋
  else if 1 / 2 < q - ⌊q⌋ then ⌊q⌋ + 1
  else if ⌊q⌋ % 2 = 0 then ⌊q⌋ else ⌊q⌋ + 1

/-- The exponent of the last of `p` bits. -/
def lastExponent (p : ℕ) (q : ℚ) : ℤ := Int.log 2 |q| + 1 - p

/-- The number with a significand of `p` bits that is nearest to `q`. -/
def roundBinary (p : ℕ) (q : ℚ) : ℚ :=
  roundTiesToEven (q / 2 ^ lastExponent p q) * 2 ^ lastExponent p q

/-! ### The nearest integer -/

theorem abs_roundTiesToEven_sub_le (q : ℚ) : |(roundTiesToEven q : ℚ) - q| ≤ 1 / 2 := by
  have hlow := Int.floor_le q
  have hhigh := Int.lt_floor_add_one q
  rw [roundTiesToEven, abs_le]
  split_ifs with hbelow habove
  · constructor <;> linarith
  · push_cast
    constructor <;> linarith
  · constructor <;> linarith
  · push_cast
    constructor <;> linarith

@[simp] theorem roundTiesToEven_intCast (n : ℤ) : roundTiesToEven n = n := by
  rw [roundTiesToEven, Int.floor_intCast, if_pos (by norm_num)]

theorem roundTiesToEven_nonneg {q : ℚ} (h : 0 ≤ q) : 0 ≤ roundTiesToEven q := by
  have hfloor : 0 ≤ ⌊q⌋ := Int.floor_nonneg.2 h
  rw [roundTiesToEven]
  split_ifs <;> omega

/-! ### Significands of `p` bits -/

variable {p : ℕ} {q : ℚ}

theorem two_zpow_pos (e : ℤ) : (0 : ℚ) < 2 ^ e := zpow_pos two_pos e

@[simp] theorem roundBinary_zero (p : ℕ) : roundBinary p 0 = 0 := by
  have h : roundTiesToEven 0 = 0 := roundTiesToEven_intCast 0
  rw [roundBinary, zero_div, h, Int.cast_zero, zero_mul]

theorem roundBinary_nonneg (p : ℕ) (h : 0 ≤ q) : 0 ≤ roundBinary p q := by
  have hround := roundTiesToEven_nonneg (div_nonneg h (two_zpow_pos (lastExponent p q)).le)
  exact mul_nonneg (by exact_mod_cast hround) (two_zpow_pos _).le

/-- **The error of rounding** is at most half of the last place. -/
theorem abs_roundBinary_sub_le (p : ℕ) (q : ℚ) : |roundBinary p q - q| ≤ |q| / 2 ^ p := by
  rcases eq_or_ne q 0 with rfl | hq
  · simp
  · have hpos := two_zpow_pos (lastExponent p q)
    have hround := abs_roundTiesToEven_sub_le (q / 2 ^ lastExponent p q)
    have hsub : roundBinary p q - q =
        (roundTiesToEven (q / 2 ^ lastExponent p q) - q / 2 ^ lastExponent p q) *
          2 ^ lastExponent p q := by
      rw [roundBinary, sub_mul, div_mul_cancel₀ _ hpos.ne']
    have hlast : (2 : ℚ) ^ lastExponent p q = 2 ^ Int.log 2 |q| * 2 / 2 ^ p := by
      rw [lastExponent, zpow_sub₀ two_ne_zero, zpow_add_one₀ two_ne_zero, zpow_natCast]
    have hlog : (2 : ℚ) ^ Int.log 2 |q| ≤ |q| :=
      Int.zpow_log_le_self (b := 2) (by decide) (abs_pos.2 hq)
    rw [hsub, abs_mul, abs_of_pos hpos]
    calc |(roundTiesToEven (q / 2 ^ lastExponent p q) : ℚ) - q / 2 ^ lastExponent p q| *
          2 ^ lastExponent p q
        ≤ 1 / 2 * 2 ^ lastExponent p q := mul_le_mul_of_nonneg_right hround hpos.le
      _ = 2 ^ Int.log 2 |q| / 2 ^ p := by
        rw [hlast]
        ring
      _ ≤ |q| / 2 ^ p := div_le_div_of_nonneg_right hlog (by positivity)

theorem abs_roundBinary_sub_le_of_le {b : ℚ} (h : |q| ≤ b) :
    |roundBinary p q - q| ≤ b / 2 ^ p :=
  (abs_roundBinary_sub_le p q).trans (div_le_div_of_nonneg_right h (by positivity))
