import Mathlib
import SiteAnalysis.Number.Arith

set_option autoImplicit false

/-! # Exact numbers

The kernels are written for any type of numbers. Read over the real numbers (`Arith ℝ`), the same
definitions compute without rounding, and what is said of exact results is said of this reading.
-/

namespace SiteAnalysis

namespace Exact

/-! ## The nearest whole number -/

/-- **The nearest whole number**; halves go away from zero. -/
noncomputable def nearest (x : ℝ) : ℤ := if 0 ≤ x then ⌊x + 1 / 2⌋ else ⌈x - 1 / 2⌉

theorem abs_sub_nearest_le (x : ℝ) : |x - nearest x| ≤ 1 / 2 := by
  unfold nearest
  rw [abs_le]
  split_ifs with hx
  · have hle := Int.floor_le (x + 1 / 2)
    have hlt := Int.lt_floor_add_one (x + 1 / 2)
    constructor <;> linarith
  · have hle := Int.le_ceil (x - 1 / 2)
    have hlt := Int.ceil_lt_add_one (x - 1 / 2)
    constructor <;> linarith

/-- Two different whole numbers are at least one apart. -/
theorem one_le_abs_sub {m n : ℤ} (h : m ≠ n) : 1 ≤ |(m : ℝ) - n| := by
  exact_mod_cast Int.one_le_abs (sub_ne_zero.2 h)

theorem nearest_eq {x : ℝ} {m : ℤ} (h : |x - m| < 1 / 2) : nearest x = m := by
  by_contra hne
  have hone := one_le_abs_sub hne
  have hhalf := abs_sub_nearest_le x
  have htriangle := abs_sub_le (nearest x : ℝ) x m
  rw [abs_sub_comm (nearest x : ℝ) x] at htriangle
  linarith

/-- **No whole number is nearer.** -/
theorem abs_sub_nearest_le_abs_sub (x : ℝ) (m : ℤ) : |x - nearest x| ≤ |x - m| := by
  by_cases hlt : |x - m| < 1 / 2
  · rw [nearest_eq hlt]
  · exact (abs_sub_nearest_le x).trans (not_lt.1 hlt)

theorem nearest_half : nearest (1 / 2) = 1 := by
  rw [nearest, if_pos (by norm_num)]
  norm_num

theorem nearest_neg_half : nearest (-(1 / 2)) = -1 := by
  rw [nearest, if_neg (by norm_num)]
  norm_num

theorem nearest_zero : nearest 0 = 0 := nearest_eq (by norm_num)

end Exact

/-- **Exact numbers.** All of them are finite, and their total order is the usual one. -/
noncomputable instance : Arith ℝ where
  ofNat n := n
  lt x y := decide (x < y)
  le x y := decide (x ≤ y)
  same x y := decide (x = y)
  totalLe x y := decide (x ≤ y)
  isFinite _ := true
  toIndex x := ⌊x⌋₊
  abs x := |x|
  floor x := ⌊x⌋
  round x := Exact.nearest x
  sqrt := Real.sqrt
  sin := Real.sin
  cos := Real.cos
  acos := Real.arccos
  pi := Real.pi

namespace Exact

@[simp] theorem lt_iff {x y : ℝ} : Arith.lt x y = true ↔ x < y := decide_eq_true_iff

@[simp] theorem le_iff {x y : ℝ} : Arith.le x y = true ↔ x ≤ y := decide_eq_true_iff

theorem max_eq (x y : ℝ) : Arith.max x y = max x y := by
  unfold Arith.max
  by_cases hxy : y ≤ x
  · rw [if_pos (le_iff.2 hxy), max_eq_left hxy]
  · rw [if_neg (mt le_iff.1 hxy), if_pos (le_iff.2 le_rfl), max_eq_right (not_le.1 hxy).le]

/-- The nearest whole number to a count is the count. -/
theorem nearest_natCast (n : Nat) : nearest n = n := nearest_eq (by norm_num)

theorem toRadians_eq (x : ℝ) : Arith.toRadians x = x * (Real.pi / 180) := by
  have hhalfTurn : (180.0 : ℝ) = 180 := by norm_num
  change x * (Real.pi / 180.0) = _
  rw [hhalfTurn]

/-- **The cosine of an angle vanishes** exactly if the angle is an odd multiple of ninety degrees. -/
theorem cos_toRadians_eq_zero_iff (x : ℝ) :
    Real.cos (Arith.toRadians x) = 0 ↔ ∃ k : ℤ, Odd k ∧ x = 90 * k := by
  rw [Real.cos_eq_zero_iff, toRadians_eq]
  have hpi := Real.pi_ne_zero
  constructor
  · rintro ⟨k, hk⟩
    field_simp at hk
    refine ⟨2 * k + 1, odd_two_mul_add_one k, ?_⟩
    push_cast
    linarith
  · rintro ⟨_, ⟨k, rfl⟩, rfl⟩
    refine ⟨k, ?_⟩
    push_cast
    ring

theorem cos_toRadians_ninety : Real.cos (Arith.toRadians 90) = 0 :=
  (cos_toRadians_eq_zero_iff 90).2 ⟨1, odd_one, by norm_num⟩

theorem sin_toRadians_ninety : Real.sin (Arith.toRadians 90) = 1 := by
  have hquarter : Arith.toRadians (90 : ℝ) = Real.pi / 2 := by
    rw [toRadians_eq]
    ring
  rw [hquarter, Real.sin_pi_div_two]

end Exact

end SiteAnalysis
