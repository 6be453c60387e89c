import Mathlib
import SiteAnalysis.Expression.Engine
import SiteAnalysis.Proofs.Number.Exact

set_option autoImplicit false

/-! # Powers with integer exponents

Repeated squaring gives powers (`Arith.powerLoop_eq`), but the exponent gets there as a word of 32
bits. Main statement:

* `Expression.Function.computesPower_iff`: which powers are computed, over exact numbers.

An exponent that needs more bits gives the power of another exponent, that of `2 ^ 32 + 1` the power
of `1` (`Expression.Function.not_computesPower_two`).
-/

namespace SiteAnalysis

namespace Arith

/-- **Repeated squaring**: what is collected so far times what is left of the power. -/
theorem powerLoop_eq (r x : ℝ) (n : Nat) : powerLoop r x n = r * x ^ n := by
  -- The exponent is halved while the base is squared; an odd one leaves a factor behind.
  induction n using Nat.strong_induction_on generalizing r x with
  | _ n ih =>
    have hsplit : x ^ n = x ^ (n % 2) * (x * x) ^ (n / 2) := by
      rw [← pow_two, ← pow_mul, ← pow_add, Nat.mod_add_div]
    rw [powerLoop]
    by_cases hhalf : n / 2 = 0
    · rw [if_pos hhalf, hsplit, hhalf, pow_zero, mul_one]
      by_cases hodd : n % 2 = 1
      · rw [if_pos hodd, hodd, pow_one]
      · rw [if_neg hodd, show n % 2 = 0 by omega, pow_zero, mul_one]
    · rw [if_neg hhalf]
      have hstep := ih (n / 2) (by omega)
      by_cases hodd : n % 2 = 1
      · rw [if_pos hodd, hsplit, hodd, pow_one, ← mul_assoc]
        exact hstep _ _
      · rw [if_neg hodd, hsplit, show n % 2 = 0 by omega, pow_zero, one_mul]
        exact hstep _ _

/-- **Exponents of 32 bits** stay as they are. -/
theorem wrapExponent_eq_self_iff (n : ℤ) :
    wrapExponent n = n ↔ -2147483648 ≤ n ∧ n < 2147483648 := by
  unfold wrapExponent
  constructor
  · intro h
    have hle := Int.le_bmod (x := n) (m := 0x100000000) (by norm_num)
    have hlt := Int.bmod_lt (x := n) (m := 0x100000000) (by norm_num)
    rw [h] at hle hlt
    exact ⟨by omega, by omega⟩
  · rintro ⟨hle, hlt⟩
    exact Int.bmod_eq_of_le (by omega) (by omega)

/-- Wrapping leaves the lowest bit of an exponent. -/
theorem even_wrapExponent_iff (n : ℤ) : Even (wrapExponent n) ↔ Even n := by
  unfold wrapExponent
  rw [Int.even_iff, Int.even_iff, Int.bmod_def]
  split <;> omega

theorem wrapExponent_zero : wrapExponent 0 = 0 := by decide

/-- Exponents that wrap to the same word cannot be told apart. -/
theorem powInt_congr {α : Type} [Arith α] (x : α) {m n : ℤ}
    (h : wrapExponent m = wrapExponent n) : powInt x m = powInt x n := by
  unfold powInt
  rw [h]

/-- **The power of the wrapped exponent** is what is given. -/
theorem powInt_eq (x : ℝ) (n : ℤ) : powInt x n = x ^ wrapExponent n := by
  have hone : (1.0 : ℝ) = 1 := by norm_num
  have hpower : powerLoop (1.0 : ℝ) x (wrapExponent n).natAbs = x ^ (wrapExponent n).natAbs := by
    rw [powerLoop_eq, hone, one_mul]
  unfold powInt
  dsimp only
  split
  · next hneg =>
      have habs : wrapExponent n = -((wrapExponent n).natAbs : ℤ) := by omega
      change (1.0 : ℝ) / powerLoop (1.0 : ℝ) x (wrapExponent n).natAbs = _
      rw [hpower, hone, one_div]
      conv_rhs => rw [habs, zpow_neg, zpow_natCast]
  · next hpos =>
      have habs : wrapExponent n = ((wrapExponent n).natAbs : ℤ) := by omega
      change powerLoop (1.0 : ℝ) x (wrapExponent n).natAbs = _
      rw [hpower]
      conv_rhs => rw [habs, zpow_natCast]

/-- **A power is computed**: what is given is the power, and no reciprocal of zero is taken on the
way. -/
def ComputesPower (x : ℝ) (n : ℤ) : Prop :=
  powInt x n = x ^ n ∧ ¬ (wrapExponent n < 0 ∧ powerLoop 1.0 x (wrapExponent n).natAbs = 0)

/-- Different powers of a number are equal only if it has size one. -/
theorem abs_eq_one_of_zpow_eq {x : ℝ} (hx : x ≠ 0) {m n : ℤ} (hne : m ≠ n) (h : x ^ m = x ^ n) :
    |x| = 1 := by
  by_contra hone
  have habs : |x| ^ m = |x| ^ n := by rw [← abs_zpow, ← abs_zpow, h]
  exact hne (zpow_right_injective₀ (abs_pos.2 hx) hone habs)

/-- **Powers of numbers other than zero** survive the wrapping of the exponent if that does nothing,
or if the number has size one. -/
theorem zpow_wrapExponent_iff {x : ℝ} (hx : x ≠ 0) (n : ℤ) :
    x ^ wrapExponent n = x ^ n ↔ wrapExponent n = n ∨ x = 1 ∨ x = -1 := by
  constructor
  · intro h
    by_cases hn : wrapExponent n = n
    · exact .inl hn
    · exact .inr (eq_or_eq_neg_of_abs_eq (abs_eq_one_of_zpow_eq hx hn h))
  · rintro (hn | rfl | rfl)
    · rw [hn]
    · rw [one_zpow, one_zpow]
    · by_cases heven : Even n
      · rw [heven.neg_one_zpow, ((even_wrapExponent_iff n).2 heven).neg_one_zpow]
      · have hodd : Odd (wrapExponent n) := by
          rw [← Int.not_even_iff_odd, even_wrapExponent_iff]
          exact heven
        rw [(Int.not_even_iff_odd.1 heven).neg_one_zpow, hodd.neg_one_zpow]

/-- **Powers of zero**: the wrapped exponent has to be the exponent, or positive. -/
theorem computesPower_zero_iff {n : ℤ} (hn : 0 ≤ n) :
    ComputesPower 0 n ↔ wrapExponent n = n ∨ 0 < wrapExponent n := by
  have hloop : ∀ k : Nat, powerLoop (1.0 : ℝ) 0 k = 0 ↔ k ≠ 0 := fun k => by
    rw [powerLoop_eq, mul_eq_zero, or_iff_right (by norm_num), zero_pow_eq_zero]
  unfold ComputesPower
  rw [powInt_eq, hloop]
  -- A negative power of zero is not defined, so the sign of the wrapped exponent decides.
  rcases lt_trichotomy (wrapExponent n) 0 with hneg | hzero | hpos
  · constructor
    · rintro ⟨-, hdefined⟩
      exact absurd ⟨hneg, by omega⟩ hdefined
    · intro h
      omega
  · rw [hzero, zpow_zero]
    constructor
    · rintro ⟨hpower, -⟩
      by_contra hne
      have hn0 : n ≠ 0 := by omega
      rw [zero_zpow n hn0] at hpower
      exact one_ne_zero hpower
    · rintro (h | h)
      · rw [← h]
        simp
      · omega
  · have hn0 : n ≠ 0 := by
      rintro rfl
      rw [wrapExponent_zero] at hpos
      omega
    rw [zero_zpow _ hpos.ne', zero_zpow n hn0]
    constructor
    · exact fun _ => .inr hpos
    · exact fun _ => ⟨rfl, by omega⟩

end Arith

namespace Expression.Function

open Arith

/-- **Powers with integer exponents.** Both forms of `pow` that take one multiply the base with
itself; what comes out is the power exactly if the exponent has at most 32 bits, or the base is one
or minus one, or it is zero and the exponent keeps positive as a word of 32 bits. -/
theorem computesPower_iff (x : ℝ) (n : ℤ) (hx : 0 ≤ n ∨ x ≠ 0) :
    (∀ y : Float, apply "pow" [.float y, .int n] = .ok (.float (powInt y n))) ∧
    (∀ m : ℤ, apply "pow" [.int m, .int n] = .ok (.float (powInt (Float.ofInt m) n))) ∧
    (ComputesPower x n ↔ (-2147483648 ≤ n ∧ n < 2147483648) ∨ x = 1 ∨ x = -1 ∨
      (x = 0 ∧ 0 < wrapExponent n)) := by
  refine ⟨fun _ => rfl, fun _ => rfl, ?_⟩
  rw [← wrapExponent_eq_self_iff]
  by_cases hzero : x = 0
  · subst hzero
    rw [computesPower_zero_iff (hx.resolve_right (by simp))]
    simp
  · have hdefined : ¬ (wrapExponent n < 0 ∧
        powerLoop (1.0 : ℝ) x (wrapExponent n).natAbs = 0) := by
      rintro ⟨-, hloop⟩
      rw [powerLoop_eq] at hloop
      exact mul_ne_zero (by norm_num) (pow_ne_zero _ hzero) hloop
    rw [ComputesPower, powInt_eq, and_iff_left hdefined, zpow_wrapExponent_iff hzero]
    simp [hzero]

/-- The tenth power of two and its reciprocal, and that of zero. -/
theorem computesPower_ten :
    (0 ≤ (10 : ℤ) ∨ (2 : ℝ) ≠ 0) ∧ ComputesPower 2 10 ∧ ComputesPower 2 (-10) ∧
      ComputesPower 0 10 := by
  obtain ⟨-, -, htwo⟩ := computesPower_iff 2 10 (by norm_num)
  obtain ⟨-, -, hhalf⟩ := computesPower_iff 2 (-10) (by norm_num)
  obtain ⟨-, -, hzero⟩ := computesPower_iff 0 10 (by norm_num)
  exact ⟨by norm_num, htwo.2 (by norm_num), hhalf.2 (by norm_num), hzero.2 (by norm_num)⟩

/-- A power of two whose exponent is a variable. -/
theorem eval_powerOfTwo (n : ℤ) :
    (⟨0, 64⟩ : Limits).eval "pow(2, n)" ⟨[⟨none, "n", .int n⟩]⟩ =
      .ok (powInt (Float.ofInt 2) n) := by
  have hread : read "pow(2, n)" = .expression (.call "pow" [.int 2, .var "n"]) := by cbv
  have hcompile : (⟨0, 64⟩ : Limits).compile "pow(2, n)" =
      .ok (.call "pow" [.int 2, .var "n"]) := by
    unfold Limits.compile
    rw [hread]
    rfl
  unfold Limits.eval
  rw [hcompile]
  rfl

/-- **An exponent of 33 bits**: the power of two that is asked for is not computed, and the source
`pow(2, n)` evaluates as if `n` were one. -/
theorem not_computesPower_two :
    fitsInt 4294967297 = true ∧ powInt (2 : ℝ) 4294967297 = 2 ∧ ¬ ComputesPower 2 4294967297 ∧
      (⟨0, 64⟩ : Limits).eval "pow(2, n)" ⟨[⟨none, "n", .int 4294967297⟩]⟩ =
        (⟨0, 64⟩ : Limits).eval "pow(2, n)" ⟨[⟨none, "n", .int 1⟩]⟩ := by
  have hwrap : wrapExponent 4294967297 = 1 := by decide
  refine ⟨by decide, by rw [powInt_eq, hwrap, zpow_one], ?_, ?_⟩
  · rintro ⟨hpower, -⟩
    rw [powInt_eq, zpow_wrapExponent_iff (by norm_num), hwrap] at hpower
    norm_num at hpower
  · rw [eval_powerOfTwo, eval_powerOfTwo, powInt_congr _ (n := 1) (by decide)]

end Expression.Function

end SiteAnalysis
