import Mathlib
import SiteAnalysis.Number.Shortest

set_option autoImplicit false

/-! # Correct rounding

The arithmetic of doubles computes a mantissa that is too long, or a quotient with a remainder,
and rounds it. Main statement:

* `roundWithAccuracy_eq`: what comes out is the double whose interval of rounding holds the exact
  number (`RoundsTo`).

An exact number is located between two neighbouring mantissas by an accuracy (`Locates`). A shift
to a coarser exponent keeps that knowledge (`locates_shiftRight`), so the mantissa that is kept is
rounded as the exact number itself would be.
-/

namespace SiteAnalysis

open Float.Model (Format totalExponent)
open Float.Model.UnpackedFloat

/-! ## Doubles and the numbers that round to them -/

/-- **Mantissa and exponent of a positive double.** The mantissa has all its bits unless the
exponent is the least. -/
structure IsDouble (m : Nat) (q : Int) : Prop where
  pos : 0 < m
  lt : m < 2 ^ 53
  low : -1074 ≤ q
  high : q ≤ 971
  full : 2 ^ 52 ≤ m ∨ q = -1074

/-- How far below the double `m * 2 ^ q` a number may lie that rounds to it, in units of the last
place. -/
def lowerMargin (m : Nat) (q : Int) : ℚ := ((Decimal.rounding m q).below : ℚ) / 4

/-- **The numbers that round to the double `m * 2 ^ q`.** Of the ends of their interval an odd
mantissa gets none. -/
structure RoundsTo (m : Nat) (q : Int) (x : ℚ) : Prop where
  low : (m - lowerMargin m q) * 2 ^ q ≤ x
  high : x ≤ (m + 1 / 2) * 2 ^ q
  odd : m % 2 = 1 → (m - lowerMargin m q) * 2 ^ q < x ∧ x < (m + 1 / 2) * 2 ^ q

theorem lowerMargin_le (m : Nat) (q : Int) : lowerMargin m q ≤ 1 / 2 := by
  unfold lowerMargin Decimal.rounding
  dsimp only
  split <;> norm_num

theorem lowerMargin_of_hiddenBit {q : Int} (hq : -1074 < q) : lowerMargin (2 ^ 52) q = 1 / 4 := by
  unfold lowerMargin Decimal.rounding
  dsimp only
  rw [if_pos ⟨rfl, hq⟩]
  norm_num

/-! ## Located numbers -/

/-- **What an accuracy says of an exact number** next to a mantissa. -/
def Locates : Accuracy → Nat → ℚ → Prop
  | .exact, m, x => x = m
  | .inexact .lt, m, x => m < x ∧ x < m + 1 / 2
  | .inexact .eq, m, x => x = m + 1 / 2
  | .inexact .gt, m, x => m + 1 / 2 < x ∧ x < m + 1

theorem Locates.le {a : Accuracy} {m : Nat} {x : ℚ} (h : Locates a m x) : (m : ℚ) ≤ x := by
  rcases a with _ | (_ | _ | _) <;> simp only [Locates] at h <;> linarith

theorem Locates.lt {a : Accuracy} {m : Nat} {x : ℚ} (h : Locates a m x) : x < m + 1 := by
  rcases a with _ | (_ | _ | _) <;> simp only [Locates] at h <;> linarith

/-- Half of an exact number is located next to half of the mantissa. -/
theorem locates_shiftRightOne {em : ExtendedMantissa} {x : ℚ}
    (h : Locates em.accuracy em.mantissa x) :
    Locates em.shiftRightOne.accuracy em.shiftRightOne.mantissa (x / 2) := by
  obtain ⟨m, r, s⟩ := em
  have hparts : (m : ℚ) = 2 * (m / 2 : Nat) + (m % 2 : Nat) := by
    exact_mod_cast (Nat.div_add_mod m 2).symm
  rcases Nat.mod_two_eq_zero_or_one m with hmod | hmod <;> rw [hmod] at hparts <;>
    cases r <;> cases s <;>
    simp [ExtendedMantissa.shiftRightOne, ExtendedMantissa.accuracy, Locates, hmod] at h ⊢ <;>
    push_cast at hparts <;> (try constructor) <;> linarith

theorem locates_shiftRight {em : ExtendedMantissa} {x : ℚ} (h : Locates em.accuracy em.mantissa x)
    (k : Nat) : Locates (em >>> k).accuracy (em >>> k).mantissa (x / 2 ^ k) := by
  induction k with
  | zero =>
      rw [pow_zero, div_one]
      exact h
  | succ k ih =>
      rw [pow_succ, ← div_div]
      exact locates_shiftRightOne ih

theorem locates_ofMantissaAndAccuracy {a : Accuracy} {m : Nat} {x : ℚ} (h : Locates a m x) :
    Locates (ExtendedMantissa.ofMantissaAndAccuracy m a).accuracy
      (ExtendedMantissa.ofMantissaAndAccuracy m a).mantissa x := by
  rcases a with _ | (_ | _ | _) <;> exact h

/-- **Rounding gives the nearest mantissa**; of two the even one. -/
theorem roundedMantissa_eq {em : ExtendedMantissa} {x : ℚ} {r : Nat}
    (h : Locates em.accuracy em.mantissa x) (hlow : (r : ℚ) - 1 / 2 ≤ x) (hhigh : x ≤ r + 1 / 2)
    (hodd : r % 2 = 1 → (r : ℚ) - 1 / 2 < x ∧ x < r + 1 / 2) : em.roundedMantissa = r := by
  obtain ⟨m, _ | _, _ | _⟩ := em <;>
    simp only [ExtendedMantissa.roundedMantissa, ExtendedMantissa.accuracy, Locates,
      Accuracy.roundToNearestEven] at h ⊢
  · have h₁ : (m : ℚ) < r + 1 := by linarith
    have h₂ : (r : ℚ) < m + 1 := by linarith
    norm_cast at h₁ h₂
    omega
  · have h₁ : (m : ℚ) < r + 1 := by linarith
    have h₂ : (r : ℚ) < m + 1 := by linarith
    norm_cast at h₁ h₂
    omega
  · have h₁ : (m : ℚ) ≤ r := by linarith
    have h₂ : (r : ℚ) ≤ m + 1 := by linarith
    norm_cast at h₁ h₂
    -- The number lies in the middle, so the nearest mantissa is even.
    have heven : r % 2 ≠ 1 := by
      intro hr
      obtain ⟨hr₁, hr₂⟩ := hodd hr
      have h₃ : (m : ℚ) < r := by linarith
      have h₄ : (r : ℚ) < m + 1 := by linarith
      norm_cast at h₃ h₄
      omega
    omega
  · have h₁ : (m : ℚ) < r := by linarith
    have h₂ : (r : ℚ) < m + 2 := by linarith
    norm_cast at h₁ h₂
    omega

/-! ## Rounding to a double -/

/-- The exponent a mantissa of some size is rounded to. -/
theorem targetExponent_binary64 (t : Int) :
    Format.binary64.targetExponent t = max (t - 53) (-1074) := by
  norm_num [Format.targetExponent, Format.mantissaBits, Format.minExponent]

theorem shiftToTargetExponent_binary64 (m : Nat) (e : Int) (a : Accuracy) :
    shiftToTargetExponent Format.binary64 m e a =
      (ExtendedMantissa.ofMantissaAndAccuracy m a >>>
        (max (m.log2 + 1 + e - 53) (-1074) - e).toNat,
      e + (max (m.log2 + 1 + e - 53) (-1074) - e).toNat) := by
  rw [shiftToTargetExponent, targetExponent_binary64]
  rfl

/-- A double is on its own exponent already. -/
theorem IsDouble.shiftToTargetExponent {m : Nat} {q : Int} (h : IsDouble m q) :
    shiftToTargetExponent Format.binary64 m q .exact = (⟨m, false, false⟩, q) := by
  have htarget : (max (m.log2 + 1 + q - 53) (-1074) - q).toNat = 0 := by
    have hlow := h.low
    rcases h.full with hfull | hleast
    · have hlog : m.log2 = 52 := (Nat.log2_eq_iff (by omega)).2 ⟨hfull, h.lt⟩
      omega
    · have hlog : m.log2 < 53 := (Nat.log2_lt (by have := h.pos; omega)).2 h.lt
      omega
  rw [shiftToTargetExponent_binary64, htarget]
  simp [HShiftRight.hShiftRight, Nat.repeat, ExtendedMantissa.ofMantissaAndAccuracy]

/-- A mantissa that was rounded up to one bit more is halved. -/
theorem shiftToTargetExponent_carry {q : Int} (hq : -1074 < q) :
    shiftToTargetExponent Format.binary64 (2 ^ 53) (q - 1) .exact =
      (⟨2 ^ 52, false, false⟩, q) := by
  have hlog : (2 ^ 53 : Nat).log2 = 53 := Nat.log2_two_pow
  have htarget : (max (((2 ^ 53 : Nat).log2 : Int) + 1 + (q - 1) - 53) (-1074) - (q - 1)).toNat
      = 1 := by
    rw [hlog]
    omega
  rw [shiftToTargetExponent_binary64, htarget]
  simp [HShiftRight.hShiftRight, Nat.repeat, ExtendedMantissa.ofMantissaAndAccuracy,
    ExtendedMantissa.shiftRightOne]

/-- The size of a number that was shifted to the exponent its mantissa is rounded to. -/
theorem shifted_bounds {M : Nat} {e T : Int} {a : Accuracy} {x : ℚ} (hloc : Locates a M x)
    (hT : T = max (M.log2 + 1 + e - 53) (-1074)) (he : e ≤ T) :
    x * 2 ^ e < 2 ^ 53 * 2 ^ T ∧ (T ≠ -1074 → 2 ^ 52 * 2 ^ T ≤ x * 2 ^ e) := by
  have htwo : (2 : ℚ) ≠ 0 := by norm_num
  have hpos : (0 : ℚ) < 2 ^ e := zpow_pos (by norm_num) e
  constructor
  -- A whole number is at least one below the power of two behind its bits.
  · have hlt : x < 2 ^ (M.log2 + 1) := by
      have hM : ((M + 1 : Nat) : ℚ) ≤ (2 ^ (M.log2 + 1) : Nat) := by
        exact_mod_cast Nat.lt_log2_self
      push_cast at hM
      exact hloc.lt.trans_le hM
    calc x * 2 ^ e < 2 ^ (M.log2 + 1) * 2 ^ e := by gcongr
      _ = 2 ^ ((M.log2 + 1 : Nat) + e : Int) := by rw [zpow_add₀ htwo, zpow_natCast]
      _ ≤ 2 ^ (53 + T) := zpow_le_zpow_right₀ (by norm_num) (by push_cast; omega)
      _ = 2 ^ 53 * 2 ^ T := by rw [zpow_add₀ htwo]; norm_num
  · intro hne
    have hM : M ≠ 0 := by
      rintro rfl
      simp only [Nat.log2_zero] at hT
      omega
    have hle : (2 : ℚ) ^ M.log2 ≤ x := by
      have hM : ((2 ^ M.log2 : Nat) : ℚ) ≤ M := by exact_mod_cast Nat.log2_self_le hM
      push_cast at hM
      exact hM.trans hloc.le
    calc (2 : ℚ) ^ 52 * 2 ^ T = 2 ^ (52 + T) := by rw [zpow_add₀ htwo]; norm_num
      _ = 2 ^ ((M.log2 : Int) + e) := by congr 1; omega
      _ = 2 ^ M.log2 * 2 ^ e := by rw [zpow_add₀ htwo, zpow_natCast]
      _ ≤ x * 2 ^ e := by gcongr

/-- The doubles in whose interval a number lies have an exponent no less than the one the number
is shifted to, and are two steps from it at most. -/
theorem RoundsTo.exponent {m : Nat} {q T : Int} {x : ℚ} (hd : IsDouble m q) (hx : RoundsTo m q x)
    (hT : -1074 ≤ T) (hlt : x < 2 ^ 53 * 2 ^ T) (hle : T ≠ -1074 → 2 ^ 52 * 2 ^ T ≤ x) :
    T = q ∨ (T = q - 1 ∧ m = 2 ^ 52 ∧ -1074 < q) := by
  have htwo : (2 : ℚ) ≠ 0 := by norm_num
  have hq : (0 : ℚ) < 2 ^ q := zpow_pos (by norm_num) q
  have hm : ((m : Nat) : ℚ) + 1 ≤ 2 ^ 53 := by exact_mod_cast hd.lt
  have hTq : T ≤ q := by
    by_cases hT' : T = -1074
    · have := hd.low
      omega
    have hpow : (2 : ℚ) ^ (52 + T) < 2 ^ (53 + q) := by
      rw [zpow_add₀ htwo, zpow_add₀ htwo]
      calc (2 : ℚ) ^ (52 : Int) * 2 ^ T = 2 ^ 52 * 2 ^ T := by norm_num
        _ ≤ x := hle hT'
        _ ≤ (m + 1 / 2) * 2 ^ q := hx.high
        _ < 2 ^ (53 : Int) * 2 ^ q := by
            gcongr
            norm_num at hm ⊢
            linarith
    have := (zpow_lt_zpow_iff_right₀ (by norm_num : (1 : ℚ) < 2)).1 hpow
    omega
  rcases hTq.eq_or_lt with hTq | hTq
  · exact Or.inl hTq
  -- Below the exponent of the double, only the numbers close under a power of two are left.
  obtain ⟨j, hj⟩ : ∃ j : Nat, q = T + 1 + j := ⟨(q - T - 1).toNat, by omega⟩
  have hT₀ : (0 : ℚ) < 2 ^ T := zpow_pos (by norm_num) T
  have hlow : (m - lowerMargin m q) * (2 * 2 ^ j) < 2 ^ 53 := by
    have hlow := hx.low.trans_lt hlt
    rw [hj, zpow_add₀ htwo, zpow_add₀ htwo, zpow_natCast, zpow_one] at hlow
    rw [← hj] at hlow
    nlinarith
  have hfull : 2 ^ 52 ≤ m := hd.full.resolve_right (by omega)
  have hj₁ : (1 : ℚ) ≤ 2 ^ j := one_le_pow₀ (by norm_num)
  have hmargin := lowerMargin_le m q
  have hm52 : m = 2 ^ 52 := by
    by_contra hne
    have hge : (2 : ℚ) ^ 52 + 1 ≤ m := by exact_mod_cast (by omega : 2 ^ 52 + 1 ≤ m)
    nlinarith
  subst hm52
  rw [lowerMargin_of_hiddenBit (by omega)] at hlow
  have hj₀ : j = 0 := by
    by_contra hne
    have hj₂ : (2 : ℚ) ≤ 2 ^ j := by
      calc (2 : ℚ) = 2 ^ 1 := by norm_num
        _ ≤ 2 ^ j := pow_le_pow_right₀ (by norm_num) (by omega)
    norm_num at hlow
    linarith
  exact Or.inr ⟨by omega, rfl, by omega⟩

/-- **Correct rounding.** An exact number whose bits suffice is rounded to the double in whose
interval it lies. -/
theorem roundWithAccuracy_eq {m M : Nat} {q e : Int} {a : Accuracy} {x : ℚ} (hd : IsDouble m q)
    (hloc : Locates a M x) (hbits : e ≤ max (M.log2 + 1 + e - 53) (-1074))
    (hx : RoundsTo m q (x * 2 ^ e)) (s : Sign) :
    roundWithAccuracy Format.binary64 s M e a = .finite s m q hd.pos := by
  obtain ⟨T, hT⟩ : ∃ T : Int, T = max (M.log2 + 1 + e - 53) (-1074) := ⟨_, rfl⟩
  have hT₀ : (0 : ℚ) < 2 ^ T := zpow_pos (by norm_num) T
  have hq₀ : (0 : ℚ) < 2 ^ q := zpow_pos (by norm_num) q
  -- The exact number in units of the mantissa that is rounded.
  obtain ⟨y, hy⟩ : ∃ y : ℚ, y = x / 2 ^ (T - e).toNat := ⟨_, rfl⟩
  have hyx : x * 2 ^ e = y * 2 ^ T := by
    have hsplit : (2 : ℚ) ^ T = 2 ^ (T - e).toNat * 2 ^ e := by
      rw [← zpow_natCast, ← zpow_add₀ (by norm_num)]
      congr 1
      omega
    rw [hy, hsplit]
    field_simp
  have hloc' := locates_shiftRight (locates_ofMantissaAndAccuracy hloc) (T - e).toNat
  rw [← hy] at hloc'
  obtain ⟨hlt, hle⟩ := shifted_bounds hloc hT (by omega)
  have hT1074 : -1074 ≤ T := by omega
  rw [hyx] at hlt hle hx
  have heT : e + (T - e).toNat = T := by omega
  unfold roundWithAccuracy
  rw [shiftToTargetExponent_binary64, ← hT, heT]
  dsimp only
  rcases hx.exponent hd hT1074 hlt hle with rfl | ⟨rfl, rfl, hq⟩
  · -- The number is in units of the last place of the double.
    have hround : (ExtendedMantissa.ofMantissaAndAccuracy M a >>>
        (T - e).toNat).roundedMantissa = m := by
      have hmargin := lowerMargin_le m T
      have hlow := le_of_mul_le_mul_right hx.low hT₀
      have hhigh := le_of_mul_le_mul_right hx.high hT₀
      refine roundedMantissa_eq hloc' (by linarith) hhigh fun hodd => ?_
      obtain ⟨hlow', hhigh'⟩ := hx.odd hodd
      have hlow' := lt_of_mul_lt_mul_right hlow' hT₀.le
      exact ⟨by linarith, lt_of_mul_lt_mul_right hhigh' hT₀.le⟩
    rw [hround, hd.shiftToTargetExponent]
    exact dif_neg hd.pos.ne'
  · -- The number is close under a power of two, and its mantissa is rounded up to one.
    have hround : (ExtendedMantissa.ofMantissaAndAccuracy M a >>>
        (q - 1 - e).toNat).roundedMantissa = 2 ^ 53 := by
      have hdouble : (2 : ℚ) ^ q = 2 * 2 ^ (q - 1) := by
        rw [← zpow_one_add₀ (by norm_num)]
        congr 1
        omega
      have hlow := hx.low
      rw [lowerMargin_of_hiddenBit hq, hdouble, ← mul_assoc] at hlow
      have hlow := le_of_mul_le_mul_right hlow hT₀
      have hhigh := lt_of_mul_lt_mul_right hlt hT₀.le
      refine roundedMantissa_eq hloc' ?_ ?_ fun hodd => absurd hodd (by norm_num)
      · norm_num at hlow ⊢
        linarith
      · norm_num at hhigh ⊢
        linarith
    rw [hround, shiftToTargetExponent_carry hq]
    rfl

/-! ## Products and quotients -/

section

variable {m m₁ m₂ : Nat} {q e₁ e₂ : Int} {h₁ : 0 < m₁} {h₂ : 0 < m₂} (hd : IsDouble m q)
  (s₁ s₂ : Sign)

theorem mul_eq (hbits : 52 ≤ (m₁ * m₂).log2) (hx : RoundsTo m q (m₁ * m₂ * 2 ^ (e₁ + e₂))) :
    mul Format.binary64 (.finite s₁ m₁ e₁ h₁) (.finite s₂ m₂ e₂ h₂) =
      .finite (s₁ * s₂) m q hd.pos := by
  have hx' : RoundsTo m q (((m₁ * m₂ : Nat) : ℚ) * 2 ^ (e₁ + e₂)) := by
    push_cast
    exact hx
  have hloc : Locates .exact (m₁ * m₂) ((m₁ * m₂ : Nat) : ℚ) := rfl
  exact roundWithAccuracy_eq hd hloc (by omega) hx' (s₁ * s₂)

/-- The remainder of a division locates the quotient. -/
theorem locates_accuracyOfFraction (n : Nat) {d : Nat} (hd : 0 < d) :
    Locates (accuracyOfFraction (n % d) d) (n / d) ((n : ℚ) / d) := by
  have hd₀ : (0 : ℚ) < d := by exact_mod_cast hd
  have hmod : ((n % d : Nat) : ℚ) < d := by exact_mod_cast Nat.mod_lt n hd
  have hparts : (n : ℚ) / d = (n / d : Nat) + (n % d : Nat) / (d : ℚ) := by
    have h : (n : ℚ) = d * (n / d : Nat) + (n % d : Nat) := by
      exact_mod_cast (Nat.div_add_mod n d).symm
    rw [div_eq_iff hd₀.ne', add_mul, div_mul_cancel₀ _ hd₀.ne']
    linarith
  rw [hparts]
  unfold accuracyOfFraction
  split_ifs with hzero
  · simp [Locates, hzero]
  · have hpos : (0 : ℚ) < (n % d : Nat) / (d : ℚ) := by
      have : (0 : ℚ) < (n % d : Nat) := by exact_mod_cast Nat.pos_of_ne_zero hzero
      positivity
    have hone : ((n % d : Nat) : ℚ) / d < 1 := (div_lt_one hd₀).2 hmod
    -- The remainder is compared with half of the divisor.
    rcases hcompare : compare (2 * (n % d)) d with _ | _ | _
    · have hlt : 2 * (n % d) < d := compare_lt_iff_lt.1 hcompare
      have hhalf : ((n % d : Nat) : ℚ) / d < 1 / 2 := by
        rw [div_lt_iff₀ hd₀]
        have : (2 : ℚ) * (n % d : Nat) < d := by exact_mod_cast hlt
        linarith
      exact ⟨by linarith, by linarith⟩
    · have heq : 2 * (n % d) = d := compare_eq_iff_eq.1 hcompare
      have hhalf : ((n % d : Nat) : ℚ) / d = 1 / 2 := by
        rw [div_eq_iff hd₀.ne']
        have : (2 : ℚ) * (n % d : Nat) = d := by exact_mod_cast heq
        linarith
      simp only [Locates, hhalf]
    · have hgt : d < 2 * (n % d) := compare_gt_iff_gt.1 hcompare
      have hhalf : 1 / 2 < ((n % d : Nat) : ℚ) / d := by
        rw [lt_div_iff₀ hd₀]
        have : (d : ℚ) < 2 * (n % d : Nat) := by exact_mod_cast hgt
        linarith
      exact ⟨by linarith, by linarith⟩

/-- A quotient has as many bits as a mantissa, unless its exponent is the least. -/
theorem le_log2_of_quotient {k : Nat} (h₁ : 0 < m₁) (h₂ : 0 < m₂)
    (hk : m₂.log2 + 53 ≤ m₁.log2 + k) : 52 ≤ (m₁ <<< k / m₂).log2 := by
  have hge : 2 ^ 52 ≤ m₁ <<< k / m₂ := by
    rw [Nat.le_div_iff_mul_le h₂, Nat.shiftLeft_eq]
    calc 2 ^ 52 * m₂ ≤ 2 ^ 52 * 2 ^ (m₂.log2 + 1) := by
          gcongr
          exact Nat.lt_log2_self.le
      _ = 2 ^ (m₂.log2 + 53) := by rw [← pow_add]; congr 1; omega
      _ ≤ 2 ^ (m₁.log2 + k) := Nat.pow_le_pow_right (by norm_num) hk
      _ = 2 ^ m₁.log2 * 2 ^ k := pow_add _ _ _
      _ ≤ m₁ * 2 ^ k := by
          gcongr
          exact Nat.log2_self_le h₁.ne'
  exact (Nat.le_log2 (by omega)).2 hge

theorem div_eq (hx : RoundsTo m q (m₁ * 2 ^ e₁ / (m₂ * 2 ^ e₂))) :
    div Format.binary64 (.finite s₁ m₁ e₁ h₁) (.finite s₂ m₂ e₂ h₂) =
      .finite (s₁ / s₂) m q hd.pos := by
  have htwo : (2 : ℚ) ≠ 0 := by norm_num
  have hm₂ : (m₂ : ℚ) ≠ 0 := by exact_mod_cast h₂.ne'
  -- The exponent of the quotient, and how far the dividend is shifted for it.
  obtain ⟨T, hT⟩ : ∃ T : Int, T = min (e₁ - e₂)
      (max (totalExponent m₁ e₁ - totalExponent m₂ e₂ - 53) (-1074)) := ⟨_, rfl⟩
  obtain ⟨k, hk⟩ : ∃ k : Nat, k = (e₁ - e₂ - T).toNat := ⟨_, rfl⟩
  have hkT : (k : Int) = e₁ - e₂ - T := by omega
  have hbits : T ≤ max (((m₁ <<< k / m₂).log2 : Int) + 1 + T - 53) (-1074) := by
    by_cases hleast : T ≤ -1074
    · omega
    · have := le_log2_of_quotient (k := k) h₁ h₂ (by
        simp only [totalExponent] at hT
        omega)
      omega
  have hvalue : (m₁ : ℚ) * 2 ^ e₁ / (m₂ * 2 ^ e₂) = ((m₁ <<< k : Nat) : ℚ) / m₂ * 2 ^ T := by
    have hpow : (2 : ℚ) ^ e₁ = 2 ^ k * 2 ^ T * 2 ^ e₂ := by
      rw [← zpow_natCast, ← zpow_add₀ htwo, ← zpow_add₀ htwo]
      congr 1
      omega
    have he₂ : (2 : ℚ) ^ e₂ ≠ 0 := zpow_ne_zero _ htwo
    rw [Nat.shiftLeft_eq, hpow]
    push_cast
    field_simp
  rw [hvalue] at hx
  have := roundWithAccuracy_eq hd (locates_accuracyOfFraction (m₁ <<< k) h₂) hbits hx (s₁ / s₂)
  rw [div, divCore, targetExponent_binary64, ← hT, ← hk]
  exact this

end

end SiteAnalysis
