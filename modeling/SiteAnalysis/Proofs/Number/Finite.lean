import Mathlib
import SiteAnalysis.Json.Number

set_option autoImplicit false

/-! # Words as doubles

A whole number of a document that is too large for an integer becomes a double. It is far from the
largest one, so the double is finite (`isFinite_ofInt`). The rounding that makes it is followed
with coarse bounds on the exponent: the mantissa never grows by more than a bit, so neither
of the two shifts comes near an overflow.
-/

namespace SiteAnalysis

open Float.Model (Format totalExponent)
open Float.Model.UnpackedFloat

/-- **Numbers below the range in which packing overflows.** -/
inductive IsModerate : Float.Model.UnpackedFloat → Prop
  | zero (s : Sign) : IsModerate (.zero s)
  | finite {s : Sign} {m : Nat} {e : Int} {hm : 0 < m} (he : e < 971) :
      IsModerate (.finite s m e hm)

/-- A double is finite unless all bits of its exponent are set. -/
theorem isFinite_unpack_of_ne {b : BitVec Format.binary64.numBits} (h : unpackExponent b ≠ -1#_) :
    (unpack Format.binary64 b).isFinite = true := by
  unfold unpack
  simp only [if_neg h]
  split_ifs <;> rfl

/-- Below the largest exponent, packing keeps a number finite. -/
theorem isFinite_pack {f : Float.Model.UnpackedFloat} (h : IsModerate f) :
    (Float.Model.pack f).isFinite = true := by
  refine isFinite_unpack_of_ne ?_
  cases h with
  | zero s => cases s <;> decide
  | @finite s m e hm he =>
      have hbiased : (e + 1023 + 52).toNat + 1 < 2048 := by omega
      change unpackExponent (pack Format.binary64 (.finite s m e hm)) ≠ _
      rw [pack]
      norm_num [Format.exponentBias]
      rw [if_neg (by omega)]
      split_ifs
      · rw [unpackExponent_packComponents]
        intro hall
        have hnat := congrArg BitVec.toNat hall
        simp only [BitVec.toNat_ofNat, BitVec.toNat_neg] at hnat
        omega
      · rw [unpackExponent_packComponents]
        decide

theorem mantissa_shiftRight (em : ExtendedMantissa) (k : Nat) :
    (em >>> k).mantissa = em.mantissa / 2 ^ k := by
  induction k with
  | zero => exact (Nat.div_one _).symm
  | succ k ih =>
      change (em >>> k).mantissa / 2 = _
      rw [ih, Nat.div_div_eq_div_mul, pow_succ]

theorem mantissa_shiftRight_le (em : ExtendedMantissa) (k : Nat) :
    (em >>> k).mantissa ≤ em.mantissa := by
  rw [mantissa_shiftRight]
  exact Nat.div_le_self _ _

theorem roundedMantissa_le (em : ExtendedMantissa) : em.roundedMantissa ≤ em.mantissa + 1 := by
  obtain ⟨m, r, s⟩ := em
  cases r <;> cases s <;> simp [ExtendedMantissa.roundedMantissa, ExtendedMantissa.accuracy,
    Accuracy.roundToNearestEven]
  omega

theorem mantissa_ofMantissaAndAccuracy (m : Nat) (a : Accuracy) :
    (ExtendedMantissa.ofMantissaAndAccuracy m a).mantissa = m := by
  cases a with
  | exact => rfl
  | inexact o => cases o <;> rfl

/-- A shift to the target exponent leaves no larger mantissa, and the size of the number bounds the
exponent. -/
theorem shiftToTargetExponent_bounds {m : Nat} {e : Int} (hm : m < 2 ^ 200) (a : Accuracy) :
    (shiftToTargetExponent Format.binary64 m e a).1.mantissa ≤ m ∧
      (shiftToTargetExponent Format.binary64 m e a).2 ≤ max (e + 147) (-1074) := by
  have hlog : m.log2 < 200 := by
    by_cases h : m = 0
    · simp [h]
    · exact (Nat.log2_lt h).2 hm
  constructor
  · exact (mantissa_shiftRight_le _ _).trans (mantissa_ofMantissaAndAccuracy m a).le
  · simp only [shiftToTargetExponent, shiftToExponent, Format.targetExponent, totalExponent,
      Format.mantissaBits, Format.minExponent]
    norm_num
    omega

theorem isModerate_roundWithAccuracy {m : Nat} {e : Int} (hm : m < 2 ^ 199) (he : e ≤ 0)
    (s : Sign) (a : Accuracy) : IsModerate (roundWithAccuracy Format.binary64 s m e a) := by
  have hlt : m < 2 ^ 200 := by omega
  obtain ⟨hm₁, he₁⟩ := shiftToTargetExponent_bounds (e := e) hlt a
  have hround := roundedMantissa_le (shiftToTargetExponent Format.binary64 m e a).1
  have hlt₁ : (shiftToTargetExponent Format.binary64 m e a).1.roundedMantissa < 2 ^ 200 := by omega
  obtain ⟨-, he₂⟩ := shiftToTargetExponent_bounds
    (e := (shiftToTargetExponent Format.binary64 m e a).2) hlt₁ .exact
  unfold roundWithAccuracy
  dsimp only
  split_ifs
  · exact .zero s
  · exact .finite (by omega)

/-- The product that a whole number is rounded from. -/
theorem isModerate_ofScientific {k : Nat} (hk : k < 2 ^ 64) :
    IsModerate (ofScientific Format.binary64 k 0) := by
  unfold ofScientific
  by_cases hne : k = 0
  · rw [dif_pos hne]
    exact .zero _
  · rw [dif_neg hne]
    norm_num
    rw [if_neg (by omega), mul]
    refine isModerate_roundWithAccuracy ?_ (by simp) _ _
    simp only [Nat.shiftLeft_eq, Format.mantissaBits]
    omega

/-- **A word that is too large for an integer is finite as a double.** -/
theorem isFinite_ofInt {n : Int} (hlow : maxInt < n) (hhigh : n ≤ Json.maxWord) :
    (Float.ofInt n).isFinite = true := by
  have hword : n ≤ 0xFFFFFFFFFFFFFFFF := hhigh
  have hint : 9223372036854775807 < n := hlow
  obtain ⟨k, rfl⟩ : ∃ k : Nat, n = k := ⟨n.toNat, by omega⟩
  have hk : ¬ (k < 2 ^ 53 ∧ 0 ≤ 22) := by omega
  have hscientific : Float.ofInt k = ⟨Float.Model.ofScientific k 0⟩ := by
    change Float.ofScientific k false 0 = _
    rw [Float.ofScientific, dif_neg hk]
    rfl
  rw [hscientific]
  exact isFinite_pack (isModerate_ofScientific (by omega))

end SiteAnalysis
