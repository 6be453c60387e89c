import Mathlib
import SiteAnalysis.Grid
import SiteAnalysis.Proofs.Geometry.Images

set_option autoImplicit false

/-! # The volume of a cell over exact numbers

The volume of a cell is a triple product, so it has a sign: that of the sine of the angle between the
first two axes, which may be any angle. Data are divided by a number of sites over that volume.
Main statements:

* `Exact.sin_toRadians_pos_iff`: the angles whose sine is positive.
* `Cell.keepsSigns_iff`: a positive volume is what data need to keep their signs.
* `Cell.isRightHanded_iff`: the cells that are built, and those of them with a positive volume.
-/

namespace SiteAnalysis

/-! ## Angles with a positive sine -/

namespace Exact

theorem sin_toRadians_pos {x : ℝ} (hpos : 0 < x) (hlt : x < 180) :
    0 < Real.sin (Arith.toRadians x) := by
  have hpi := Real.pi_pos
  rw [toRadians_eq]
  refine Real.sin_pos_of_pos_of_lt_pi (by positivity) ?_
  calc x * (Real.pi / 180) < 180 * (Real.pi / 180) := by gcongr
    _ = Real.pi := by ring

theorem sin_toRadians_nonpos {x : ℝ} (hge : -180 ≤ x) (hle : x ≤ 0) :
    Real.sin (Arith.toRadians x) ≤ 0 := by
  have hpi := Real.pi_pos
  rw [toRadians_eq]
  refine Real.sin_nonpos_of_nonpos_of_neg_pi_le ?_ ?_
  · exact mul_nonpos_of_nonpos_of_nonneg hle (by positivity)
  · calc -Real.pi = -180 * (Real.pi / 180) := by ring
      _ ≤ x * (Real.pi / 180) := by gcongr

theorem sin_toRadians_sub_turns (x : ℝ) (k : ℤ) :
    Real.sin (Arith.toRadians (x - 360 * k)) = Real.sin (Arith.toRadians x) := by
  have hturns : Arith.toRadians (x - 360 * k) = Arith.toRadians x - k * (2 * Real.pi) := by
    rw [toRadians_eq, toRadians_eq]
    ring
  rw [hturns, Real.sin_sub_int_mul_two_pi]

/-- **The sine of an angle is positive** exactly if the angle lies in the first half of a turn. -/
theorem sin_toRadians_pos_iff (x : ℝ) :
    0 < Real.sin (Arith.toRadians x) ↔ ∃ k : ℤ, 360 * k < x ∧ x < 360 * k + 180 := by
  constructor
  · -- Take off whole turns until the angle is at most half a turn to either side.
    intro hpos
    have hfloor := Int.floor_le ((x + 180) / 360)
    have hceil := Int.lt_floor_add_one ((x + 180) / 360)
    generalize ⌊(x + 180) / 360⌋ = k at hfloor hceil
    rw [le_div_iff₀ (by norm_num)] at hfloor
    rw [div_lt_iff₀ (by norm_num)] at hceil
    refine ⟨k, ?_, by linarith⟩
    by_contra hle
    have hnonpos : Real.sin (Arith.toRadians (x - 360 * k)) ≤ 0 :=
      sin_toRadians_nonpos (by linarith) (by linarith)
    rw [sin_toRadians_sub_turns] at hnonpos
    exact absurd hpos (not_lt.2 hnonpos)
  · rintro ⟨k, hlow, hhigh⟩
    rw [← sin_toRadians_sub_turns x k]
    exact sin_toRadians_pos (by linarith) (by linarith)

end Exact

/-! ## Signs of data -/

namespace Grid

theorem values_divide (data : Grid ℝ) (divisor : ℝ) :
    (data.divide divisor).values = data.values.map (· / divisor) := rfl

/-- The signs of data. -/
noncomputable def signs (data : Grid ℝ) : Array SignType := data.values.map fun x => SignType.sign x

/-- A positive divisor keeps the signs of data. -/
theorem signs_divide_of_pos {divisor : ℝ} (h : 0 < divisor) (data : Grid ℝ) :
    (data.divide divisor).signs = data.signs := by
  have hsign : ∀ x : ℝ, SignType.sign (x / divisor) = SignType.sign x := by
    intro x
    rw [div_eq_mul_inv, sign_mul, sign_pos (inv_pos.2 h), mul_one]
  unfold signs
  rw [values_divide, Array.map_map]
  exact congrArg (data.values.map ·) (funext hsign)

end Grid

namespace Cell

variable {c : Cell ℝ} {lengths angles : Vec3 ℝ} {periodic : Bool}

/-- **Data keep their signs** when they are divided by the density of any number of sites in a
cell. -/
def KeepsSigns (c : Cell ℝ) : Prop :=
  ∀ (data : Grid ℝ) (population : ℝ), 0 < population →
    (data.divide (population / c.volume)).signs = data.signs

/-- **Data keep their signs exactly in cells of positive volume.** A single one shows it. -/
theorem keepsSigns_iff : c.KeepsSigns ↔ 0 < c.volume := by
  constructor
  · intro h
    have hsigns := h ⟨[[0]], #[1], ""⟩ 1 one_pos
    rw [Grid.signs, Grid.signs, Grid.values_divide] at hsigns
    have hsign : SignType.sign c.volume = 1 := by simpa using hsigns
    exact sign_eq_one_iff.1 hsign
  · intro hvolume data population hpopulation
    exact data.signs_divide_of_pos (div_pos hpopulation hvolume)

/-! ## Cells that are built -/

/-- **A right-handed cell**: its volume is positive, vectors and their multiples of the axes stand
for each other, and data keep their signs when they are divided by densities. -/
structure IsRightHanded (c : Cell ℝ) : Prop where
  volume_pos : 0 < c.volume
  toReal_toFractional : ∀ r : Vec3 ℝ, c.toReal (c.toFractional r) = r
  keepsSigns : c.KeepsSigns

theorem IsSpannedBy.volume_pos_iff (h : c.IsSpannedBy lengths angles)
    (hm : AreMeasures lengths angles) :
    0 < c.volume ↔ 0 < Real.sin (Arith.toRadians angles.z) := by
  obtain ⟨hx, hy, hz⟩ := hm.lengths
  have hheight := Real.sqrt_pos.2 hm.height_pos
  rw [h.volume_eq]
  exact mul_pos_iff_of_pos_left (by positivity)

/-- **What is built is never flat**: vectors and their multiples of the axes stand for each other,
and a density divides by no zero and is none. It is right-handed exactly if the angle between the
first two axes lies in the first half of a turn. -/
theorem isRightHanded_iff (h : ofMeasures lengths angles periodic = .ok c) :
    (∀ r : Vec3 ℝ, c.toReal (c.toFractional r) = r) ∧
    (c.volume ≠ 0 ∧ ∀ population : ℝ, 0 < population → population / c.volume ≠ 0) ∧
    (c.IsRightHanded ↔ ∃ k : ℤ, 360 * k < angles.z ∧ angles.z < 360 * k + 180) := by
  obtain ⟨hmeasures, hspanned, -⟩ := of_ofMeasures h
  have hproper := hspanned.isProper hmeasures
  have hpositive := hspanned.volume_pos_iff hmeasures
  rw [Exact.sin_toRadians_pos_iff] at hpositive
  refine ⟨hproper.toReal_toFractional, ⟨hproper.volume_ne, ?_⟩, ?_⟩
  · intro population hpopulation
    exact div_ne_zero hpopulation.ne' hproper.volume_ne
  · constructor
    · intro hright
      exact hpositive.1 hright.volume_pos
    · intro hangle
      have hvolume := hpositive.2 hangle
      exact ⟨hvolume, hproper.toReal_toFractional, keepsSigns_iff.2 hvolume⟩

theorem isRightHanded_cube : ∃ c : Cell ℝ,
    ofMeasures ⟨10, 10, 10⟩ ⟨90, 90, 90⟩ true = .ok c ∧ c.IsRightHanded := by
  have hmeasures : AreMeasures ⟨10, 10, 10⟩ ⟨90, 90, 90⟩ :=
    areMeasures_upright (by norm_num) (by rw [Exact.sin_toRadians_ninety]; norm_num)
  obtain ⟨c, hc⟩ := hmeasures.exists_ofMeasures true
  exact ⟨c, hc, (isRightHanded_iff hc).2.2.2 ⟨0, by norm_num, by norm_num⟩⟩

/-- **A cell of negative volume** is built from an angle of three quarters of a turn, and the signs
of data flip in it. -/
theorem not_isRightHanded_reflex : ∃ c : Cell ℝ,
    ofMeasures ⟨10, 10, 10⟩ ⟨90, 90, 270⟩ true = .ok c ∧ c.volume = -1000 ∧
      ¬ c.KeepsSigns := by
  have hsin : Real.sin (Arith.toRadians 270) = -1 := by
    have hturn : Arith.toRadians (270 : ℝ) = Real.pi / 2 + Real.pi := by
      rw [Exact.toRadians_eq]
      ring
    rw [hturn, Real.sin_add_pi, Real.sin_pi_div_two]
  have hmeasures : AreMeasures ⟨10, 10, 10⟩ ⟨90, 90, 270⟩ :=
    areMeasures_upright (by norm_num) (by rw [hsin]; norm_num)
  obtain ⟨c, hc⟩ := hmeasures.exists_ofMeasures true
  obtain ⟨-, hspanned, -⟩ := of_ofMeasures hc
  have hvolume : c.volume = -1000 := by
    rw [hspanned.volume_eq, heightSq, lean]
    dsimp only
    rw [Exact.cos_toRadians_ninety, hsin]
    norm_num
  refine ⟨c, hc, hvolume, ?_⟩
  rw [keepsSigns_iff, hvolume]
  norm_num

end Cell

end SiteAnalysis
