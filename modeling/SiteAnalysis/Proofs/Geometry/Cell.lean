import Mathlib
import SiteAnalysis.Geometry.Cell
import SiteAnalysis.Proofs.Number.Exact

set_option autoImplicit false

/-! # Cells over exact numbers

A cell is built from positive lengths and from angles that do not make it flat
(`ofMeasures_cases`). Its rows then undo its axes, so a vector and its multiples of the axes stand
for each other (`IsProper.toReal_toFractional`, `IsProper.toFractional_toReal`).
-/

namespace SiteAnalysis

/-! ## Vectors of exact numbers -/

namespace Vec3

theorem ext {a b : Vec3 ℝ} (hx : a.x = b.x) (hy : a.y = b.y) (hz : a.z = b.z) : a = b := by
  cases a
  cases b
  simp_all

theorem dot_eq (a b : Vec3 ℝ) : a.dot b = a.x * b.x + a.y * b.y + a.z * b.z := rfl

theorem dot_self_nonneg (a : Vec3 ℝ) : 0 ≤ a.dot a := by
  exact add_nonneg (add_nonneg (mul_self_nonneg _) (mul_self_nonneg _)) (mul_self_nonneg _)

theorem magnitude_eq (a : Vec3 ℝ) : a.magnitude = Real.sqrt (a.dot a) := rfl

theorem magnitude_le_iff (a b : Vec3 ℝ) : a.magnitude ≤ b.magnitude ↔ a.dot a ≤ b.dot b :=
  Real.sqrt_le_sqrt_iff b.dot_self_nonneg

/-- **The scalar product** is at most the product of the lengths. -/
theorem abs_dot_le (a b : Vec3 ℝ) : |a.dot b| ≤ a.magnitude * b.magnitude := by
  rw [magnitude_eq, magnitude_eq, ← Real.sqrt_mul a.dot_self_nonneg]
  refine Real.abs_le_sqrt ?_
  have hcross := dot_self_nonneg (a.cross b)
  calc a.dot b ^ 2 ≤ a.dot b ^ 2 + (a.cross b).dot (a.cross b) := by linarith
    _ = a.dot a * b.dot b := by
        simp only [dot_eq, cross]
        ring

end Vec3

namespace Cell

/-! ## Cells that are built -/

theorem isLength_iff {l : ℝ} : isLength l = true ↔ 0 < l := by
  have hzero : (0.0 : ℝ) = 0 := by norm_num
  change (true && Arith.lt (0.0 : ℝ) l) = true ↔ _
  rw [Bool.true_and, Exact.lt_iff, hzero]

theorem all_isLength_iff (lengths : Vec3 ℝ) : lengths.toList.all isLength = true ↔
    0 < lengths.x ∧ 0 < lengths.y ∧ 0 < lengths.z := by
  simp [Vec3.toList, isLength_iff]

/-- How far the third axis leans along the second one, for a length of one. -/
noncomputable def lean (angles : Vec3 ℝ) : ℝ :=
  (Real.cos (Arith.toRadians angles.x) -
    Real.cos (Arith.toRadians angles.y) * Real.cos (Arith.toRadians angles.z)) /
      Real.sin (Arith.toRadians angles.z)

/-- The square of the height of the third axis over the other two, for a length of one. -/
noncomputable def heightSq (angles : Vec3 ℝ) : ℝ :=
  1 - Real.cos (Arith.toRadians angles.y) * Real.cos (Arith.toRadians angles.y) -
    lean angles * lean angles

/-- **Measures of a cell**: positive lengths and angles that do not make it flat. -/
structure AreMeasures (lengths angles : Vec3 ℝ) : Prop where
  lengths : 0 < lengths.x ∧ 0 < lengths.y ∧ 0 < lengths.z
  height : 1.0e-12 < heightSq angles
  width : 1.0e-12 ≤ |Real.sin (Arith.toRadians angles.z)|

/-- The rows of a cell belong to its axes. -/
structure HasRows (c : Cell ℝ) : Prop where
  volume : c.volume = c.axisA.dot (c.axisB.cross c.axisC)
  inverseA : c.inverseA = c.axisB.cross c.axisC / c.volume
  inverseB : c.inverseB = c.axisC.cross c.axisA / c.volume
  inverseC : c.inverseC = c.axisA.cross c.axisB / c.volume

/-- **A cell with axes of the given lengths and angles.** -/
structure IsSpannedBy (c : Cell ℝ) (lengths angles : Vec3 ℝ) : Prop extends c.HasRows where
  axisA : c.axisA = ⟨lengths.x, 0, 0⟩
  axisB : c.axisB = ⟨lengths.y * Real.cos (Arith.toRadians angles.z),
    lengths.y * Real.sin (Arith.toRadians angles.z), 0⟩
  axisC : c.axisC = ⟨Real.cos (Arith.toRadians angles.y) * lengths.z, lean angles * lengths.z,
    Real.sqrt (heightSq angles) * lengths.z⟩

/-- The test for angles that make a cell flat. -/
theorem isFlat_iff (height width : ℝ) :
    (!(Arith.isFinite height && Arith.lt 1.0e-12 height) || Arith.lt (Arith.abs width) 1.0e-12)
      = true ↔ ¬ (1.0e-12 < height ∧ 1.0e-12 ≤ |width|) := by
  have hfinite : Arith.isFinite height = true := rfl
  have habs : Arith.abs width = |width| := rfl
  rw [hfinite, habs, Bool.true_and, Bool.or_eq_true, Bool.not_eq_true', ← Bool.not_eq_true,
    Exact.lt_iff, Exact.lt_iff, not_and_or, not_le]

/-- **When a cell is built, and what is built.** -/
theorem ofMeasures_cases (lengths angles : Vec3 ℝ) (periodic : Bool) :
    (AreMeasures lengths angles ∧ ∃ c, ofMeasures lengths angles periodic = .ok c ∧
      c.IsSpannedBy lengths angles ∧ c.periodic = periodic) ∨
    (¬ AreMeasures lengths angles ∧
      ∃ fault, ofMeasures lengths angles periodic = .error fault) := by
  have hzero : (0.0 : ℝ) = 0 := by norm_num
  have hheight : 1.0 - Real.cos (Arith.toRadians angles.y) * Real.cos (Arith.toRadians angles.y) -
      lean angles * lean angles = heightSq angles := by
    have hone : (1.0 : ℝ) = 1 := by norm_num
    rw [hone, heightSq]
  -- The lengths are tested first, and then whether the angles leave any height and width.
  unfold ofMeasures
  dsimp only
  split_ifs with hlengths hangles
  · rw [Bool.not_eq_true', ← Bool.not_eq_true, all_isLength_iff] at hlengths
    exact Or.inr ⟨fun h => hlengths h.lengths, _, rfl⟩
  · rw [isFlat_iff] at hangles
    exact Or.inr ⟨fun h => hangles ⟨h.height.trans_eq hheight.symm, h.width⟩, _, rfl⟩
  · rw [Bool.not_eq_true', Bool.not_eq_false, all_isLength_iff] at hlengths
    rw [isFlat_iff, not_not] at hangles
    refine Or.inl ⟨⟨hlengths, hangles.1.trans_eq hheight, hangles.2⟩, _, rfl,
      ⟨⟨rfl, rfl, rfl, rfl⟩, ?_, ?_, ?_⟩, rfl⟩
    · rw [hzero]
    · rw [hzero]
      rfl
    · rw [← hheight]
      rfl

theorem of_ofMeasures {lengths angles : Vec3 ℝ} {periodic : Bool} {c : Cell ℝ}
    (h : ofMeasures lengths angles periodic = .ok c) :
    AreMeasures lengths angles ∧ c.IsSpannedBy lengths angles ∧ c.periodic = periodic := by
  obtain ⟨hmeasures, d, hd, hspanned, hperiodic⟩ | ⟨-, fault, hfault⟩ :=
    ofMeasures_cases lengths angles periodic
  · obtain rfl := Except.ok.inj (hd.symm.trans h)
    exact ⟨hmeasures, hspanned, hperiodic⟩
  · cases hfault.symm.trans h

theorem AreMeasures.exists_ofMeasures {lengths angles : Vec3 ℝ} (h : AreMeasures lengths angles)
    (periodic : Bool) : ∃ c, ofMeasures lengths angles periodic = .ok c := by
  obtain ⟨-, c, hc, -⟩ | ⟨hnot, -⟩ := ofMeasures_cases lengths angles periodic
  · exact ⟨c, hc⟩
  · exact absurd h hnot

theorem AreMeasures.sin_ne_zero {lengths angles : Vec3 ℝ} (h : AreMeasures lengths angles) :
    Real.sin (Arith.toRadians angles.z) ≠ 0 := by
  intro hzero
  have hwidth := h.width
  rw [hzero, abs_zero] at hwidth
  norm_num at hwidth

theorem AreMeasures.height_pos {lengths angles : Vec3 ℝ} (h : AreMeasures lengths angles) :
    0 < heightSq angles := lt_trans (by norm_num) h.height

/-! ## Vectors as multiples of the axes -/

/-- **A cell that is not flat**, so that its rows undo its axes. -/
structure IsProper (c : Cell ℝ) : Prop extends c.HasRows where
  volume_ne : c.volume ≠ 0

/-- **The volume of a cell** has the sign of the sine of the angle between its first two axes. -/
theorem IsSpannedBy.volume_eq {c : Cell ℝ} {lengths angles : Vec3 ℝ}
    (h : c.IsSpannedBy lengths angles) :
    c.volume = lengths.x * lengths.y * (Real.sqrt (heightSq angles) * lengths.z) *
      Real.sin (Arith.toRadians angles.z) := by
  rw [h.volume, h.axisA, h.axisB, h.axisC, Vec3.dot_eq, Vec3.cross]
  ring

theorem IsSpannedBy.isProper {c : Cell ℝ} {lengths angles : Vec3 ℝ}
    (h : c.IsSpannedBy lengths angles) (hm : AreMeasures lengths angles) : c.IsProper := by
  refine ⟨h.toHasRows, ?_⟩
  obtain ⟨hx, hy, hz⟩ := hm.lengths
  have hheight := Real.sqrt_pos.2 hm.height_pos
  have hsin := hm.sin_ne_zero
  rw [h.volume_eq]
  positivity

section

variable {c : Cell ℝ}

theorem toReal_eq (f : Vec3 ℝ) : c.toReal f =
    ⟨c.axisA.x * f.x + c.axisB.x * f.y + c.axisC.x * f.z,
      c.axisA.y * f.x + c.axisB.y * f.y + c.axisC.y * f.z,
      c.axisA.z * f.x + c.axisB.z * f.y + c.axisC.z * f.z⟩ := rfl

theorem toReal_add (f g : Vec3 ℝ) : c.toReal (f + g) = c.toReal f + c.toReal g := by
  rw [toReal_eq, toReal_eq, toReal_eq]
  apply Vec3.ext
  all_goals
    change _ * (f.x + g.x) + _ * (f.y + g.y) + _ * (f.z + g.z) = _ + _
    ring

variable (h : c.IsProper)
include h

theorem IsProper.toFractional_eq (r : Vec3 ℝ) : c.toFractional r =
    ⟨(c.axisB.cross c.axisC).dot r / c.volume, (c.axisC.cross c.axisA).dot r / c.volume,
      (c.axisA.cross c.axisB).dot r / c.volume⟩ := by
  rw [toFractional, h.inverseA, h.inverseB, h.inverseC]
  apply Vec3.ext
  all_goals
    change _ / _ * _ + _ / _ * _ + _ / _ * _ = (_ * _ + _ * _ + _ * _) / _
    ring

theorem IsProper.toFractional_toReal (f : Vec3 ℝ) : c.toFractional (c.toReal f) = f := by
  have hne := h.volume_ne
  have hvolume := h.volume
  rw [h.toFractional_eq, toReal_eq]
  simp only [Vec3.dot_eq, Vec3.cross] at hvolume ⊢
  apply Vec3.ext
  all_goals
    dsimp only
    rw [div_eq_iff hne, hvolume]
    ring

theorem IsProper.toReal_toFractional (r : Vec3 ℝ) : c.toReal (c.toFractional r) = r := by
  have hne := h.volume_ne
  have hvolume := h.volume
  rw [h.toFractional_eq, toReal_eq]
  simp only [Vec3.dot_eq, Vec3.cross] at hvolume ⊢
  apply Vec3.ext
  all_goals
    dsimp only
    field_simp
    rw [hvolume]
    ring

end

end Cell

end SiteAnalysis
