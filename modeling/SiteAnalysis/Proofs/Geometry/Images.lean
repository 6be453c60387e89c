import SiteAnalysis.Proofs.Geometry.Cell

set_option autoImplicit false

/-! # Nearest images in a periodic cell

The images of a vector are what whole numbers of steps along the axes make of it. The vector that
`minimumVector` finds is made up of at most half of each axis. Over exact numbers:

* `minimumVector_finds_image`: it is always an image of the difference of the two points, and it is
  the shortest of them for all points exactly if the axes stand upright on each other. In a skewed
  cell there are always points for which a shorter image exists (`skewed_image_is_shorter`).
* `minimumVector_of_short`: an image that is shorter than half the distance of the faces is found in
  every cell.
-/

namespace SiteAnalysis

namespace Cell

/-! ## Images -/

/-- **The images of a vector**: it differs from them by whole numbers of steps along the axes. -/
def IsImage (c : Cell ℝ) (w v : Vec3 ℝ) : Prop := ∃ i j k : ℤ, v = w + c.toReal ⟨i, j, k⟩

/-- **The vectors found are the shortest images**, for all points. -/
def FindsShortest (c : Cell ℝ) : Prop :=
  ∀ r₁ r₂ v : Vec3 ℝ, c.IsImage (r₂ - r₁) v → c.minimumDistance r₁ r₂ ≤ v.magnitude

/-- What is left of a number without the whole number nearest to it. -/
noncomputable def offset (x : ℝ) : ℝ := x - Exact.nearest x

theorem offset_of_abs_lt {x : ℝ} (h : |x| < 1 / 2) : offset x = x := by
  rw [offset, Exact.nearest_eq (m := 0) (by simpa using h), Int.cast_zero, sub_zero]

section

variable {c : Cell ℝ} {r₁ r₂ : Vec3 ℝ}

/-- **What is found**, as multiples of the axes. -/
theorem minimumVector_eq (hperiodic : c.periodic = true) : c.minimumVector r₁ r₂ =
    c.toReal ((c.toFractional (r₂ - r₁)).map offset) := by
  unfold minimumVector
  dsimp only
  rw [hperiodic, if_neg (by simp)]
  rfl

theorem IsProper.isImage_iff (h : c.IsProper) {w v : Vec3 ℝ} : c.IsImage w v ↔
    ∃ i j k : ℤ, c.toFractional v = c.toFractional w + ⟨i, j, k⟩ := by
  refine exists_congr fun i => exists_congr fun j => exists_congr fun k => ?_
  constructor
  · rintro rfl
    conv_lhs => rw [← h.toReal_toFractional w, ← toReal_add]
    rw [h.toFractional_toReal]
  · intro hv
    rw [← h.toReal_toFractional v, hv, toReal_add, h.toReal_toFractional]

theorem IsProper.isImage_minimumVector (h : c.IsProper) (hperiodic : c.periodic = true) :
    c.IsImage (r₂ - r₁) (c.minimumVector r₁ r₂) := by
  rw [h.isImage_iff, minimumVector_eq hperiodic, h.toFractional_toReal]
  generalize c.toFractional (r₂ - r₁) = f
  refine ⟨-Exact.nearest f.x, -Exact.nearest f.y, -Exact.nearest f.z, ?_⟩
  apply Vec3.ext
  all_goals
    change _ - _ = _ + _
    push_cast
    ring

/-- **An image that is short enough is found.** The rows are as long as the distances of the faces
are short. -/
theorem IsProper.minimumVector_of_short (h : c.IsProper) (hperiodic : c.periodic = true)
    {v : Vec3 ℝ} (hv : c.IsImage (r₂ - r₁) v)
    (hshort : ∀ u ∈ [c.inverseA, c.inverseB, c.inverseC], u.magnitude * v.magnitude < 1 / 2) :
    c.minimumVector r₁ r₂ = v := by
  obtain ⟨i, j, k, hf⟩ := h.isImage_iff.1 hv
  -- A fraction that is less than half away from a whole number loses just this number.
  have hoffset : ∀ (u : Vec3 ℝ) (x : ℝ) (m : ℤ), u.magnitude * v.magnitude < 1 / 2 →
      u.dot v = x + m → offset x = x + m := by
    intro u x m hu hx
    have hlt : |x - (-m : ℤ)| < 1 / 2 := by
      rw [Int.cast_neg, sub_neg_eq_add, ← hx]
      exact lt_of_le_of_lt (u.abs_dot_le v) hu
    rw [offset, Exact.nearest_eq hlt]
    push_cast
    ring
  have hmap : (c.toFractional (r₂ - r₁)).map offset = c.toFractional v := by
    have hx : c.inverseA.dot v = (c.toFractional (r₂ - r₁)).x + i := congrArg Vec3.x hf
    have hy : c.inverseB.dot v = (c.toFractional (r₂ - r₁)).y + j := congrArg Vec3.y hf
    have hz : c.inverseC.dot v = (c.toFractional (r₂ - r₁)).z + k := congrArg Vec3.z hf
    rw [hf]
    apply Vec3.ext
    · exact hoffset _ _ i (hshort _ (by simp)) hx
    · exact hoffset _ _ j (hshort _ (by simp)) hy
    · exact hoffset _ _ k (hshort _ (by simp)) hz
  rw [minimumVector_eq hperiodic, hmap, h.toReal_toFractional]

/-- The square of a length from the multiples of the axes. -/
theorem dot_toReal (f : Vec3 ℝ) : (c.toReal f).dot (c.toReal f) =
    f.x ^ 2 * c.axisA.dot c.axisA + f.y ^ 2 * c.axisB.dot c.axisB +
      f.z ^ 2 * c.axisC.dot c.axisC + 2 * (f.x * f.y * c.axisA.dot c.axisB +
      f.x * f.z * c.axisA.dot c.axisC + f.y * f.z * c.axisB.dot c.axisC) := by
  rw [toReal_eq]
  simp only [Vec3.dot_eq]
  ring

/-- Whether the axes stand upright on each other. -/
structure IsUpright (c : Cell ℝ) : Prop where
  ab : c.axisA.dot c.axisB = 0
  ac : c.axisA.dot c.axisC = 0
  bc : c.axisB.dot c.axisC = 0

theorem offset_half : offset (1 / 2) = -(1 / 2) := by
  rw [offset, Exact.nearest_half]
  norm_num

theorem offset_neg_half : offset (-(1 / 2)) = 1 / 2 := by
  rw [offset, Exact.nearest_neg_half]
  norm_num

theorem offset_zero : offset 0 = 0 := by
  rw [offset, Exact.nearest_zero]
  norm_num

/-- **The shortest images**, told by multiples of the axes. -/
theorem IsProper.findsShortest_iff (h : c.IsProper) (hperiodic : c.periodic = true) :
    c.FindsShortest ↔ ∀ (f : Vec3 ℝ) (i j k : ℤ),
      (c.toReal (f.map offset)).dot (c.toReal (f.map offset)) ≤
        (c.toReal (f + ⟨i, j, k⟩)).dot (c.toReal (f + ⟨i, j, k⟩)) := by
  have hdistance : ∀ r₁ r₂ v : Vec3 ℝ, c.minimumDistance r₁ r₂ ≤ v.magnitude ↔
      (c.toReal ((c.toFractional (r₂ - r₁)).map offset)).dot
        (c.toReal ((c.toFractional (r₂ - r₁)).map offset)) ≤ v.dot v := by
    intro r₁ r₂ v
    rw [minimumDistance, Vec3.magnitude_le_iff, minimumVector_eq hperiodic]
  constructor
  · intro hall f i j k
    -- The points are the origin and the one with the given multiples.
    have hdiff : c.toReal f - ⟨0, 0, 0⟩ = c.toReal f := by
      apply Vec3.ext <;> exact sub_zero _
    have hle := hall ⟨0, 0, 0⟩ (c.toReal f) (c.toReal (f + ⟨i, j, k⟩))
      ⟨i, j, k, by rw [hdiff, toReal_add]⟩
    rwa [hdistance, hdiff, h.toFractional_toReal] at hle
  · rintro hall r₁ r₂ v ⟨i, j, k, rfl⟩
    rw [hdistance]
    have hle := hall (c.toFractional (r₂ - r₁)) i j k
    rwa [toReal_add, h.toReal_toFractional] at hle

theorem IsProper.findsShortest_iff_isUpright (h : c.IsProper) (hperiodic : c.periodic = true) :
    c.FindsShortest ↔ c.IsUpright := by
  rw [h.findsShortest_iff hperiodic]
  constructor
  · intro hall
    -- Halves of two axes, with equal signs and with opposite ones.
    have hab := hall ⟨1 / 2, 1 / 2, 0⟩ 0 (-1) 0
    have hab' := hall ⟨1 / 2, -(1 / 2), 0⟩ 0 1 0
    have hac := hall ⟨1 / 2, 0, 1 / 2⟩ 0 0 (-1)
    have hac' := hall ⟨1 / 2, 0, -(1 / 2)⟩ 0 0 1
    have hbc := hall ⟨0, 1 / 2, 1 / 2⟩ 0 0 (-1)
    have hbc' := hall ⟨0, 1 / 2, -(1 / 2)⟩ 0 0 1
    have hadd : ∀ x y z u v w : ℝ, (⟨x, y, z⟩ : Vec3 ℝ) + ⟨u, v, w⟩ = ⟨x + u, y + v, z + w⟩ :=
      fun _ _ _ _ _ _ => rfl
    simp only [dot_toReal, Vec3.map, hadd, offset_half, offset_neg_half, offset_zero]
      at hab hab' hac hac' hbc hbc'
    norm_num at hab hab' hac hac' hbc hbc'
    refine ⟨?_, ?_, ?_⟩ <;> linarith
  · rintro ⟨hab, hac, hbc⟩ f i j k
    have hle : ∀ (x : ℝ) (m : ℤ), offset x ^ 2 ≤ (x + m) ^ 2 := by
      intro x m
      have hnearest := Exact.abs_sub_nearest_le_abs_sub x (-m)
      rw [Int.cast_neg, sub_neg_eq_add] at hnearest
      exact sq_le_sq.2 hnearest
    -- Without mixed products the square of the length is a sum over the axes.
    rw [dot_toReal, dot_toReal, hab, hac, hbc]
    have hx := mul_le_mul_of_nonneg_right (hle f.x i) c.axisA.dot_self_nonneg
    have hy := mul_le_mul_of_nonneg_right (hle f.y j) c.axisB.dot_self_nonneg
    have hz := mul_le_mul_of_nonneg_right (hle f.z k) c.axisC.dot_self_nonneg
    change offset f.x ^ 2 * _ + offset f.y ^ 2 * _ + offset f.z ^ 2 * _ + _ ≤
      (f.x + i) ^ 2 * _ + (f.y + j) ^ 2 * _ + (f.z + k) ^ 2 * _ + _
    linarith

end

/-! ## Angles of the axes -/

section

variable {c : Cell ℝ} {lengths angles : Vec3 ℝ}

/-- The axes enclose the given angles. -/
theorem IsSpannedBy.isUpright_iff (h : c.IsSpannedBy lengths angles)
    (hm : AreMeasures lengths angles) : c.IsUpright ↔
      Real.cos (Arith.toRadians angles.x) = 0 ∧ Real.cos (Arith.toRadians angles.y) = 0 ∧
        Real.cos (Arith.toRadians angles.z) = 0 := by
  obtain ⟨hx, hy, hz⟩ := hm.lengths
  have hlean : lean angles * Real.sin (Arith.toRadians angles.z) =
      Real.cos (Arith.toRadians angles.x) -
        Real.cos (Arith.toRadians angles.y) * Real.cos (Arith.toRadians angles.z) :=
    div_mul_cancel₀ _ hm.sin_ne_zero
  -- The product of two axes is the cosine of the angle between them, scaled by their lengths.
  have hab : c.axisA.dot c.axisB =
      lengths.x * lengths.y * Real.cos (Arith.toRadians angles.z) := by
    rw [h.axisA, h.axisB, Vec3.dot_eq]
    ring
  have hac : c.axisA.dot c.axisC =
      lengths.x * lengths.z * Real.cos (Arith.toRadians angles.y) := by
    rw [h.axisA, h.axisC, Vec3.dot_eq]
    ring
  have hbc : c.axisB.dot c.axisC =
      lengths.y * lengths.z * Real.cos (Arith.toRadians angles.x) := by
    rw [h.axisB, h.axisC, Vec3.dot_eq]
    linear_combination lengths.y * lengths.z * hlean
  constructor
  · rintro ⟨hab', hac', hbc'⟩
    rw [hab', eq_comm, mul_eq_zero_iff_left (by positivity)] at hab
    rw [hac', eq_comm, mul_eq_zero_iff_left (by positivity)] at hac
    rw [hbc', eq_comm, mul_eq_zero_iff_left (by positivity)] at hbc
    exact ⟨hbc, hac, hab⟩
  · rintro ⟨hcx, hcy, hcz⟩
    rw [hcz, mul_zero] at hab
    rw [hcy, mul_zero] at hac
    rw [hcx, mul_zero] at hbc
    exact ⟨hab, hac, hbc⟩

/-- Whether an angle, in degrees, is a right one up to half turns: an odd multiple of ninety. -/
def IsRightAngle (angle : ℝ) : Prop := ∃ k : ℤ, Odd k ∧ angle = 90 * k

/-- **The vector that is found between two points of a periodic cell** is always an image of their
difference. It is the shortest image, for all points, exactly if all angles of the cell are right
angles. -/
theorem minimumVector_finds_image (h : ofMeasures lengths angles true = .ok c) :
    (∀ r₁ r₂ : Vec3 ℝ, c.IsImage (r₂ - r₁) (c.minimumVector r₁ r₂)) ∧
      ((∀ r₁ r₂ v : Vec3 ℝ, c.IsImage (r₂ - r₁) v → c.minimumDistance r₁ r₂ ≤ v.magnitude) ↔
        ∀ angle ∈ angles.toList, IsRightAngle angle) := by
  obtain ⟨hmeasures, hspanned, hperiodic⟩ := of_ofMeasures h
  have hproper := hspanned.isProper hmeasures
  refine ⟨fun r₁ r₂ => hproper.isImage_minimumVector hperiodic, ?_⟩
  have hshortest : c.FindsShortest ↔ _ := hproper.findsShortest_iff_isUpright hperiodic
  unfold FindsShortest at hshortest
  rw [hshortest, hspanned.isUpright_iff hmeasures, Exact.cos_toRadians_eq_zero_iff,
    Exact.cos_toRadians_eq_zero_iff, Exact.cos_toRadians_eq_zero_iff]
  simp [Vec3.toList, IsRightAngle]

/-- Cells whose third axis stands upright on the others can be built with every angle that is not
flat. -/
theorem areMeasures_upright (hlengths : 0 < lengths.x ∧ 0 < lengths.y ∧ 0 < lengths.z) {gamma : ℝ}
    (hgamma : 1.0e-12 ≤ |Real.sin (Arith.toRadians gamma)|) :
    AreMeasures lengths ⟨90, 90, gamma⟩ := by
  refine ⟨hlengths, ?_, hgamma⟩
  rw [heightSq, lean]
  dsimp only
  rw [Exact.cos_toRadians_ninety]
  norm_num

end

theorem minimumVector_finds_image_in_cube : ∃ c : Cell ℝ,
    ofMeasures ⟨10, 10, 10⟩ ⟨90, 90, 90⟩ true = .ok c ∧
      ∀ r₁ r₂ v : Vec3 ℝ, c.IsImage (r₂ - r₁) v → c.minimumDistance r₁ r₂ ≤ v.magnitude := by
  have hsin : Real.sin (Arith.toRadians 90) = 1 := by
    rw [Exact.toRadians_eq, ← Real.sin_pi_div_two]
    congr 1
    ring
  have hmeasures : AreMeasures ⟨10, 10, 10⟩ ⟨90, 90, 90⟩ :=
    areMeasures_upright (by norm_num) (by rw [hsin]; norm_num)
  obtain ⟨c, hc⟩ := hmeasures.exists_ofMeasures true
  have hright : ∀ angle ∈ (⟨90, 90, 90⟩ : Vec3 ℝ).toList, IsRightAngle angle := by
    intro angle hangle
    obtain rfl : angle = 90 := by simpa [Vec3.toList] using hangle
    exact ⟨1, odd_one, by norm_num⟩
  exact ⟨c, hc, (minimumVector_finds_image hc).2.2 hright⟩

/-- The cell with lengths of two and an angle of sixty degrees between the first two axes. -/
theorem exists_skewed : ∃ c : Cell ℝ, ofMeasures ⟨2, 2, 2⟩ ⟨90, 90, 60⟩ true = .ok c ∧
    c.IsProper ∧ c.periodic = true ∧
      ∀ f : Vec3 ℝ, c.toReal f = ⟨2 * f.x + f.y, Real.sqrt 3 * f.y, 2 * f.z⟩ := by
  have hangle : Arith.toRadians (60 : ℝ) = Real.pi / 3 := by
    rw [Exact.toRadians_eq]
    ring
  have hmeasures : AreMeasures ⟨2, 2, 2⟩ ⟨90, 90, 60⟩ := by
    refine areMeasures_upright (by norm_num) ?_
    have hroot : (1 : ℝ) ≤ Real.sqrt 3 := Real.one_le_sqrt.2 (by norm_num)
    rw [hangle, Real.sin_pi_div_three]
    refine le_trans ?_ (le_abs_self _)
    linarith
  obtain ⟨c, hc⟩ := hmeasures.exists_ofMeasures true
  obtain ⟨-, hspanned, hperiodic⟩ := of_ofMeasures hc
  have hC : c.axisC = ⟨0, 0, 2⟩ := by
    rw [hspanned.axisC, heightSq, lean]
    dsimp only
    rw [Exact.cos_toRadians_ninety]
    norm_num
  refine ⟨c, hc, hspanned.isProper hmeasures, hperiodic, fun f => ?_⟩
  rw [toReal_eq, hspanned.axisA, hspanned.axisB, hC, hangle, Real.cos_pi_div_three,
    Real.sin_pi_div_three]
  apply Vec3.ext <;> ring

/-- **A shorter image in a skewed cell.** The vector one step back along the first axis is shorter
than the one that is found. -/
theorem skewed_image_is_shorter : ∃ c : Cell ℝ,
    ofMeasures ⟨2, 2, 2⟩ ⟨90, 90, 60⟩ true = .ok c ∧
      c.IsImage (⟨1.35, 0.78, 0⟩ - ⟨0, 0, 0⟩) ⟨-0.65, 0.78, 0⟩ ∧
      (⟨-0.65, 0.78, 0⟩ : Vec3 ℝ).magnitude < c.minimumDistance ⟨0, 0, 0⟩ ⟨1.35, 0.78, 0⟩ := by
  obtain ⟨c, hc, hproper, hperiodic, hreal⟩ := exists_skewed
  have hdiff : (⟨1.35, 0.78, 0⟩ : Vec3 ℝ) - ⟨0, 0, 0⟩ = ⟨1.35, 0.78, 0⟩ := by
    apply Vec3.ext <;> exact sub_zero _
  -- Less than half of each axis is enough to get there, so no axis is taken off.
  have hfound : c.minimumVector ⟨0, 0, 0⟩ ⟨1.35, 0.78, 0⟩ = ⟨1.35, 0.78, 0⟩ := by
    have hf := hproper.toReal_toFractional ⟨1.35, 0.78, 0⟩
    rw [minimumVector_eq hperiodic, hdiff]
    generalize c.toFractional ⟨1.35, 0.78, 0⟩ = f at hf ⊢
    have hx : 2 * f.x + f.y = 1.35 := congrArg Vec3.x ((hreal f).symm.trans hf)
    have hy : Real.sqrt 3 * f.y = 0.78 := congrArg Vec3.y ((hreal f).symm.trans hf)
    have hz : 2 * f.z = 0 := congrArg Vec3.z ((hreal f).symm.trans hf)
    have hlow : (1.7 : ℝ) < Real.sqrt 3 := Real.lt_sqrt_of_sq_lt (by norm_num)
    have hhigh : Real.sqrt 3 < (1.8 : ℝ) := (Real.sqrt_lt' (by norm_num)).2 (by norm_num)
    have hypos : 0 < f.y := by
      by_contra hneg
      nlinarith
    have hylow : 0.4 < f.y := by nlinarith
    have hyhigh : f.y < 0.5 := by nlinarith
    have hmap : f.map offset = f := by
      apply Vec3.ext
      · exact offset_of_abs_lt (abs_lt.2 ⟨by linarith, by linarith⟩)
      · exact offset_of_abs_lt (abs_lt.2 ⟨by linarith, by linarith⟩)
      · exact offset_of_abs_lt (abs_lt.2 ⟨by linarith, by linarith⟩)
    rw [hmap, hf]
  refine ⟨c, hc, ⟨-1, 0, 0, ?_⟩, ?_⟩
  · rw [hdiff, hreal]
    apply Vec3.ext
    · change (-0.65 : ℝ) = 1.35 + (2 * ((-1 : ℤ) : ℝ) + ((0 : ℤ) : ℝ))
      norm_num
    · change (0.78 : ℝ) = 0.78 + Real.sqrt 3 * ((0 : ℤ) : ℝ)
      norm_num
    · change (0 : ℝ) = 0 + 2 * ((0 : ℤ) : ℝ)
      norm_num
  · rw [minimumDistance, hfound, lt_iff_lt_of_le_iff_le (Vec3.magnitude_le_iff _ _)]
    change (-0.65 : ℝ) * -0.65 + 0.78 * 0.78 + 0 * 0 < 1.35 * 1.35 + 0.78 * 0.78 + 0 * 0
    norm_num

end Cell

end SiteAnalysis
