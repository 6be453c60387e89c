import SiteAnalysis.Keyword.Range
import SiteAnalysis.Proofs.Histogram.Counting
import SiteAnalysis.Proofs.Number.WordReal

set_option autoImplicit false

/-! # Bins of an axis

An axis over a range is cut into bins of the width that is asked for. Over exact numbers whose
indices are words:

* `Axis.ofRange_partitions`: the bins are the half-open intervals between the edges of the axis, and
  every value of the axis lies in one of them.
* `Axis.ofRange_endsWith_iff`: when an axis ends where its range does, but for less than a width.
  One whose bin is wider than the range reaches beyond it (`Axis.wide_bin_exceeds`).
-/

namespace SiteAnalysis

namespace Axis

/-! ## Regular axes -/

/-- **Measures of an axis**: the range is not empty, and the bins have a width. -/
def AreMeasures {α : Type} [Arith α] (minimum maximum width : α) : Prop :=
  Arith.lt 0.0 width = true ∧ Arith.lt minimum maximum = true

/-- The measures of an axis over doubles are those that a keyword takes. -/
theorem areMeasures_iff_isRange (minimum maximum width : Float) :
    AreMeasures minimum maximum width ↔ isRange minimum maximum width = true := by
  simp [AreMeasures, isRange, Arith.lt]

/-- **A regular axis**: it ends with the last of its bins. -/
structure IsRegular (a : Axis WordReal) : Prop where
  width_pos : 0 < a.width.value
  count_pos : 0 < a.count
  count_le : a.count ≤ maxIndex
  maximum_eq : a.maximum.value = a.minimum.value + a.count * a.width.value

/-- How far a value lies behind the beginning of an axis, in bins. -/
noncomputable def depth (a : Axis WordReal) (v : WordReal) : ℝ :=
  (v.value - a.minimum.value) / a.width.value

variable {a : Axis WordReal} {v : WordReal} {i : Nat}

theorem holds_iff : a.Holds v ↔ a.minimum.value ≤ v.value ∧ v.value < a.maximum.value := by
  simp [Holds, ← Bool.not_eq_true]

theorem binOf_eq_none_iff : a.binOf v = none ↔
    ¬ (a.minimum.value ≤ v.value ∧ v.value < a.maximum.value) := by
  rw [← holds_iff, ← exists_binOf_iff, Option.eq_none_iff_forall_ne_some, not_exists]

namespace IsRegular

variable (h : a.IsRegular)
include h

theorem le_depth_iff : (i : ℝ) ≤ a.depth v ↔ a.minimum.value + i * a.width.value ≤ v.value := by
  rw [depth, le_div_iff₀ h.width_pos, le_sub_iff_add_le, add_comm]

theorem depth_lt_iff : a.depth v < i ↔ v.value < a.minimum.value + i * a.width.value := by
  rw [depth, div_lt_iff₀ h.width_pos, sub_lt_iff_lt_add']

theorem depth_mono {w : WordReal} (hvw : v.value ≤ w.value) : a.depth v ≤ a.depth w := by
  unfold depth
  have hwidth := h.width_pos
  gcongr

/-- **The values on a regular axis** lie no deeper than it has bins. -/
theorem holds_iff_depth : a.Holds v ↔ 0 ≤ a.depth v ∧ a.depth v < a.count := by
  have hlow : (0 : ℝ) ≤ a.depth v ↔ a.minimum.value ≤ v.value := by
    simpa using h.le_depth_iff (i := 0)
  rw [holds_iff, hlow, h.depth_lt_iff, h.maximum_eq]

/-- **The bin of a value.** On the axis neither the largest index nor the last bin cuts it off. -/
theorem binOf_of_holds (hv : a.Holds v) : a.binOf v = some ⌊a.depth v⌋₊ := by
  obtain ⟨hlow, hhigh⟩ := h.holds_iff_depth.1 hv
  obtain ⟨hfinite, hmin, hmax⟩ := hv
  have hlt : ⌊a.depth v⌋₊ < a.count := (Nat.floor_lt hlow).2 hhigh
  have hle := h.count_le
  have hindex : Arith.toIndex ((v - a.minimum) / a.width) = ⌊a.depth v⌋₊ := by
    show min ⌊a.depth v⌋₊ maxIndex = _
    omega
  have hlast : min ⌊a.depth v⌋₊ (a.count - 1) = ⌊a.depth v⌋₊ := by omega
  rw [binOf, hfinite, hmin, hmax, hindex, hlast]
  rfl

/-- **Each bin is a half-open interval** between two edges of the axis. -/
theorem binOf_eq_some_iff : a.binOf v = some i ↔ i < a.count ∧
    a.minimum.value + i * a.width.value ≤ v.value ∧
      v.value < a.minimum.value + (i + 1) * a.width.value := by
  have hlow := h.le_depth_iff (v := v) (i := i)
  have hhigh := h.depth_lt_iff (v := v) (i := i + 1)
  push_cast at hhigh
  rw [← hlow, ← hhigh]
  constructor
  · intro hbin
    have hv : a.Holds v := exists_binOf_iff.1 ⟨i, hbin⟩
    rw [h.binOf_of_holds hv, Option.some.injEq] at hbin
    obtain ⟨hzero, hcount⟩ := h.holds_iff_depth.1 hv
    rw [← hbin]
    exact ⟨(Nat.floor_lt hzero).2 hcount, Nat.floor_le hzero, Nat.lt_floor_add_one _⟩
  · rintro ⟨hi, hle, hlt⟩
    have hzero : 0 ≤ a.depth v := (Nat.cast_nonneg i).trans hle
    have hcount : a.depth v < a.count := by
      have hedge : (i : ℝ) + 1 ≤ a.count := by exact_mod_cast hi
      exact hlt.trans_le hedge
    rw [h.binOf_of_holds (h.holds_iff_depth.2 ⟨hzero, hcount⟩), Option.some.injEq,
      Nat.floor_eq_iff hzero]
    exact ⟨hle, hlt⟩

theorem binOf_mono {w : WordReal} {j : Nat} (hvw : v.value ≤ w.value) (hv : a.binOf v = some i)
    (hw : a.binOf w = some j) : i ≤ j := by
  rw [h.binOf_of_holds (exists_binOf_iff.1 ⟨i, hv⟩), Option.some.injEq] at hv
  rw [h.binOf_of_holds (exists_binOf_iff.1 ⟨j, hw⟩), Option.some.injEq] at hw
  rw [← hv, ← hw]
  exact Nat.floor_mono (h.depth_mono hvw)

/-- The middle of a bin lies in that bin. -/
theorem binOf_centre (hi : i < a.count) : a.binOf (a.centre i) = some i := by
  have hhalf : (0.5 : ℝ) * a.width.value < 1 * a.width.value := by
    have hwidth := h.width_pos
    gcongr
    norm_num
  have hpos : 0 < (0.5 : ℝ) * a.width.value := mul_pos (by norm_num) h.width_pos
  have hvalue : (a.centre i).value =
      a.minimum.value + i * a.width.value + 0.5 * a.width.value := by
    rw [centre, WordReal.value_add, WordReal.value_mul, WordReal.value_add]
    show a.minimum.value + ((i : ℝ) + 0.5) * a.width.value = _
    ring
  rw [h.binOf_eq_some_iff, hvalue]
  refine ⟨hi, by linarith, ?_⟩
  linarith

end IsRegular

/-! ## The axis over a range -/

/-- **How many bins a range holds**, with the allowance for rounding: a range that misses a whole
number of bins by a thousand-millionth of a bin is taken for that number. -/
noncomputable def capacity (minimum maximum width : WordReal) : ℝ :=
  (maximum.value - minimum.value) / width.value + 1.0e-9

variable {minimum maximum width : WordReal}

theorem areMeasures_iff : AreMeasures minimum maximum width ↔
    0 < width.value ∧ minimum.value < maximum.value := by
  have hzero : (0.0 : ℝ) = 0 := by norm_num
  simp [AreMeasures, hzero]

namespace AreMeasures

variable (h : AreMeasures minimum maximum width)
include h

/-- **The bins of an axis** are as many as the range holds, but at least one and at most the largest
index. -/
theorem count_ofRange : (ofRange minimum maximum width).count =
    min (max ⌊capacity minimum maximum width⌋₊ 1) maxIndex := by
  obtain ⟨hwidth, hrange⟩ := areMeasures_iff.1 h
  have hzero : (0.0 : WordReal).value = 0 := by
    show (0.0 : ℝ) = 0
    norm_num
  have hone : (1.0 : ℝ) = ((1 : ℤ) : ℝ) := by norm_num
  have hproper : (Arith.lt 0.0 width && Arith.lt 0.0 (maximum - minimum)) = true := by
    simpa [hzero] using ⟨hwidth, hrange⟩
  show binCount minimum maximum width = _
  rw [binCount, if_pos hproper, WordReal.toIndex_eq, WordReal.value_max, WordReal.value_floor]
  show min ⌊max (⌊capacity minimum maximum width⌋ : ℝ) 1.0⌋₊ maxIndex = _
  rw [hone, ← Int.cast_max, ← Int.floor_toNat, ← Int.floor_toNat, Int.floor_intCast]
  congr 1
  omega

theorem isRegular_ofRange : (ofRange minimum maximum width).IsRegular := by
  refine ⟨(areMeasures_iff.1 h).1, ?_, ?_, rfl⟩
  all_goals
    rw [h.count_ofRange]
    have hpos : 0 < maxIndex := by decide
    omega

end AreMeasures

/-- **Bins partition the axis.** Over every range, the bin of a value is the one between whose edges
the value lies, and the values without a bin are those off the axis. A greater value has no smaller
bin, and the middle of each bin lies in that bin. -/
theorem ofRange_partitions (h : AreMeasures minimum maximum width) :
    (∀ v i, (ofRange minimum maximum width).binOf v = some i ↔
      i < (ofRange minimum maximum width).count ∧
        minimum.value + i * width.value ≤ v.value ∧
          v.value < minimum.value + (i + 1) * width.value) ∧
    (∀ v, (ofRange minimum maximum width).binOf v = none ↔
      ¬ (minimum.value ≤ v.value ∧ v.value < (ofRange minimum maximum width).maximum.value)) ∧
    (∀ v w i j, v.value ≤ w.value → (ofRange minimum maximum width).binOf v = some i →
      (ofRange minimum maximum width).binOf w = some j → i ≤ j) ∧
    (ofRange minimum maximum width).centres.map (ofRange minimum maximum width).binOf =
      (List.range (ofRange minimum maximum width).count).map some := by
  have hregular := h.isRegular_ofRange
  refine ⟨fun v i => hregular.binOf_eq_some_iff, fun v => ?_, fun v w i j hvw hv hw => ?_, ?_⟩
  · exact binOf_eq_none_iff
  · exact hregular.binOf_mono hvw hv hw
  · rw [centres, List.map_map]
    refine List.map_congr_left fun i hi => ?_
    exact hregular.binOf_centre (List.mem_range.1 hi)

theorem areMeasures_threeBins : AreMeasures (⟨0⟩ : WordReal) ⟨1⟩ ⟨0.3⟩ := by
  rw [areMeasures_iff]
  norm_num

theorem count_threeBins : (ofRange (⟨0⟩ : WordReal) ⟨1⟩ ⟨0.3⟩).count = 3 := by
  have hfloor : ⌊capacity ⟨0⟩ ⟨1⟩ ⟨0.3⟩⌋₊ = 3 := by
    rw [Nat.floor_eq_iff (by norm_num [capacity])]
    norm_num [capacity]
  rw [areMeasures_threeBins.count_ofRange, hfloor]
  decide

/-- **Three bins of the range of one**: the last one ends before the range does, and what is left of
the range has no bin. -/
theorem ofRange_partitions_threeBins : AreMeasures (⟨0⟩ : WordReal) ⟨1⟩ ⟨0.3⟩ ∧
    (ofRange (⟨0⟩ : WordReal) ⟨1⟩ ⟨0.3⟩).binOf ⟨0.6⟩ = some 2 ∧
      (ofRange (⟨0⟩ : WordReal) ⟨1⟩ ⟨0.3⟩).binOf ⟨0.9⟩ = none := by
  obtain ⟨hbin, hnone, -, -⟩ := ofRange_partitions areMeasures_threeBins
  refine ⟨areMeasures_threeBins, (hbin _ _).2 ?_, (hnone _).2 ?_⟩
  · rw [count_threeBins]
    norm_num
  · have hend : (ofRange (⟨0⟩ : WordReal) ⟨1⟩ ⟨0.3⟩).maximum.value = 0 + 3 * 0.3 := by
      rw [areMeasures_threeBins.isRegular_ofRange.maximum_eq, count_threeBins]
      norm_num [ofRange]
    rw [hend]
    norm_num

/-! ## The end of an axis -/

/-- **An axis ends with a range**: less than a bin before its end, and behind it by the allowance
for rounding at most. Nothing farther behind has a bin. -/
structure EndsWith (a : Axis WordReal) (maximum : WordReal) : Prop where
  le : a.maximum.value ≤ maximum.value + 1.0e-9 * a.width.value
  lt : maximum.value - a.width.value < a.maximum.value
  binOf_eq_none : ∀ v : WordReal, maximum.value + 1.0e-9 * a.width.value ≤ v.value →
    a.binOf v = none

namespace AreMeasures

variable (h : AreMeasures minimum maximum width)
include h

/-- A range holds all bins of its axis unless it holds none. -/
theorem count_le_capacity_iff : ((ofRange minimum maximum width).count : ℝ) ≤
    capacity minimum maximum width ↔ 1 ≤ capacity minimum maximum width := by
  have hcount := h.count_ofRange
  constructor
  · intro hle
    have hpos : (1 : ℝ) ≤ (ofRange minimum maximum width).count := by
      exact_mod_cast h.isRegular_ofRange.count_pos
    exact hpos.trans hle
  · intro hone
    have hfloor : 1 ≤ ⌊capacity minimum maximum width⌋₊ := Nat.one_le_floor_iff _ |>.2 hone
    have hle : (ofRange minimum maximum width).count ≤ ⌊capacity minimum maximum width⌋₊ := by
      omega
    calc ((ofRange minimum maximum width).count : ℝ)
        ≤ ⌊capacity minimum maximum width⌋₊ := by exact_mod_cast hle
      _ ≤ capacity minimum maximum width := Nat.floor_le (zero_le_one.trans hone)

/-- A range holds no bin more than its axis has unless there are too few words. -/
theorem capacity_lt_count_iff : capacity minimum maximum width <
    (ofRange minimum maximum width).count + 1 + 1.0e-9 ↔
      capacity minimum maximum width < 2 ^ 64 + 1.0e-9 := by
  have hcount := h.count_ofRange
  have hmax : (maxIndex : ℝ) + 1 = 2 ^ 64 := by norm_num [maxIndex]
  have hallowance : (0 : ℝ) < 1.0e-9 := by norm_num
  constructor
  · intro hlt
    have hle : ((ofRange minimum maximum width).count : ℝ) ≤ maxIndex := by
      exact_mod_cast h.isRegular_ofRange.count_le
    linarith
  · intro hlt
    by_cases hfew : max ⌊capacity minimum maximum width⌋₊ 1 ≤ maxIndex
    · have hle : ⌊capacity minimum maximum width⌋₊ ≤ (ofRange minimum maximum width).count := by
        omega
      calc capacity minimum maximum width < ⌊capacity minimum maximum width⌋₊ + 1 :=
            Nat.lt_floor_add_one _
        _ ≤ (ofRange minimum maximum width).count + 1 := by gcongr
        _ < (ofRange minimum maximum width).count + 1 + 1.0e-9 := by linarith
    · have hall : (ofRange minimum maximum width).count = maxIndex := by omega
      rw [hall, hmax]
      exact hlt

end AreMeasures

/-- **When an axis ends with its range**: the bins are no wider than the range, but for the
allowance, and the range is less wide than all words together. -/
theorem ofRange_endsWith_iff (h : AreMeasures minimum maximum width) :
    (ofRange minimum maximum width).EndsWith maximum ↔
      width.value ≤ maximum.value - minimum.value + 1.0e-9 * width.value ∧
        maximum.value - minimum.value < 2 ^ 64 * width.value := by
  have hwidth := (areMeasures_iff.1 h).1
  have hend : (ofRange minimum maximum width).maximum.value =
      minimum.value + (ofRange minimum maximum width).count * width.value := rfl
  -- Both conditions are comparisons of the number of bins with what the range holds.
  have hspan : maximum.value - minimum.value =
      (capacity minimum maximum width - 1.0e-9) * width.value := by
    rw [capacity, add_sub_cancel_right, div_mul_cancel₀ _ hwidth.ne']
  have hle : (ofRange minimum maximum width).maximum.value ≤
      maximum.value + 1.0e-9 * width.value ↔
        ((ofRange minimum maximum width).count : ℝ) ≤ capacity minimum maximum width := by
    refine Iff.trans ?_ (mul_le_mul_iff_left₀ hwidth)
    rw [hend]
    constructor <;> intro <;> linarith
  have hlt : maximum.value - width.value < (ofRange minimum maximum width).maximum.value ↔
      capacity minimum maximum width < (ofRange minimum maximum width).count + 1 + 1.0e-9 := by
    refine Iff.trans ?_ (mul_lt_mul_iff_left₀ hwidth)
    rw [hend]
    constructor <;> intro <;> linarith
  have hwide : width.value ≤ maximum.value - minimum.value + 1.0e-9 * width.value ↔
      1 ≤ capacity minimum maximum width := by
    refine Iff.trans ?_ (mul_le_mul_iff_left₀ hwidth)
    constructor <;> intro <;> linarith
  have hwords : maximum.value - minimum.value < 2 ^ 64 * width.value ↔
      capacity minimum maximum width < 2 ^ 64 + 1.0e-9 := by
    refine Iff.trans ?_ (mul_lt_mul_iff_left₀ hwidth)
    constructor <;> intro <;> linarith
  rw [hwide, hwords, ← h.count_le_capacity_iff, ← h.capacity_lt_count_iff, ← hle, ← hlt]
  constructor
  · intro hends
    exact ⟨hends.le, hends.lt⟩
  · rintro ⟨hhigh, hlow⟩
    refine ⟨hhigh, hlow, fun v hv => ?_⟩
    rw [binOf_eq_none_iff]
    rintro ⟨-, hv'⟩
    exact absurd (hv'.trans_le hhigh) (not_lt.2 hv)

/-- Bins that do not fill the range, but for less than a bin. -/
theorem ofRange_endsWith_threeBins : AreMeasures (⟨0⟩ : WordReal) ⟨1⟩ ⟨0.3⟩ ∧
    (ofRange (⟨0⟩ : WordReal) ⟨1⟩ ⟨0.3⟩).EndsWith ⟨1⟩ := by
  refine ⟨areMeasures_threeBins, (ofRange_endsWith_iff areMeasures_threeBins).2 ?_⟩
  norm_num

/-- **A bin that is wider than the range**: the axis ends with the bin, and counts values that lie
behind the range. So do doubles. -/
theorem wide_bin_exceeds : AreMeasures (⟨0⟩ : WordReal) ⟨1⟩ ⟨2⟩ ∧
    ¬ (ofRange (⟨0⟩ : WordReal) ⟨1⟩ ⟨2⟩).EndsWith ⟨1⟩ ∧
      (ofRange (⟨0⟩ : WordReal) ⟨1⟩ ⟨2⟩).binOf ⟨1.5⟩ = some 0 ∧
        (ofRange (0.0 : Float) 1.0 2.0).binOf 1.5 = some 0 := by
  have hmeasures : AreMeasures (⟨0⟩ : WordReal) ⟨1⟩ ⟨2⟩ := by
    rw [areMeasures_iff]
    norm_num
  have hfloor : ⌊capacity ⟨0⟩ ⟨1⟩ ⟨2⟩⌋₊ = 0 := by
    rw [Nat.floor_eq_zero]
    norm_num [capacity]
  have hcount : (ofRange (⟨0⟩ : WordReal) ⟨1⟩ ⟨2⟩).count = 1 := by
    rw [hmeasures.count_ofRange, hfloor]
    decide
  refine ⟨hmeasures, fun hends => ?_, ?_, by decide +kernel⟩
  · have hle := hends.le
    rw [hmeasures.isRegular_ofRange.maximum_eq, hcount] at hle
    norm_num [ofRange] at hle
  · rw [hmeasures.isRegular_ofRange.binOf_eq_some_iff, hcount]
    norm_num [ofRange]

end Axis

end SiteAnalysis
