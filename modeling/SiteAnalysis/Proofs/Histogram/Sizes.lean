import SiteAnalysis.Proofs.Histogram.Bins
import SiteAnalysis.Proofs.Histogram.Counting
import SiteAnalysis.Proofs.Number.Difference
import SiteAnalysis.Proofs.Number.Whole
import SiteAnalysis.Run.Collection

set_option autoImplicit false

/-! # Sizes of histograms

A range is taken if it is not empty and its bins have a width, however many there are. Main
statements:

* `RangeSpec.count_axis`: the axis over a range has as many bins as the range holds, unless their
  number is no word.
* `Node.isRepresentable_iff`: when the histogram of a node has all its bins and their places. There
  are ranges over which it has not (`Node.not_isRepresentable_reading`).
-/

namespace SiteAnalysis

open Binary64 (wholePart)

/-! ## Bins of a range -/

namespace RangeSpec

/-- How many bins wide a range is, with the allowance for rounding. -/
def extent (r : RangeSpec) : Float := (r.maximum - r.minimum) / r.width + 1.0e-9

/-- **The bins of a range**: as many as are whole, but at least one. Their number is not bounded. -/
noncomputable def bins (r : RangeSpec) : ℕ∞ := max (wholePart r.extent) 1

/-- The axis over a range. -/
def axis (r : RangeSpec) : Axis Float := .ofRange r.minimum r.maximum r.width

theorem one_le_bins (r : RangeSpec) : 1 ≤ r.bins := le_max_right _ _

/-- **The bins of an axis** are those of its range, or as many as the largest word counts. -/
theorem count_axis (r : RangeSpec) : (r.axis.count : ℕ∞) = min r.bins maxIndex := by
  obtain ⟨hwidth, hrange⟩ := (Axis.areMeasures_iff_isRange _ _ _).2 r.proper
  have hproper : (Arith.lt 0.0 r.width && Arith.lt 0.0 (r.maximum - r.minimum)) = true := by
    rw [hwidth, zero_lt_sub hrange]
    rfl
  show ((Axis.binCount r.minimum r.maximum r.width : ℕ) : ℕ∞) = _
  rw [Axis.binCount, if_pos hproper, Binary64.toIndex_eq_wholePart, Binary64.wholePart_max_one]
  show min (max (wholePart (Binary64.floor r.extent)) 1) _ = _
  rw [Binary64.wholePart_floor]
  rfl

/-- **The cells over some ranges**: there is one for each choice of bins. -/
noncomputable def cells (rs : List RangeSpec) : ℕ∞ := (rs.map bins).prod

theorem one_le_cells (rs : List RangeSpec) : 1 ≤ cells rs := by
  induction rs with
  | nil => exact le_rfl
  | cons r rs ih =>
      rw [cells, List.map_cons, List.prod_cons]
      exact one_le_mul r.one_le_bins ih

theorem bins_le_cells {rs : List RangeSpec} {r : RangeSpec} (h : r ∈ rs) : r.bins ≤ cells rs := by
  induction rs with
  | nil => cases h
  | cons s rs ih =>
      rw [cells, List.map_cons, List.prod_cons]
      rcases List.mem_cons.1 h with rfl | h
      · exact le_mul_of_one_le_right' (one_le_cells rs)
      · exact (ih h).trans (le_mul_of_one_le_left' s.one_le_bins)

/-- The size of a histogram whose axes have all their bins. -/
theorem sizeOf_eq_cells {rs : List RangeSpec}
    (hcounts : ∀ r ∈ rs, (r.axis.count : ℕ∞) = r.bins) :
    (Histogram.sizeOf (rs.map axis) : ℕ∞) = cells rs := by
  rw [Histogram.sizeOf_eq_prod, List.map_map, cells]
  induction rs with
  | nil => rfl
  | cons r rs ih =>
      rw [List.map_cons, List.prod_cons, List.map_cons, List.prod_cons, Nat.cast_mul,
        ih fun s hs => hcounts s (List.mem_cons_of_mem _ hs)]
      rw [← hcounts r List.mem_cons_self]
      rfl

end RangeSpec

/-! ## Histograms of nodes -/

namespace Node

/-- The ranges that a node counts over. -/
def ranges (n : Node) (d : Dimension) : List RangeSpec :=
  d.axisNames.map fun a => (n.keywords.range? ("Range" ++ a)).getD .standard

theorem histogramAxes_eq (n : Node) (d : Dimension) :
    n.histogramAxes d = (n.ranges d).map RangeSpec.axis := by
  rw [ranges, List.map_map]
  rfl

/-- **A histogram of a node is representable**: each axis has all bins of its range, their product
is a word, and so the places of values are below the size that is made of it modulo words. -/
structure IsRepresentable (n : Node) (d : Dimension) : Prop where
  count : ∀ r ∈ n.ranges d, (r.axis.count : ℕ∞) = r.bins
  size : Histogram.sizeOf (n.histogramAxes d) ≤ maxIndex
  place_lt : ∀ values f, Histogram.place (n.histogramAxes d) values = some f →
    f < Histogram.sizeOf (n.histogramAxes d) % (maxIndex + 1)

/-- **Histograms are representable** exactly if all cells over their ranges can be counted. -/
theorem isRepresentable_iff (n : Node) (d : Dimension) :
    n.IsRepresentable d ↔ RangeSpec.cells (n.ranges d) ≤ maxIndex := by
  constructor
  · intro h
    rw [← RangeSpec.sizeOf_eq_cells h.count, ← histogramAxes_eq]
    exact Nat.cast_le.2 h.size
  · intro h
    have hcount : ∀ r ∈ n.ranges d, (r.axis.count : ℕ∞) = r.bins := by
      intro r hr
      rw [r.count_axis, min_eq_left ((RangeSpec.bins_le_cells hr).trans h)]
    have hsize : Histogram.sizeOf (n.histogramAxes d) ≤ maxIndex := by
      rw [← RangeSpec.sizeOf_eq_cells hcount, ← histogramAxes_eq] at h
      exact Nat.cast_le.1 h
    refine ⟨hcount, hsize, fun values f hf => ?_⟩
    rw [Nat.mod_eq_of_lt (by omega)]
    refine Histogram.place_lt (fun a ha => ?_) hf
    rw [histogramAxes_eq] at ha
    obtain ⟨r, -, rfl⟩ := List.mem_map.1 ha
    exact Axis.count_ofRange_pos _ _ _

/-- A new node of a type that has read some lines. -/
def reading (t : NodeType) (lines : List (String × List String)) : Node :=
  let fresh := Node.ofType ⟨0⟩ t
  { fresh with
    keywords := lines.foldl (fun s (keyword, values) => (s.read keyword values .empty).2)
      fresh.keywords }

/-- **Ranges that are taken** and whose cells cannot be counted. The axis of the first node lacks
bins. Those of the second one have all of theirs, but there are more cells than words. -/
theorem not_isRepresentable_reading :
    let one := reading (.collect .one) [("RangeX", ["0", "1e20", "1"])]
    let two := reading (.collect .two)
      [("RangeX", ["0", "1e10", "1"]), ("RangeY", ["0", "1e10", "1"])]
    one.keywords.setKeywords.map Keyword.name = ["RangeX"] ∧
      (one.ranges .one).map RangeSpec.bins = [(10 ^ 20 : ℕ)] ∧
      (one.histogramAxes .one).map Axis.count = [maxIndex] ∧ ¬ one.IsRepresentable .one ∧
      two.keywords.setKeywords.map Keyword.name = ["RangeX", "RangeY"] ∧
      (two.histogramAxes .two).map Axis.count = [10 ^ 10, 10 ^ 10] ∧
      ¬ two.IsRepresentable .two := by
  intro one two
  have hbins : ∀ rs : List RangeSpec, rs.map RangeSpec.bins =
      (rs.map fun r => wholePart r.extent).map (max · 1) := by
    intro rs
    rw [List.map_map]
    rfl
  have hwhole : (one.ranges .one).map (fun r => wholePart r.extent) = [((10 ^ 20 : ℕ) : ℕ∞)] := by
    decide +kernel
  have hone : (one.ranges .one).map RangeSpec.bins = [((10 ^ 20 : ℕ) : ℕ∞)] := by
    have hmax : max ((10 ^ 20 : ℕ) : ℕ∞) 1 = (10 ^ 20 : ℕ) := max_eq_left (by norm_num)
    rw [hbins, hwhole, List.map_singleton, hmax]
  have hcounts : (two.histogramAxes .two).map Axis.count = [10 ^ 10, 10 ^ 10] := by decide +kernel
  refine ⟨by decide +kernel, hone, by decide +kernel, fun h => ?_, by decide +kernel, hcounts,
    fun h => ?_⟩
  · have hle := (isRepresentable_iff one .one).1 h
    rw [RangeSpec.cells, hone, List.prod_singleton, Nat.cast_le] at hle
    exact absurd hle (by decide)
  · have hle := h.size
    rw [Histogram.sizeOf_eq_prod, hcounts] at hle
    exact absurd hle (by decide)

end Node

end SiteAnalysis
