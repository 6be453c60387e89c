import SiteAnalysis.Proofs.Histogram.Counting
import SiteAnalysis.Proofs.Number.Exact

set_option autoImplicit false

/-! # Averages over passes

A collection goes pass by pass: a pass begins over some axes, counts tuples of values, and ends with
its counts folded into the average (`Pass.run`). Over exact numbers and for one worker:

* `Averages.accumulate`: the end of a pass makes the mean of some passes the mean of one pass more.
* `Pass.exists_runAll`: after any passes the average is the mean of those since the axes last
  changed.
-/

namespace SiteAnalysis

/-! ## Axes of exact numbers -/

theorem Axis.same_iff {a b : Axis ℝ} : a.same b = true ↔ a = b := by
  obtain ⟨minimum, maximum, width, count⟩ := a
  obtain ⟨minimum', maximum', width', count'⟩ := b
  simp [same, Arith.same, and_assoc]

namespace Histogram

theorem hasAxes_iff {h : Histogram ℝ} {axes : List (Axis ℝ)} :
    h.hasAxes axes = true ↔ h.axes = axes := by
  have hall : ∀ l m : List (Axis ℝ),
      (l.length == m.length && (List.zipWith Axis.same l m).all id) = true ↔ l = m := by
    intro l
    induction l with
    | nil =>
        intro m
        cases m <;> simp
    | cons a l ih =>
        intro m
        cases m with
        | nil => simp
        | cons b m =>
            have hrest := ih m
            simp only [Bool.and_eq_true, beq_iff_eq] at hrest
            simp [Axis.same_iff, ← hrest, and_left_comm]
  exact hall h.axes axes

/-! ## The beginning of a pass -/

section

/-- Beginning a pass keeps the number of dimensions. -/
theorem length_axes_beginPass {α : Type} [Arith α] (h : Histogram α) (axes : List (Axis α)) :
    (h.beginPass axes).axes.length = axes.length := by
  unfold beginPass
  split
  next hsame =>
    rw [hasAxes, Bool.and_eq_true, beq_iff_eq] at hsame
    exact hsame.1
  next => rfl

variable {h : Histogram ℝ} {axes : List (Axis ℝ)}

/-- **A pass over the same axes** goes on with the average. -/
theorem beginPass_same (h : Histogram ℝ) : h.beginPass h.axes = h.zeroBins :=
  if_pos (hasAxes_iff.2 rfl)

/-- **A pass over other axes** begins anew. -/
theorem beginPass_other (hother : h.axes ≠ axes) : h.beginPass axes = ofAxes axes :=
  if_neg (mt hasAxes_iff.1 hother)

@[simp] theorem axes_beginPass : (h.beginPass axes).axes = axes := by
  by_cases haxes : h.axes = axes
  · subst haxes
    rw [beginPass_same]
    rfl
  · rw [beginPass_other haxes]
    rfl

/-- A pass begins with nothing counted. -/
theorem Fits.bins_beginPass (hfits : h.Fits) :
    (h.beginPass axes).bins = .replicate (sizeOf axes) 0 := by
  by_cases haxes : h.axes = axes
  · subst haxes
    rw [beginPass_same, Histogram.zeroBins, hfits.bins]
  · rw [beginPass_other haxes]
    rfl

end

/-! ## Counts of a pass -/

section

variable {α : Type} [Arith α]

/-- **A pass of a collection**: the axes it begins over and the tuples of values it counts. -/
structure Pass (α : Type) where
  axes : List (Axis α)
  tuples : List (List α)

namespace Pass

/-- **The count of a cell**: how many tuples of the pass belong to it. -/
def cell (p : Pass α) (i : Nat) : Nat := p.tuples.countP fun t => place p.axes t == some i

/-- The histogram with the tuples of a pass counted, when earlier passes left `stored`. -/
def counted (p : Pass α) (stored : Option (Histogram α)) : Histogram α :=
  ((stored.getD (.ofAxes p.axes)).beginPass p.axes).performAll (p.tuples.map .bin)

/-- **A pass from its beginning to its end.** -/
def run (p : Pass α) (pool : Pool α) (stored : Option (Histogram α)) :
    Except Error (Histogram α) :=
  (p.counted stored).endPass pool

/-- **Passes one after the other**, the first of which finds nothing stored. -/
def runAll (passes : List (Pass α)) (pool : Pool α) : Except Error (Option (Histogram α)) :=
  passes.foldlM (fun stored p => (p.run pool stored).map some) none

end Pass

variable (h : Histogram α)

/-- Counting leaves the average alone. -/
theorem average_performAll (tuples : List (List α)) :
    (h.performAll (tuples.map .bin)).accumulated = h.accumulated ∧
      (h.performAll (tuples.map .bin)).passes = h.passes := by
  induction tuples generalizing h with
  | nil => exact ⟨rfl, rfl⟩
  | cons t tuples ih =>
      obtain ⟨haverage, hpasses⟩ := ih (h.bin t).2
      have hbin : (h.bin t).2.accumulated = h.accumulated ∧ (h.bin t).2.passes = h.passes := by
        unfold bin
        split <;> exact ⟨rfl, rfl⟩
      exact ⟨haverage.trans hbin.1, hpasses.trans hbin.2⟩

theorem getElem?_bins_bin (t : List α) (i : Nat) : (h.bin t).2.bins[i]? =
    h.bins[i]?.map fun n => if place h.axes t = some i then n + 1 else n := by
  unfold bin
  split
  next f hf =>
    rw [Array.getElem?_modify, hf]
    by_cases hi : f = i
    · simp [hi]
    · simp [hi]
  next hoff => simp [hoff]

/-- **The cells after some tuples** hold so many more counts as there are tuples of theirs. -/
theorem getElem?_bins_performAll (tuples : List (List α)) (i : Nat) :
    (h.performAll (tuples.map .bin)).bins[i]? =
      h.bins[i]?.map (· + (⟨h.axes, tuples⟩ : Pass α).cell i) := by
  induction tuples generalizing h with
  | nil => simp [performAll, Pass.cell]
  | cons t tuples ih =>
      show ((h.bin t).2.performAll (tuples.map .bin)).bins[i]? = _
      rw [ih, axes_bin, getElem?_bins_bin, Option.map_map]
      congr 1
      funext n
      simp only [Pass.cell, List.countP_cons, Function.comp_apply, beq_iff_eq]
      split <;> omega

end

/-! ## The end of a pass -/

/-- One worker alone ends every pass. -/
theorem exists_endPass_serial {α : Type} [Arith α] (h : Histogram α) :
    ∃ h', h.endPass .serial = .ok h' := ⟨_, rfl⟩

section

variable {h : Histogram ℝ}

/-- The sum over one worker, rounded to counts, is the counts. -/
theorem sumOver_serial (h : Histogram ℝ) : h.sumOver .serial = .ok h := by
  have hcount : ∀ n : Nat,
      Arith.toIndex (Arith.max (Arith.round (Arith.ofNat n : ℝ)) 0.0) = n := by
    intro n
    have hzero : (0.0 : ℝ) ≤ n := by
      norm_num
    have hround : Arith.round (Arith.ofNat n : ℝ) = n := by
      show ((Exact.nearest (n : ℝ) : ℤ) : ℝ) = n
      rw [Exact.nearest_natCast, Int.cast_natCast]
    rw [hround, Exact.max_eq, max_eq_left hzero]
    exact Nat.floor_natCast n
  show Except.ok { h with bins := List.toArray (List.map _ (h.bins.toList.map Arith.ofNat)) } = _
  rw [List.map_map]
  simp only [Function.comp_def, hcount, List.map_id', Array.toArray_toList]

/-- **A histogram averages some passes**: an average times the number of the passes is the sum of
their counts in the cell. -/
structure Averages (h : Histogram ℝ) (passes : List (Pass ℝ)) : Prop where
  fits : h.Fits
  length : h.passes = passes.length
  mean : ∀ (i : Nat) (x : ℝ), h.accumulated[i]? = some x →
    x * h.passes = (passes.map fun p => (p.cell i : ℝ)).sum

theorem averages_ofAxes (axes : List (Axis ℝ)) : (ofAxes axes).Averages [] := by
  refine ⟨fits_ofAxes axes, rfl, fun i x hx => ?_⟩
  obtain ⟨-, rfl⟩ : i < sizeOf axes ∧ (0.0 : ℝ) = x := by
    simpa [ofAxes, Array.getElem?_replicate] using hx
  norm_num

variable {passes : List (Pass ℝ)}

theorem Averages.zeroBins (ha : h.Averages passes) : h.zeroBins.Averages passes :=
  ⟨ha.fits.zeroBins, ha.length, ha.mean⟩

theorem Averages.performAll (ha : h.Averages passes) (tuples : List (List ℝ)) :
    (h.performAll (tuples.map .bin)).Averages passes := by
  obtain ⟨haccumulated, hpasses⟩ := average_performAll h tuples
  refine ⟨ha.fits.performAll _, hpasses.trans ha.length, fun i x hx => ?_⟩
  rw [haccumulated] at hx
  rw [hpasses]
  exact ha.mean i x hx

/-- **The end of a pass** makes the mean of some passes the mean of one pass more. -/
theorem Averages.accumulate {p : Pass ℝ} (ha : h.Averages passes)
    (hbins : ∀ i n, h.bins[i]? = some n → n = p.cell i) :
    h.accumulate.Averages (passes ++ [p]) := by
  refine ⟨ha.fits.accumulate, ?_, fun i x hx => ?_⟩
  · simp [Histogram.accumulate, ha.length]
  · obtain ⟨before, n, hbefore, hn, rfl⟩ : ∃ before n, h.accumulated[i]? = some before ∧
        h.bins[i]? = some n ∧ average h.passes before n = x := by
      simp only [Histogram.accumulate, Array.getElem?_zipWith] at hx
      split at hx
      next before n hbefore hn => exact ⟨before, n, hbefore, hn, Option.some.inj hx⟩
      next => cases hx
    -- The average of a cell times the number of passes is what they counted in it.
    have hmean := ha.mean i before hbefore
    have hne : (h.passes : ℝ) + 1 ≠ 0 := by positivity
    have haverage : average h.passes before n = (before * h.passes + n) / (h.passes + 1) := by
      have hone : (1.0 : ℝ) = 1 := by norm_num
      show (before * (h.passes : ℝ) + n) / ((h.passes : ℝ) + 1.0) = _
      rw [hone]
    calc average h.passes before n * (h.passes + 1 : Nat)
        = before * h.passes + n := by
          rw [haverage]
          push_cast
          field_simp
      _ = ((passes ++ [p]).map fun q => (q.cell i : ℝ)).sum := by
          rw [hmean, hbins i n hn]
          simp

theorem Averages.beginPass {axes : List (Axis ℝ)} (ha : h.Averages passes) (haxes : h.axes = axes) :
    (h.beginPass axes).Averages passes := by
  subst haxes
  rw [beginPass_same]
  exact ha.zeroBins

theorem averages_beginPass {axes : List (Axis ℝ)} (hother : h.axes ≠ axes) :
    (h.beginPass axes).Averages [] := by
  rw [beginPass_other hother]
  exact averages_ofAxes axes

/-! ## Passes -/

namespace Pass

/-- **A pass** adds itself to the passes whose mean it begins with. -/
theorem exists_run (p : Pass ℝ) (stored : Option (Histogram ℝ))
    (hfits : (stored.getD (ofAxes p.axes)).Fits)
    (hbegin : ((stored.getD (ofAxes p.axes)).beginPass p.axes).Averages passes) :
    ∃ h, p.run .serial stored = .ok h ∧ h.axes = p.axes ∧ h.Averages (passes ++ [p]) ∧
      ∀ i < sizeOf p.axes, h.bins[i]? = some (p.cell i) := by
  have haxes : (p.counted stored).axes = p.axes := by simp [counted]
  have hcells : ∀ i : Nat, (p.counted stored).bins[i]? =
      if i < sizeOf p.axes then some (p.cell i) else none := by
    intro i
    rw [counted, getElem?_bins_performAll, axes_beginPass, hfits.bins_beginPass,
      Array.getElem?_replicate]
    split <;> simp
  refine ⟨(p.counted stored).accumulate, ?_, haxes, ?_, fun i hi => ?_⟩
  · rw [run, endPass, sumOver_serial]
    rfl
  · refine (hbegin.performAll p.tuples).accumulate fun i n hn => ?_
    have hn' := (hcells i).symm.trans hn
    split at hn'
    · exact (Option.some.inj hn').symm
    · cases hn'
  · exact (hcells i).trans (if_pos hi)

open Classical in
/-- **The passes since the axes last changed**, the last of which is `p`. -/
noncomputable def sinceChange (passes : List (Pass ℝ)) (p : Pass ℝ) : List (Pass ℝ) :=
  passes.rtakeWhile (fun q => q.axes = p.axes) ++ [p]

theorem runAll_concat (passes : List (Pass ℝ)) (p : Pass ℝ) :
    runAll (passes ++ [p]) .serial =
      (runAll passes .serial).bind fun stored => (p.run .serial stored).map some := by
  rw [runAll, List.foldlM_append]
  simp only [List.foldlM_cons, List.foldlM_nil, bind_pure]
  rfl

/-- **Passes leave the mean of those since the axes last changed.** -/
theorem exists_runAll (passes : List (Pass ℝ)) (p : Pass ℝ) :
    ∃ h, runAll (passes ++ [p]) .serial = .ok (some h) ∧ h.axes = p.axes ∧
      h.Averages (sinceChange passes p) ∧ ∀ i < sizeOf p.axes, h.bins[i]? = some (p.cell i) := by
  -- From the back, since the last pass is run on what those before it left.
  induction passes using List.reverseRecOn generalizing p with
  | nil =>
      obtain ⟨h, hrun, hrest⟩ := exists_run p none (fits_ofAxes p.axes)
        ((averages_ofAxes p.axes).beginPass rfl)
      refine ⟨h, ?_, hrest⟩
      rw [runAll_concat]
      show (p.run .serial none).map some = _
      rw [hrun]
      rfl
  | append_singleton passes q ih =>
      obtain ⟨before, hbefore, haxes, haverages, -⟩ := ih q
      have hstep : runAll (passes ++ [q] ++ [p]) .serial =
          (p.run .serial (some before)).map some := by
        rw [runAll_concat, hbefore]
        rfl
      by_cases hsame : q.axes = p.axes
      · obtain ⟨h, hrun, hrest⟩ := exists_run p (some before) haverages.fits
          (haverages.beginPass (haxes.trans hsame))
        have hpasses : sinceChange (passes ++ [q]) p = sinceChange passes q ++ [p] := by
          rw [sinceChange, List.rtakeWhile_concat_pos _ _ _ (by simpa using hsame), sinceChange,
            hsame]
        refine ⟨h, ?_, ?_⟩
        · rw [hstep, hrun]
          rfl
        · rw [hpasses]
          exact hrest
      · obtain ⟨h, hrun, hrest⟩ := exists_run p (some before) haverages.fits
          (averages_beginPass fun heq => hsame (haxes.symm.trans heq))
        have hpasses : sinceChange (passes ++ [q]) p = [p] := by
          rw [sinceChange, List.rtakeWhile_concat_neg _ _ _ (by simpa using hsame), List.nil_append]
        refine ⟨h, ?_, ?_⟩
        · rw [hstep, hrun]
          rfl
        · rw [hpasses]
          exact hrest

end Pass

end

end Histogram

end SiteAnalysis
