import SiteAnalysis.Axis
import SiteAnalysis.Grid
import SiteAnalysis.Pool

/-! # Histograms

Values are counted in bins, pass by pass.  `accumulate` folds the counts of a pass into an average
over all passes.
-/

namespace SiteAnalysis

/-- **A histogram** over any number of axes. -/
structure Histogram (α : Type) where
  axes : List (Axis α)
  /-- Counts of the current pass, the last axis running fastest. -/
  bins : Array Nat
  /-- Values counted in the current pass. -/
  binned : Nat
  /-- Values of the current pass that were off an axis. -/
  missed : Nat
  /-- Average counts over the passes so far. -/
  accumulated : Array α
  /-- Number of passes in the average. -/
  passes : Nat

/-- The place of a tuple of indices, each below its length, the last one running fastest. -/
def joinIndex (pairs : List (Nat × Nat)) : Nat := pairs.foldl (fun flat (n, i) => flat * n + i) 0

namespace Histogram

variable {α : Type} [Arith α]

/-- The number of bins over some axes. -/
def sizeOf (axes : List (Axis α)) : Nat := axes.foldl (fun n axis => n * axis.count) 1

/-- A histogram that has counted nothing. -/
def ofAxes (axes : List (Axis α)) : Histogram α :=
  { axes
    bins := .replicate (sizeOf axes) 0
    binned := 0
    missed := 0
    accumulated := .replicate (sizeOf axes) 0.0
    passes := 0 }

/-- Whether a histogram lies over the given axes. -/
def hasAxes (h : Histogram α) (axes : List (Axis α)) : Bool :=
  h.axes.length == axes.length && (List.zipWith Axis.same h.axes axes).all id

/-- The bin of every value on its axis, with the number of bins there; none when one of the values
is off its axis. -/
def digits? : List (Axis α) → List α → Option (List (Nat × Nat))
  | axis :: axes, v :: vs => do
    let i ← axis.binOf v
    let rest ← digits? axes vs
    return (axis.count, i) :: rest
  | _, _ => some []

/-- The bin of a tuple of values; none when one of them is off its axis. -/
def place (axes : List (Axis α)) (values : List α) : Option Nat :=
  (digits? axes values).map joinIndex

/-- **Counts a tuple of values.**  The answer says whether it lies on the axes. -/
def bin (h : Histogram α) (values : List α) : Bool × Histogram α :=
  match place h.axes values with
  | some flat => (true, { h with bins := h.bins.modify flat (· + 1), binned := h.binned + 1 })
  | none => (false, { h with missed := h.missed + 1 })

/-- **Begins a new pass**; the average stays. -/
def zeroBins (h : Histogram α) : Histogram α :=
  { h with bins := .replicate h.bins.size 0, binned := 0, missed := 0 }

/-- **Begins a new pass over some axes.**  A histogram over other axes is given up for one that has
counted nothing. -/
def beginPass (h : Histogram α) (axes : List (Axis α)) : Histogram α :=
  if h.hasAxes axes then h.zeroBins else ofAxes axes

/-- Sums the counts of the current pass over all workers. -/
def sumOver (h : Histogram α) (pool : Pool α) : Except Error (Histogram α) := do
  let summed ← pool.sum (h.bins.toList.map Arith.ofNat)
  let counts := summed.map fun x => Arith.toIndex (Arith.max (Arith.round x) 0.0)
  return { h with bins := counts.toArray }

/-- The average of counts over one pass more. -/
def average (passes : Nat) (before : α) (count : Nat) : α :=
  let n : α := Arith.ofNat passes
  (before * n + Arith.ofNat count) / (n + 1.0)

/-- **Folds the current pass into the average.** -/
def accumulate (h : Histogram α) : Histogram α :=
  { h with
    accumulated := Array.zipWith (average h.passes) h.accumulated h.bins
    passes := h.passes + 1 }

/-- **Ends a pass**: its counts are summed over all workers and folded into the average. -/
def endPass (h : Histogram α) (pool : Pool α) : Except Error (Histogram α) :=
  (h.sumOver pool).map accumulate

/-- **The average** over the middles of the bins. -/
def data (h : Histogram α) : Grid α :=
  (Grid.ofValues? (h.axes.map Axis.centres) h.accumulated).getD (.empty h.axes.length)

end Histogram

end SiteAnalysis
