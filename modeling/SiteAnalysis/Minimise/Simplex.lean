import SiteAnalysis.Minimise.Basic

/-! # The downhill simplex

A simplex of one point more than there are dimensions moves downhill: its worst point is
reflected, drawn out or drawn in, and if nothing helps, all points move towards the best.
-/

namespace SiteAnalysis

/-- **Settings of a downhill simplex.** -/
structure Downhill (α : Type) where
  maxIterations : Nat
  /-- The search ends when best and worst cost differ by less than this part of the best. -/
  tolerance : α
  /-- Size of the first simplex, relative to the starting point. -/
  step : α

/-- **A simplex** with at least two vertices.  The names hold once it is sorted. -/
structure Simplex (α : Type) where
  best : Vertex α
  middle : List (Vertex α)
  worst : Vertex α

namespace Simplex

variable {α : Type} [Arith α]

/-- The vertices in order. -/
def vertices (s : Simplex α) : List (Vertex α) := s.best :: s.middle ++ [s.worst]

/-- A simplex from its vertices; none if there are fewer than two. -/
def ofVertices? : List (Vertex α) → Option (Simplex α)
  | best :: v :: rest => some ⟨best, (v :: rest).dropLast, (v :: rest).getLast (by simp)⟩
  | _ => none

/-- The simplex with its vertices in the order of their costs. -/
def sorted (s : Simplex α) : Simplex α :=
  (ofVertices? (s.vertices.mergeSort fun v w => Arith.totalLe v.cost w.cost)).getD s

/-- The point that divides the way from one point to another as `t` says. -/
def blend (a b : List α) (t : α) : List α := List.zipWith (fun x y => x + t * (y - x)) a b

/-- The mean of all vertices but the worst. -/
def centroid (s : Simplex α) : List α :=
  let front := s.best :: s.middle
  let n : α := Arith.ofNat front.length
  front.foldl (fun c v => List.zipWith (fun x y => x + y / n) c v.point)
    (s.best.point.map fun _ => 0.0)

/-- The greatest cost but one, of a sorted simplex. -/
def secondWorst (s : Simplex α) : α := ((s.middle.getLast?).getD s.best).cost

/-- All points moved halfway to the best. -/
def shrink (cost : List α → α) (s : Simplex α) : Simplex α :=
  let move := fun v : Vertex α => Vertex.at cost (blend s.best.point v.point 0.5)
  ⟨s.best, s.middle.map move, move s.worst⟩

/-- **One move of a sorted simplex**, and how often it computed the cost. -/
def move (cost : List α → α) (s : Simplex α) : Simplex α × Nat :=
  let centre := s.centroid
  let towards := fun t : α => Vertex.at cost (blend centre s.worst.point t)
  let reflected := towards (-1.0)
  if Arith.lt reflected.cost s.best.cost then
    let expanded := towards (-2.0)
    ({ s with worst := if Arith.lt expanded.cost reflected.cost then expanded else reflected }, 2)
  else if Arith.lt reflected.cost s.secondWorst then ({ s with worst := reflected }, 1)
  else
    let contracted := towards 0.5
    if Arith.lt contracted.cost s.worst.cost then ({ s with worst := contracted }, 2)
    else (s.shrink cost, 2 + s.middle.length + 1)

end Simplex

namespace Downhill

variable {α : Type} [Arith α]

/-- Whether the costs of a sorted simplex have come together. -/
def hasConverged (d : Downhill α) (s : Simplex α) : Bool :=
  Arith.le (Arith.abs (s.worst.cost - s.best.cost))
    (d.tolerance * (1.0 + Arith.abs s.best.cost))

/-- Moves a simplex until it has converged, or as often as is still allowed. -/
def run (d : Downhill α) (cost : List α → α) : Nat → Nat → Nat → Simplex α → Search α
  | 0, iterations, evaluations, s => ⟨s.sorted.best, iterations, false, evaluations⟩
  | allowed + 1, iterations, evaluations, s =>
    let s := s.sorted
    if d.hasConverged s then ⟨s.best, iterations + 1, true, evaluations⟩
    else
      let (s, n) := s.move cost
      d.run cost allowed (iterations + 1) (evaluations + n) s

/-- The starting point moved along one dimension. -/
def displaced (d : Downhill α) (start : List α) (i : Nat) : List α :=
  start.modify i fun x => x + Arith.max (Arith.abs x * d.step) d.step

/-- **The search for the least cost.** -/
def search (d : Downhill α) (cost : List α → α) (start : List α) : Search α :=
  let first := Vertex.at cost start
  let others := (List.range start.length).map fun i => Vertex.at cost (d.displaced start i)
  match Simplex.ofVertices? (first :: others) with
  | none => ⟨first, 0, true, 1⟩
  | some s => d.run cost d.maxIterations 0 (start.length + 1) s

/-- **The least cost found**, if it is finite.  Without dimensions any cost is accepted. -/
def minimise (d : Downhill α) (cost : List α → α) (start : List α) : Except Error (Search α) :=
  let s := d.search cost start
  if start.isEmpty then .ok s else s.checked

end Downhill

end SiteAnalysis
