import SiteAnalysis.Minimise.Basic
import SiteAnalysis.Minimise.Random

/-! # A random walk downhill

One dimension after the other is changed at random, and a change is kept when it lowers the cost.
The size of the changes follows how often they succeed.
-/

namespace SiteAnalysis

/-- **Settings of a random walk.** -/
structure RandomWalk (α : Type) where
  maxIterations : Nat
  /-- Greatest change at the start, relative to the point. -/
  step : α
  seed : Nat

namespace RandomWalk

variable {α : Type} [Arith α]

/-- **State of a walk.** -/
structure State (α : Type) where
  current : Vertex α
  step : α
  /-- Changes kept, and changes tried, since the step was set. -/
  accepted : Nat
  attempted : Nat
  stream : Random.Stream
  evaluations : Nat

/-- The walk has converged when its steps are no greater than this. -/
def leastStep : α := 1.0e-8

/-- A random number from minus one up to one. -/
def signed (stream : Random.Stream) : α × Random.Stream :=
  let (u, stream) := stream.drawFraction
  (Arith.ofNat u / Arith.ofNat 0x10000000000000 * 2.0 + (-1.0), stream)

/-- Tries a change of one dimension. -/
def attempt (cost : List α → α) (s : State α) (i : Nat) : State α :=
  let (r, stream) := signed s.stream
  let change := fun x : α => x + s.step * Arith.max (Arith.abs x) 1.0 * r
  let trial := Vertex.at cost (s.current.point.modify i change)
  let s := { s with stream, attempted := s.attempted + 1, evaluations := s.evaluations + 1 }
  if Arith.lt trial.cost s.current.cost then
    { s with current := trial, accepted := s.accepted + 1 }
  else s

/-- Sets the step anew once a hundred changes were tried: a good rate lengthens it. -/
def adapt (s : State α) : State α :=
  if s.attempted < 100 then s
  else
    let rate : α := Arith.ofNat s.accepted / Arith.ofNat s.attempted
    let factor := if Arith.lt 0.3 rate then 1.2 else 0.8
    { s with step := s.step * factor, accepted := 0, attempted := 0 }

/-- Tries every dimension once. -/
def sweep (cost : List α → α) (s : State α) : State α :=
  adapt ((List.range s.current.point.length).foldl (attempt cost) s)

/-- Sweeps until the steps are small, or as often as is still allowed. -/
def run (cost : List α → α) : Nat → Nat → State α → Search α
  | 0, iterations, s => ⟨s.current, iterations, Arith.le s.step leastStep, s.evaluations⟩
  | allowed + 1, iterations, s =>
    if Arith.lt leastStep s.step then run cost allowed (iterations + 1) (sweep cost s)
    else ⟨s.current, iterations, Arith.le s.step leastStep, s.evaluations⟩

/-- **The search for the least cost.** -/
def search (w : RandomWalk α) (cost : List α → α) (start : List α) : Search α :=
  run cost w.maxIterations 0 ⟨.at cost start, w.step, 0, 0, .ofSeed w.seed, 1⟩

/-- **The least cost found**, if it is finite. -/
def minimise (w : RandomWalk α) (cost : List α → α) (start : List α) : Except Error (Search α) :=
  (w.search cost start).checked

end RandomWalk

end SiteAnalysis
