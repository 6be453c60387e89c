import SiteAnalysis.Error

/-! # Pools of workers

A procedure may run as one of several workers, each with a snapshot of its own.  What a worker
has to know of the others is held in a `Pool`.
-/

namespace SiteAnalysis

/-- **A pool of workers**, seen from one of them. -/
structure Pool (α : Type) where
  /-- The place of this worker among all. -/
  rank : Nat
  /-- Sums values over all workers, each value by itself. -/
  sum : List α → Except Error (List α)

namespace Pool

/-- The pool of one worker only. -/
def serial {α : Type} : Pool α := ⟨0, .ok⟩

/-- Whether this worker does what must be done once, such as writing files. -/
def isMaster {α : Type} (p : Pool α) : Bool := p.rank == 0

end Pool

end SiteAnalysis
