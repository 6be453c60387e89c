import SiteAnalysis.Error
import SiteAnalysis.Number.Arith
import SiteAnalysis.Text.Case

/-! # Minimising a cost

A minimiser looks for the point at which a cost function is least.  Points are lists of numbers.
-/

namespace SiteAnalysis

/-- A point with its cost. -/
structure Vertex (α : Type) where
  point : List α
  cost : α

/-- The point with the cost that a function gives it. -/
def Vertex.at {α : Type} (cost : List α → α) (point : List α) : Vertex α := ⟨point, cost point⟩

/-- **Outcome of a search.** -/
structure Search (α : Type) where
  best : Vertex α
  iterations : Nat
  converged : Bool
  /-- How often the cost was computed. -/
  evaluations : Nat

/-- **The outcome, unless its cost is no finite number.** -/
def Search.checked {α : Type} [Arith α] (s : Search α) : Except Error (Search α) :=
  if Arith.isFinite s.best.cost then .ok s else .error (.expression .unboundedCost)

/-- The kinds of minimisers. -/
inductive MinimiserKind where
  | simplex | monteCarlo
  deriving DecidableEq, Repr

namespace MinimiserKind

/-- How a kind is written. -/
def keyword : MinimiserKind → String
  | simplex => "Simplex"
  | monteCarlo => "MonteCarlo"

/-- All kinds. -/
def all : List MinimiserKind := [simplex, monteCarlo]

/-- The kind of a keyword; case does not count. -/
def ofKeyword? (s : String) : Option MinimiserKind := all.find? fun k => sameName k.keyword s

end MinimiserKind

end SiteAnalysis
