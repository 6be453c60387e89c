import SiteAnalysis.Minimise.MonteCarlo
import SiteAnalysis.Minimise.Simplex
import SiteAnalysis.Settings

/-! # Choosing a minimiser

The minimisers under one roof: the kind says which of them searches, and the settings how.
-/

namespace SiteAnalysis.MinimiserKind

/-- The downhill simplex with some settings. -/
def downhill (s : MinimiserSettings) : Downhill Float := ⟨s.maxIterations, s.tolerance, s.stepSize⟩

/-- The random walk with some settings. -/
def walk (s : MinimiserSettings) : RandomWalk Float := ⟨s.maxIterations, s.stepSize, s.seed⟩

/-- **The search for the least cost.** -/
def search (s : MinimiserSettings) (cost : List Float → Float) (start : List Float) :
    MinimiserKind → Search Float
  | simplex => (downhill s).search cost start
  | monteCarlo => (walk s).search cost start

/-- **The least cost found**, if it is acceptable. -/
def minimise (s : MinimiserSettings) (cost : List Float → Float) (start : List Float) :
    MinimiserKind → Except Error (Search Float)
  | simplex => (downhill s).minimise cost start
  | monteCarlo => (walk s).minimise cost start

end SiteAnalysis.MinimiserKind
