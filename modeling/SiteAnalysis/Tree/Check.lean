import SiteAnalysis.Node.Check
import SiteAnalysis.Tree.Scope

/-! # Checking a tree

Every branch has to point back to the node that owns it, and every expression has to make sense
where it stands.
-/

namespace SiteAnalysis

namespace Forest

/-- Checks a node where it stands. -/
def checkNode (f : Forest) (limits : Expression.Limits) (n : Node) : Except Error Unit :=
  if n.ownsBranch then n.check limits (f.bindings n.id) else .error (.ownerMismatch n.name)

/-- **Checks a forest**, depth first; the first fault is told. -/
def check (f : Forest) (limits : Expression.Limits) : Except Error Unit :=
  f.nodes.forM (f.checkNode limits)

end Forest

end SiteAnalysis
