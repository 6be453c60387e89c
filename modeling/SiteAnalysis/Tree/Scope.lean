import SiteAnalysis.Expression.Bindings
import SiteAnalysis.Tree.Forest

/-! # Scopes

From a node one sees the node itself and those before it in its list, nearest first, then in the
same way the owner of the list and those before the owner, and so on up to the root.  Nodes behind
it and the branches of other nodes are out of sight.
-/

namespace SiteAnalysis

namespace Forest

/-- The nodes seen from a node, with the nodes before the first root given, nearest first. -/
def visibleBehind (id : NodeId) (before : List Node) : Forest → Option (List Node)
  | nil => none
  | cons n branch rest =>
    if n.id = id then some (n :: before)
    else match branch.visibleBehind id [] with
      | some inner => some (inner ++ n :: before)
      | none => rest.visibleBehind id (n :: before)

/-- **The nodes seen from a node**, nearest first. -/
def visible (f : Forest) (id : NodeId) : List Node := (f.visibleBehind id []).getD []

/-- How many lists enclose a node, the outermost counted; zero if the node is not in the forest. -/
def depth (id : NodeId) : Forest → Nat
  | nil => 0
  | cons n branch rest =>
    if n.id = id then 1
    else match branch.depth id with
      | 0 => rest.depth id
      | k + 1 => k + 2

/-- **The nearest node of a name** seen from a node, other than an excepted one. -/
def inScope? (f : Forest) (from_ : NodeId) (name : String) (except : Option NodeId)
    (filter : NodeFilter) : Option Node :=
  (f.visible from_).find? fun n => some n.id != except && n.isNamed name && filter.admits n.type

/-- **All parameters seen from a node**, nearest declaring node first. -/
def parametersInScope (f : Forest) (from_ : NodeId) : List (Node × Declared) :=
  (f.visible from_).flatMap fun n => n.parameters.map fun d => (n, d)

/-- **The nearest parameter of a qualified name** seen from a node. -/
def parameterInScope? (f : Forest) (from_ : NodeId) (name : String)
    (except : Option (NodeId × Nat)) : Option (Node × Declared) :=
  (f.visible from_).findSome? fun n =>
    (n.findParameter? name (except.bind fun (id, serial) =>
      if id = n.id then some serial else none)).map fun d => (n, d)

/-- Whether a parameter is seen from a node. -/
def seesParameter (f : Forest) (from_ : NodeId) (owner : NodeId) (serial : Nat) : Bool :=
  (f.parametersInScope from_).any fun (n, d) => n.id == owner && d.serial == serial

/-- **The variables of expressions at a node.** -/
def bindings (f : Forest) (from_ : NodeId) : Expression.Bindings :=
  Parameter.bindAll .empty ((f.parametersInScope from_).map fun (_, d) => d.parameter)

end Forest

end SiteAnalysis
