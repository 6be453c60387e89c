import SiteAnalysis.Tree.Scope

/-! # Links between nodes

Keywords refer to nodes.  `Forest.link` gives every reference the identity and the present name of
the node it means; `Forest.dropStale` does the same and drops the references that mean none.

A reference with an identity means the node of that identity; one without means the nearest node
of its name.  The node has to be in sight, unless the keyword leads anywhere in the tree, and it
is never the node that refers.
-/

namespace SiteAnalysis

namespace Forest

/-- The node that a reference means, whatever its type. -/
def target? (f : Forest) (from_ : NodeId) (r : NodeRef) (treeWide : Bool) : Option Node :=
  match r.id with
  | some id =>
    if id = from_ then none
    else match (f.visible from_).find? fun n => n.id == id with
      | some n => some n
      | none => if treeWide then f.find? id else none
  | none =>
    match f.inScope? from_ r.name (some from_) .any with
    | some n => some n
    | none => if treeWide then f.search? r.name (some from_) .any else none

/-- **What a reference should be**: the name and identity of the node it means, if the filter
admits that node. -/
def resolve? (f : Forest) (from_ : NodeId) (treeWide : Bool) (filter : NodeFilter) (r : NodeRef) :
    Option NodeRef :=
  match f.target? from_ r treeWide with
  | some n => if filter.admits n.type then some ⟨n.name, some n.id⟩ else none
  | none => none

/-- A reference that means no node. -/
structure Stale where
  node : NodeId
  /-- The name of the node that refers. -/
  name : String
  keyword : String
  target : NodeRef

/-- The references of a node that mean none, as the forest stands. -/
def staleRefs (f : Forest) (n : Node) : List Stale :=
  n.keywords.refs.filterMap fun (keyword, filter, r) =>
    match f.resolve? n.id (n.keywords.isTreeWide keyword) filter r with
    | some _ => none
    | none => some ⟨n.id, n.name, keyword, r⟩

/-- A node with every reference that means a node brought up to date. -/
def refreshed (f : Forest) (n : Node) : Node :=
  { n with keywords := n.keywords.mapRefs fun keyword filter r =>
      (f.resolve? n.id (n.keywords.isTreeWide keyword) filter r).getD r }

/-- **Brings all references up to date** and tells which mean no node. -/
def relink (f : Forest) : Forest × List Stale :=
  (f.map f.refreshed, f.nodes.flatMap f.staleRefs)

/-- A reference that means no node, as a problem of reading. -/
def Stale.toError (s : Stale) : Error := .danglingReference s.name s.keyword s.target.name

/-- **Links all references.**  Those that mean no node are reported together, and stay. -/
def link (f : Forest) : Forest × Except Error Unit :=
  let (linked, stale) := f.relink
  (linked, if stale.isEmpty then .ok () else .error (.readFailed (stale.map Stale.toError)))

/-- Drops references, and tells which of them were there. -/
def dropAll : List Stale → Forest → Forest × List Stale
  | [], f => (f, [])
  | s :: rest, f =>
    match f.find? s.node with
    | none => dropAll rest f
    | some n =>
      let (dropped, keywords) := n.keywords.dropRef s.keyword s.target
      let (f, cleared) := dropAll rest (f.update s.node fun n => { n with keywords })
      (f, if dropped then s :: cleared else cleared)

/-- **Brings all references up to date and drops those that mean no node.** -/
def dropStale (f : Forest) : Forest × List Stale :=
  let (linked, stale) := f.relink
  dropAll stale linked

end Forest

end SiteAnalysis
