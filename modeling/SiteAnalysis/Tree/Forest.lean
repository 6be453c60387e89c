import SiteAnalysis.Node.Basic

/-! # Forests of nodes

A procedure is an ordered forest: a list of nodes, each with the forest in its branch.  `nodes`
lists all nodes depth first, every node before its branch; most questions about a forest are
questions about that list.
-/

namespace SiteAnalysis

/-- **An ordered forest of nodes**: the first node, its branch, and the nodes behind it. -/
inductive Forest where
  | nil
  | cons (node : Node) (branch rest : Forest)

/-- A node with its branch. -/
structure Subtree where
  node : Node
  branch : Forest

namespace Forest

/-- **All nodes**, depth first. -/
def nodes : Forest → List Node
  | nil => []
  | cons n branch rest => n :: (branch.nodes ++ rest.nodes)

/-- The nodes of the outermost list. -/
def roots : Forest → List Node
  | nil => []
  | cons n _ rest => n :: rest.roots

def isEmpty : Forest → Bool
  | nil => true
  | cons .. => false

/-- The forest of one tree. -/
def single (t : Subtree) : Forest := cons t.node t.branch nil

/-- Puts a tree in front of the root of a place, or behind all if there is no such place. -/
def insertAt (t : Subtree) : Nat → Forest → Forest
  | _, nil => single t
  | 0, f => cons t.node t.branch f
  | i + 1, cons n branch rest => cons n branch (rest.insertAt t i)

/-- Puts one forest behind another. -/
def append : Forest → Forest → Forest
  | nil, g => g
  | cons n branch rest, g => cons n branch (rest.append g)

/-- Changes every node; branches stay where they are. -/
def map (f : Node → Node) : Forest → Forest
  | nil => nil
  | cons n branch rest => cons (f n) (branch.map f) (rest.map f)

/-- Sets the context of every branch. -/
def setContext (c : Context) (f : Forest) : Forest :=
  f.map fun n => { n with branch := n.branch.map fun l => { l with context := c } }

/-- The node of an identity. -/
def find? (f : Forest) (id : NodeId) : Option Node := f.nodes.find? fun n => n.id == id

/-- Changes the nodes of an identity. -/
def update (f : Forest) (id : NodeId) (change : Node → Node) : Forest :=
  f.map fun n => if n.id = id then change n else n

/-- **The first node of a name**, depth first, other than an excepted one. -/
def search? (f : Forest) (name : String) (except : Option NodeId) (filter : NodeFilter) :
    Option Node :=
  f.nodes.find? fun n => some n.id != except && n.isNamed name && filter.admits n.type

/-- All nodes a filter admits, depth first. -/
def select (f : Forest) (filter : NodeFilter) : List Node :=
  f.nodes.filter fun n => filter.admits n.type

/-- The first parameter of a qualified name, depth first, with the node that declared it. -/
def searchParameter? (f : Forest) (name : String) (except : Option (NodeId × Nat)) :
    Option (Node × Declared) :=
  f.nodes.findSome? fun n =>
    (n.findParameter? name (except.bind fun (id, serial) =>
      if id = n.id then some serial else none)).map fun d => (n, d)

/-- The node of an identity with its branch. -/
def subtree? (id : NodeId) : Forest → Option Subtree
  | nil => none
  | cons n branch rest =>
    if n.id = id then some ⟨n, branch⟩
    else match branch.subtree? id with
      | some t => some t
      | none => rest.subtree? id

/-- Puts a tree in place of the node of an identity and its branch. -/
def replace (id : NodeId) (t : Subtree) : Forest → Forest
  | nil => nil
  | cons n branch rest =>
    if n.id = id then cons t.node t.branch rest
    else cons n (branch.replace id t) (rest.replace id t)

/-- **Takes out the node of an identity** with its branch. -/
def remove? (id : NodeId) : Forest → Option (Subtree × Forest)
  | nil => none
  | cons n branch rest =>
    if n.id = id then some (⟨n, branch⟩, rest)
    else match branch.remove? id with
      | some (t, branch) => some (t, cons n branch rest)
      | none => (rest.remove? id).map fun (t, rest) => (t, cons n branch rest)

/-- The names that occur, in lower case. -/
def names (f : Forest) : List String :=
  (f.nodes.filter fun n => !n.name.isEmpty).map fun n => foldCase n.name

end Forest

/-- **A list of nodes with what is known of it.** -/
structure Sequence where
  level : Level
  nodes : Forest

namespace Sequence

/-- A root without nodes. -/
def root (keyword : String) (context : Context) : Sequence := ⟨.root keyword context, .nil⟩

/-- The sequence in another context, with all its branches. -/
def setContext (s : Sequence) (c : Context) : Sequence :=
  ⟨{ s.level with context := c }, s.nodes.setContext c⟩

end Sequence

end SiteAnalysis
