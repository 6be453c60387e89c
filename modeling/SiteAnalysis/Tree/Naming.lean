import SiteAnalysis.Tree.Forest

/-! # Placing nodes in a tree

Names are distinct all over a tree, and most types of nodes need one.  A node that lacks the name
it needs is given the name of its type and a number.

* `Level.nextName` gives out such names; the numbers of a level only ever grow.
* `Sequence.append` and `Sequence.appendToBranch` place a node in a tree and name what lacks a
  name.  A node that cannot be placed leaves the tree as it is.
* `Sequence.adopt` places a node in a branch that is being read; naming is left to the tree.
-/

namespace SiteAnalysis

/-- The name given to the node of a type and a number. -/
def generatedName (t : NodeType) (n : Nat) : String :=
  let digits := toString n
  t.keyword ++ (if n < 10 then "0" ++ digits else digits)

/-- The first number from the one given on whose name is free.  One of so many numbers is free as
there are names reserved, and one more. -/
def freeNumber (t : NodeType) (reserved : List String) : Nat → Nat → Nat
  | 0, n => n
  | tries + 1, n =>
    if reserved.contains (foldCase (generatedName t n)) then freeNumber t reserved tries (n + 1)
    else n

/-- **The next free name for a type.** -/
def Level.nextName (l : Level) (t : NodeType) (reserved : List String) : String × Level :=
  let n := freeNumber t reserved reserved.length (l.counter t + 1)
  (generatedName t n, l.setCounter t n)

namespace Forest

/-- **Gives a name to every node that lacks it**, each before its branch.  The counters are those
of the list a node stands in; every name given is reserved for it from then on. -/
def nameAll : Forest → Level → List String → Forest × Level × List String
  | nil, level, reserved => (nil, level, reserved)
  | cons n branch rest, level, reserved =>
    let (n, level, reserved) :=
      if n.lacksName then
        let (name, level) := level.nextName n.type reserved
        (n.rename name, level, foldCase name :: reserved)
      else (n, level, reserved)
    match n.branch with
    | none =>
      let (rest, level, reserved) := rest.nameAll level reserved
      (cons n branch rest, level, reserved)
    | some inner =>
      let (branch, inner, reserved) := branch.nameAll inner reserved
      let (rest, level, reserved) := rest.nameAll level reserved
      (cons { n with branch := some inner } branch rest, level, reserved)

end Forest

namespace Sequence

/-- The first type in a tree that may not occur in a context. -/
def irrelevant? (c : Context) (t : Subtree) : Option NodeType :=
  ((Forest.single t).nodes.find? fun n => !n.type.isRelevantIn c).map Node.type

/-- The name that keeps a tree out of one whose names are taken: one in its branch that is taken,
or that of its node. -/
def clash? (taken : List String) (t : Subtree) : Option String :=
  let incoming := t.branch.names
  match incoming.find? taken.contains with
  | some name => some name
  | none =>
    if t.node.name.isEmpty then none
    else if taken.contains (foldCase t.node.name) || incoming.contains (foldCase t.node.name) then
      some t.node.name
    else none

/-- **Places a tree** in front of the root of an index, or behind all. -/
def place (s : Sequence) (t : Subtree) (index : Option Nat) (taken : List String)
    (naming : Bool) : Except Error Sequence :=
  match irrelevant? s.level.context t with
  | some wrong => .error (.wrongContext wrong.keyword s.level.context.keyword)
  | none =>
    match clash? taken t with
    | some name => .error (.duplicateName name)
    | none =>
      let (tree, level) :=
        if naming then
          let (tree, level, _) := (Forest.single t).nameAll s.level (taken ++ t.branch.names)
          (tree, level)
        else (Forest.single t, s.level)
      match tree.setContext s.level.context with
      | .nil => .ok s
      | .cons node branch _ =>
        let nodes := match index with
          | some i => s.nodes.insertAt ⟨node, branch⟩ i
          | none => s.nodes.append (.single ⟨node, branch⟩)
        .ok ⟨level, nodes⟩

/-- **Appends a tree** to the outermost list, or puts it in front of the root of an index. -/
def append (s : Sequence) (t : Subtree) (index : Option Nat) : Except Error Sequence :=
  s.place t index s.nodes.names true

/-- **Appends a tree to the branch of a node**, anywhere below. -/
def appendToBranch (s : Sequence) (owner : NodeId) (t : Subtree) (index : Option Nat) :
    Except Error Sequence :=
  match s.nodes.subtree? owner with
  | none => .error (.unknownNode owner.text)
  | some parent =>
    match parent.node.branch with
    | none => .error (.noBranch parent.node.name)
    | some level => do
      let inner ← place ⟨level, parent.branch⟩ t index s.nodes.names true
      return { s with
        nodes := s.nodes.replace owner
          ⟨{ parent.node with branch := some inner.level }, inner.nodes⟩ }

/-- Appends a tree to a branch that is being read on its own.  Only the names of the branch are
looked at, and none are given. -/
def adopt (s : Sequence) (t : Subtree) : Except Error Sequence :=
  s.place t none s.nodes.names false

end Sequence

/-- **Appends a tree to the branch of a tree** that stands by itself; none if there is no branch. -/
def Subtree.append? (parent child : Subtree) : Option (Except Error Subtree) :=
  parent.node.branch.map fun level => do
    let s ← (Sequence.mk level parent.branch).append child none
    return ⟨{ parent.node with branch := some s.level }, s.nodes⟩

end SiteAnalysis
