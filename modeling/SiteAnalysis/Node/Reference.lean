/-! # References to nodes

Every node has an identity that no other node ever has.  A keyword refers to a node by name, and
linking adds the identity of the node that was found.
-/

namespace SiteAnalysis

/-- **The identity of a node.** -/
structure NodeId where
  value : Nat
  deriving DecidableEq, Repr, Inhabited

namespace NodeId

/-- The identity that no node has. -/
def invalid : NodeId := ⟨0xFFFFFFFF⟩

/-- An identity in messages. -/
def text (id : NodeId) : String :=
  if id = invalid then "NodeId(INVALID)" else "NodeId(" ++ toString id.value ++ ")"

end NodeId

/-- **A reference to a node.** -/
structure NodeRef where
  name : String
  /-- The node meant; readers know the name only. -/
  id : Option NodeId
  deriving DecidableEq, Repr

/-- A reference by name. -/
def NodeRef.named (name : String) : NodeRef := ⟨name, none⟩

end SiteAnalysis
