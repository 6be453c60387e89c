import SiteAnalysis.Error
import SiteAnalysis.Node.Kind

/-! # Registries

A registry says which types of nodes a reader may make.
-/

namespace SiteAnalysis

/-- **The types of nodes a reader may make.** -/
structure Registry where
  types : List NodeType

namespace Registry

/-- A registry without types. -/
def empty : Registry := ⟨[]⟩

/-- The registry of all types. -/
def full : Registry := ⟨NodeType.all⟩

/-- Adds a type. -/
def register (r : Registry) (t : NodeType) : Registry := ⟨t :: r.types⟩

/-- Whether a type may be made. -/
def admits (r : Registry) (t : NodeType) : Bool := r.types.contains t

/-- The types that may be made, in the order of `NodeType.all`. -/
def registered (r : Registry) : List NodeType := NodeType.all.filter r.admits

/-- **The type a keyword means**, if it may be made. -/
def typeOf (r : Registry) (keyword : String) : Except Error NodeType :=
  match NodeType.ofKeyword? keyword with
  | none => .error (.unrecognisedNodeType keyword)
  | some t => if r.admits t then .ok t else .error (.unrecognisedNodeType t.keyword)

end Registry

end SiteAnalysis
