import SiteAnalysis.Expression.Value

/-! # Variables of an evaluation

Bindings give numbers to names.  A name may stand alone or in a group, which is addressed by a
prefix.  The first binding of a name wins, so that callers bind the nearest declarations first.
-/

namespace SiteAnalysis.Expression

/-- A name with the group it stands in, if any. -/
structure Binding where
  group : Option String
  name : String
  value : Number

/-- **Bindings**, in the order in which they were made.  No name is bound twice. -/
structure Bindings where
  entries : List Binding

namespace Bindings

/-- No variables. -/
def empty : Bindings := ⟨[]⟩

/-- The number bound to a name. -/
def find? (b : Bindings) (group : Option String) (name : String) : Option Number :=
  (b.entries.find? fun e => e.group == group && e.name == name).map Binding.value

/-- Whether a name is bound. -/
def isBound (b : Bindings) (group : Option String) (name : String) : Bool :=
  b.entries.any fun e => e.group == group && e.name == name

/-- **Binds a name**, unless it is bound already. -/
def bind (b : Bindings) (group : Option String) (name : String) (value : Number) : Bindings :=
  if b.isBound group name then b else ⟨b.entries ++ [⟨group, name, value⟩]⟩

/-- Binds a name and tells whether it was new. -/
def bindNew (b : Bindings) (group : Option String) (name : String) (value : Number) :
    Bool × Bindings :=
  (!b.isBound group name, b.bind group name value)

/-- **Adds other bindings**; names bound already keep their values. -/
def extend (b other : Bindings) : Bindings :=
  other.entries.foldl (fun b e => b.bind e.group e.name e.value) b

/-- The members of a group. -/
def members (b : Bindings) (group : String) : List (String × Number) :=
  (b.entries.filter fun e => e.group == some group).map fun e => (e.name, e.value)

/-- Whether anything is bound in a group. -/
def hasGroup (b : Bindings) (group : String) : Bool := b.entries.any fun e => e.group == some group

/-- **The value of a variable.**  A plain variable hides a group of the same name. -/
def value? (b : Bindings) (name : String) : Option Value :=
  match b.find? none name with
  | some n => some (.ofNumber n)
  | none => if b.hasGroup name then some (.group (b.members name)) else none

end Bindings

end SiteAnalysis.Expression
