import SiteAnalysis.Expression.Bindings
import SiteAnalysis.Text.Case

/-! # Parameters

Named numbers that nodes declare and expressions read.  A parameter in a group is addressed as
`group.name`.
-/

namespace SiteAnalysis

namespace Expression.Number

/-- Text of a number. -/
def text : Number → String
  | int n => toString n
  | float x => Layout.precise.text x

end Expression.Number

/-- **A named number.** -/
structure Parameter where
  name : String
  /-- The group the name stands in, if any. -/
  group : Option String
  value : Expression.Number

namespace Parameter

/-- The name an expression uses. -/
def qualifiedName (p : Parameter) : String :=
  match p.group with
  | some g => g ++ "." ++ p.name
  | none => p.name

/-- Whether a name means this parameter; case does not count. -/
def isNamed (p : Parameter) (name : String) : Bool := sameName p.qualifiedName name

/-- The parameter in another group. -/
def inGroup (p : Parameter) (group : String) : Parameter := { p with group := some group }

/-- Makes the parameter known to expressions. -/
def bind (b : Expression.Bindings) (p : Parameter) : Expression.Bindings :=
  b.bind p.group p.name p.value

/-- **Makes parameters known in order**, so that earlier ones hide later ones. -/
def bindAll (b : Expression.Bindings) (ps : List Parameter) : Expression.Bindings :=
  ps.foldl bind b

end Parameter

end SiteAnalysis
