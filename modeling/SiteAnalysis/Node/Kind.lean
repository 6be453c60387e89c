import SiteAnalysis.Text.Case

/-! # Kinds of nodes

A procedure is a tree of nodes.  The kind of a node says what it does, and a context says which
kinds may occur.
-/

namespace SiteAnalysis

/-- The number of observables a node works on. -/
inductive Dimension where
  | one | two | three
  deriving DecidableEq, Repr

namespace Dimension

/-- The dimension as a number. -/
def toNat : Dimension → Nat
  | one => 1
  | two => 2
  | three => 3

/-- The dimension at the end of a keyword. -/
def text (d : Dimension) : String := toString d.toNat ++ "D"

end Dimension

/-- **Kinds of nodes.** -/
inductive NodeType where
  | select
  | dynamicSite
  | exclude
  | distance
  | angle
  | vector
  | collect (dimension : Dimension)
  | process (dimension : Dimension)
  | fit
  | box
  | parameters
  | ifInRange
  deriving DecidableEq, Repr

/-- Groups of kinds. -/
inductive NodeClass where
  | select | calculate | collect | process | fit | control | geometry | parameters
  deriving DecidableEq, Repr

namespace NodeClass

/-- All groups. -/
def all : List NodeClass :=
  [select, calculate, collect, process, fit, control, geometry, parameters]

/-- The name of a group. -/
def name : NodeClass → String
  | select => "Select"
  | calculate => "Calculate"
  | collect => "Collect"
  | process => "Process"
  | fit => "Fit"
  | control => "Control"
  | geometry => "Geometry"
  | parameters => "Parameters"

/-- The group of a name. -/
def ofName? (s : String) : Option NodeClass := all.find? fun c => c.name == s

end NodeClass

/-- **What a procedure is used for.** -/
inductive Context where
  /-- Anything. -/
  | any
  /-- Analysis of a configuration. -/
  | analysis
  /-- Making of a configuration. -/
  | generation
  deriving DecidableEq, Repr

namespace Context

/-- All contexts. -/
def all : List Context := [any, analysis, generation]

/-- How a context is written. -/
def keyword : Context → String
  | any => "Any"
  | analysis => "Analysis"
  | generation => "Generation"

/-- The context of a keyword in its exact spelling. -/
def ofKeyword? (s : String) : Option Context := all.find? fun c => c.keyword == s

end Context

namespace NodeType

/-- **All kinds**, in the order in which they are listed. -/
def all : List NodeType :=
  [select, dynamicSite, exclude, distance, angle, vector, collect .one, collect .two,
    collect .three, process .one, process .two, process .three, fit, box, parameters, ifInRange]

theorem mem_all (t : NodeType) : t ∈ all := by
  cases t <;> first | decide | (rename_i d; cases d <;> decide)

/-- **The keyword of a kind.** -/
def keyword : NodeType → String
  | select => "Select"
  | dynamicSite => "DynamicSite"
  | exclude => "Exclude"
  | distance => "CalculateDistance"
  | angle => "CalculateAngle"
  | vector => "CalculateVector"
  | collect d => "Collect" ++ d.text
  | process d => "Process" ++ d.text
  | fit => "Fit1D"
  | box => "Box"
  | parameters => "Parameters"
  | ifInRange => "IfValueInRange"

/-- The kind of a keyword; case does not count. -/
def ofKeyword? (s : String) : Option NodeType := all.find? fun t => sameName t.keyword s

/-- The group of a kind. -/
def nodeClass : NodeType → NodeClass
  | select | dynamicSite => .select
  | distance | angle | vector => .calculate
  | collect _ => .collect
  | process _ => .process
  | fit => .fit
  | exclude | ifInRange => .control
  | box => .geometry
  | parameters => .parameters

/-- **Whether a kind may occur in a context.** -/
def isRelevantIn (t : NodeType) : Context → Bool
  | .any => true
  | .analysis => t != box
  | .generation => t == box || t == select || t == parameters || t == ifInRange

/-- What a kind does, in words. -/
def description : NodeType → String
  | select => "Selects sites and iterates over them."
  | dynamicSite => "Generates extra sites for its Select."
  | exclude => "Vetoes iterations in which two selections hold the same site."
  | distance => "Minimum-image distance between two sites."
  | angle => "Angle formed by three sites."
  | vector => "Minimum-image vector between two sites."
  | collect .one => "Bins one observable into a histogram."
  | collect .two => "Bins two observables into a 2D histogram."
  | collect .three => "Bins three observables into a 3D histogram."
  | process d => "Normalises collected " ++ d.text ++ " data."
  | fit => "Fits an equation to 1D data."
  | box => "Defines the simulation box."
  | parameters => "Declares named parameters."
  | ifInRange => "Runs its branch when a value lies in a range."

end NodeType

/-- **Which kinds of nodes a reference admits.** -/
inductive NodeFilter where
  | any
  | type (t : NodeType)
  | group (c : NodeClass)
  | oneOf (ts : List NodeType)
  deriving DecidableEq, Repr

namespace NodeFilter

/-- Whether a filter admits a kind. -/
def admits : NodeFilter → NodeType → Bool
  | any, _ => true
  | type t, u => t == u
  | group c, u => u.nodeClass == c
  | oneOf ts, u => ts.contains u

/-- A filter in words. -/
def text : NodeFilter → String
  | any => "Any"
  | type t => "Type(" ++ t.keyword ++ ")"
  | group c => "Class(" ++ c.name ++ ")"
  | oneOf ts => "OneOf(" ++ String.intercalate "," (ts.map NodeType.keyword) ++ ")"

end NodeFilter

end SiteAnalysis
