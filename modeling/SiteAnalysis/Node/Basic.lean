import SiteAnalysis.Node.DynamicSite
import SiteAnalysis.Parameter

/-! # Nodes

A node has an identity, a kind, a name, keywords and parameters.  Some kinds own a branch: a list
of further nodes.  What is known of such a list, apart from its nodes, is a `Level`.

* `Node.ofType` makes the node of a type.
* `Node.rename` gives a node another name and takes its parameters along.
* `Node.declare` adds a parameter.
-/

namespace SiteAnalysis

/-- **The phases of a run.** -/
inductive Phase where
  /-- Before anything runs: every node looks at its keywords. -/
  | prepare
  /-- The nodes do their work, over and over in branches. -/
  | execute
  /-- After all runs: every node sums up. -/
  | finalise
  deriving DecidableEq, Repr

/-- The name of a phase. -/
def Phase.text : Phase → String
  | prepare => "prepare"
  | execute => "execute"
  | finalise => "finalise"

/-- How a recorder behaves: a node that only shows through which phases it goes. -/
structure Recorder where
  /-- The phase in which it fails. -/
  failsIn : Option Phase
  /-- Whether it declines to run. -/
  declines : Bool
  deriving DecidableEq, Repr

/-- **What a node does**, with what it found in its last run. -/
inductive NodeKind where
  | select (blocks : List DynamicSite) (chosen : List Site)
  | dynamicSite (block : DynamicSite)
  | exclude
  | distance
  | angle
  | vector
  | collect (dimension : Dimension)
  | process (dimension : Dimension)
  | fit (fitted : List (String × Float)) (cost : Option Float)
  | box
  | parameters
  | ifInRange
  /-- Stands in for `ifInRange` and has no keywords. -/
  | recorder (behaviour : Recorder)

namespace NodeKind

/-- The type of a kind. -/
def type : NodeKind → NodeType
  | select _ _ => .select
  | dynamicSite _ => .dynamicSite
  | exclude => .exclude
  | distance => .distance
  | angle => .angle
  | vector => .vector
  | collect d => .collect d
  | process d => .process d
  | fit _ _ => .fit
  | box => .box
  | parameters => .parameters
  | ifInRange | recorder _ => .ifInRange

/-- The kind of a fresh node of a type. -/
def ofType : NodeType → NodeKind
  | .select => select [] []
  | .dynamicSite => dynamicSite .empty
  | .exclude => exclude
  | .distance => distance
  | .angle => angle
  | .vector => vector
  | .collect d => collect d
  | .process d => process d
  | .fit => fit [] none
  | .box => box
  | .parameters => parameters
  | .ifInRange => ifInRange

theorem type_ofType (t : NodeType) : (ofType t).type = t := by cases t <;> rfl

end NodeKind

/-! ## Keywords of the types -/

/-- References to selections. -/
def NodeFilter.selection : NodeFilter := .type .select

/-- The names of the axes, as they end keywords. -/
def Dimension.axisNames : Dimension → List String
  | .one => ["X"]
  | .two => ["X", "Y"]
  | .three => ["X", "Y", "Z"]

namespace NodeType

/-- The keywords that name the sites an observable is measured between. -/
def siteKeywords : NodeType → List String
  | distance | vector => ["I", "J"]
  | angle => ["I", "J", "K"]
  | _ => []

/-- **The keywords of a type**, none of them set. -/
def keywords : NodeType → KeywordStore
  | select => .ofKeywords [
      ("Site", .sites []),
      ("ExcludeSameMolecule", .nodes [] .selection 1 none),
      ("ExcludeSameSite", .nodes [] .selection 1 none),
      ("SameMoleculeAsSite", .node none .selection),
      ("ReferenceSite", .node none .selection),
      ("MinDistance", .scalar (.float 0.0)),
      ("MaxDistance", .scalar (.float 0.0))]
  | exclude => .ofKeywords [("SameSite", .nodes [] .selection 2 (some 3))]
  | t@distance | t@angle | t@vector =>
    .ofKeywords (t.siteKeywords.map fun k => (k, .node none .selection))
  | collect d => .ofKeywords (
      (d.axisNames.map fun a => ("Quantity" ++ a, .observable none 0 (.group .calculate))) ++
      d.axisNames.map fun a => ("Range" ++ a, .range .standard))
  | process d =>
    let shells := if d = .one then [("SphericalShellVolume", KeywordData.flag false)] else []
    (KeywordStore.ofKeywords (
      [("SourceData", .node none (.type (collect d))),
        ("NSites", .nodes [] .selection 1 none),
        ("NumberDensity", .nodes [] .selection 1 none)] ++ shells ++
      [("Factor", .scalar (.float 1.0)), ("NormaliseToOne", .flag false),
        ("LabelValue", .text "Counts")] ++
      (d.axisNames.map fun a => ("Label" ++ a, .text a)) ++ [("Save", .flag false)])).withTreeWide
        ["SourceData", "NSites", "NumberDensity"]
  | fit =>
    ((KeywordStore.ofKeywords [
      ("SourceData", .node none (.oneOf [collect .one, process .one])),
      ("Equation", .text ""),
      ("Fit", .fit []),
      ("Constant", .fit []),
      ("Minimiser", .option "Simplex" ["Simplex", "MonteCarlo"]),
      ("Save", .flag false)]).withTreeWide ["SourceData"]).withDeprecated "Method" "Minimiser"
  | box => .ofKeywords [
      ("Lengths", .triple (.float 1.0) (.float 1.0) (.float 1.0)),
      ("Angles", .triple (.float 90.0) (.float 90.0) (.float 90.0)),
      ("NonPeriodic", .flag false)]
  | ifInRange => .ofKeywords [
      ("Value", .scalar (.float 0.0)), ("Min", .scalar (.float 0.0)),
      ("Max", .scalar (.float 0.0))]
  | dynamicSite | parameters => .ofKeywords []

/-- **The keyword of the branch** that nodes of a type own. -/
def branchKeyword? : NodeType → Option String
  | select => some "ForEach"
  | collect _ => some "SubCollect"
  | ifInRange => some "Then"
  | _ => none

/-- Whether a node of a type needs a name in a tree. -/
def needsName : NodeType → Bool
  | dynamicSite | box => false
  | _ => true

/-- Whether the parameters of a node are addressed by way of its name. -/
def groupsParameters : NodeType → Bool
  | parameters => false
  | _ => true

end NodeType

/-! ## Nodes and levels -/

/-- **A list of nodes, apart from its nodes**: the branch of a node or the root. -/
structure Level where
  /-- The node whose branch it is; the root has none. -/
  owner : Option NodeId
  /-- The keyword that encloses the list. -/
  keyword : String
  context : Context
  /-- For each type the last number given out in a generated name. -/
  counters : List (NodeType × Nat)

namespace Level

/-- A root. -/
def root (keyword : String) (context : Context) : Level := ⟨none, keyword, context, []⟩

/-- The branch of a node. -/
def branch (owner : NodeId) (keyword : String) : Level := ⟨some owner, keyword, .any, []⟩

/-- The word that closes the list. -/
def terminator (l : Level) : String := "End" ++ l.keyword

/-- The last number given out for a type. -/
def counter (l : Level) (t : NodeType) : Nat := (l.counters.lookup t).getD 0

/-- The level with another last number for a type. -/
def setCounter (l : Level) (t : NodeType) (n : Nat) : Level :=
  { l with counters := (t, n) :: l.counters.filter fun e => e.1 != t }

end Level

/-- **A parameter a node declared**, known by its number among all the node ever declared. -/
structure Declared where
  serial : Nat
  parameter : Parameter

/-- **A node**, apart from the nodes in its branch. -/
structure Node where
  id : NodeId
  kind : NodeKind
  name : String
  keywords : KeywordStore
  parameters : List Declared
  /-- Parameters in whose place others were declared. -/
  replaced : List Declared
  /-- The branch, if the node owns one. -/
  branch : Option Level

namespace Node

/-- The type of a node. -/
def type (n : Node) : NodeType := n.kind.type

/-- **A fresh node** without a name.  A selection declares how many sites it chose. -/
def ofType (id : NodeId) (t : NodeType) : Node where
  id
  kind := .ofType t
  name := ""
  keywords := t.keywords
  parameters := if t = .select then [⟨0, ⟨"nSelected", some "", .int 0⟩⟩] else []
  replaced := []
  branch := t.branchKeyword?.map (Level.branch id)

/-- A fresh recorder. -/
def recorder (id : NodeId) (r : Recorder) : Node where
  id
  kind := .recorder r
  name := ""
  keywords := .ofKeywords []
  parameters := []
  replaced := []
  branch := some (.branch id "Then")

/-- Whether a node still lacks the name it needs. -/
def lacksName (n : Node) : Bool := n.name.isEmpty && n.type.needsName

/-- The word that closes the block of a node. -/
def terminator (n : Node) : String := "End" ++ n.type.keyword

/-- Whether a name means this node; case does not count. -/
def isNamed (n : Node) (name : String) : Bool := sameName n.name name

/-- **Renames a node.**  Its parameters that stand in a group go along. -/
def rename (n : Node) (name : String) : Node :=
  let name := niceName name
  let regroup := fun p : Parameter => if p.group.isSome then p.inGroup name else p
  { n with
    name
    parameters := n.parameters.map fun d => { d with parameter := regroup d.parameter } }

/-! ## Parameters -/

/-- **Declares a parameter**, in place of any of the same name. -/
def declare (n : Node) (name : String) (value : Expression.Number) : Node :=
  let group := if n.type.groupsParameters then some n.name else none
  let isOther := fun d : Declared => !sameName d.parameter.name name
  let serial := n.parameters.length + n.replaced.length
  { n with
    parameters := n.parameters.filter isOther ++ [⟨serial, ⟨name, group, value⟩⟩]
    replaced := n.replaced ++ n.parameters.filter fun d => !isOther d }

/-- The declared parameter a qualified name means, other than the one of a number. -/
def findParameter? (n : Node) (name : String) (except : Option Nat) : Option Declared :=
  n.parameters.find? fun d => some d.serial != except && d.parameter.isNamed name

/-- The value of a parameter, known by its number. -/
def valueOf? (n : Node) (serial : Nat) : Option Expression.Number :=
  ((n.parameters ++ n.replaced).find? fun d => d.serial == serial).map fun d => d.parameter.value

/-- Sets the value of a parameter, known by its number. -/
def setValue (n : Node) (serial : Nat) (value : Expression.Number) : Node :=
  let set := fun d : Declared =>
    if d.serial == serial then { d with parameter := { d.parameter with value } } else d
  { n with parameters := n.parameters.map set, replaced := n.replaced.map set }

/-- How many sites a selection chose last, as its parameter says. -/
def selectedCount (n : Node) : Int :=
  match n.valueOf? 0 with
  | some (.int k) => k
  | some (.float x) => Scalar.truncate x
  | none => 0

end Node

end SiteAnalysis
