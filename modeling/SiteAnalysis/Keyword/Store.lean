import SiteAnalysis.Keyword.Data

/-! # Keyword stores

The keywords of a node.  A store knows the keywords that were declared and which of them were set;
only those are written.  Keywords are found without regard to case, and old names lead to the
keywords that replaced them.
-/

namespace SiteAnalysis

/-- **A keyword.** -/
structure Keyword where
  name : String
  data : KeywordData
  isSet : Bool
  /-- Whether its references may lead anywhere in the tree, and not only to nodes in scope. -/
  treeWide : Bool

/-- **The keywords of a node.** -/
structure KeywordStore where
  keywords : List Keyword
  /-- Old names, each with the keyword that replaced it. -/
  deprecated : List (String × String)

/-- **Outcome of reading a line.** -/
inductive ReadOutcome where
  | success
  /-- Taken under an old name. -/
  | deprecated (replacement : String)
  /-- The keyword is known, but its arguments are not acceptable. -/
  | failed (e : Error)
  | unrecognised

/-- Changes the first item for which a test holds. -/
def updateFirst {α : Type} (p : α → Bool) (f : α → α) : List α → List α
  | [] => []
  | a :: rest => if p a then f a :: rest else a :: updateFirst p f rest

namespace Keyword

/-- A keyword that was not set. -/
def declare (name : String) (data : KeywordData) : Keyword := ⟨name, data, false, false⟩

/-- Whether a name means this keyword. -/
def isNamed (k : Keyword) (name : String) : Bool := sameName k.name name

/-- The keyword with new data, now set. -/
def setTo (k : Keyword) (data : KeywordData) : Keyword := { k with data, isSet := true }

/-- **The lines of a keyword**, each with the keyword in front. -/
def lines (k : Keyword) : List String :=
  k.data.lines.map fun values => String.intercalate "  " (k.name :: values)

end Keyword

namespace KeywordStore

/-- A store of keywords none of which is set. -/
def ofKeywords (keywords : List (String × KeywordData)) : KeywordStore :=
  ⟨keywords.map fun (name, data) => .declare name data, []⟩

/-- Lets the references of some keywords lead anywhere in the tree. -/
def withTreeWide (s : KeywordStore) (names : List String) : KeywordStore :=
  { s with keywords := s.keywords.map fun k =>
      { k with treeWide := k.treeWide || names.contains k.name } }

/-- Adds an old name for a keyword. -/
def withDeprecated (s : KeywordStore) (old replacement : String) : KeywordStore :=
  { s with deprecated := s.deprecated ++ [(old, replacement)] }

/-- The keyword of a name. -/
def find? (s : KeywordStore) (name : String) : Option Keyword :=
  s.keywords.find? fun k => k.isNamed name

/-- Changes the keyword of a name. -/
def update (s : KeywordStore) (name : String) (f : Keyword → Keyword) : KeywordStore :=
  { s with keywords := updateFirst (fun k => k.isNamed name) f s.keywords }

def contains (s : KeywordStore) (name : String) : Bool := (s.find? name).isSome

def isSet (s : KeywordStore) (name : String) : Bool := (s.find? name).any Keyword.isSet

def isTreeWide (s : KeywordStore) (name : String) : Bool :=
  s.keywords.any fun k => k.isNamed name && k.treeWide

def isRepeatable (s : KeywordStore) (name : String) : Bool :=
  (s.find? name).any fun k => k.data.isRepeatable

/-- The keywords that were set. -/
def setKeywords (s : KeywordStore) : List Keyword := s.keywords.filter Keyword.isSet

/-- **Forgets the value of a keyword.** -/
def unset (s : KeywordStore) (name : String) : KeywordStore :=
  s.update name fun k => { k with data := k.data.cleared, isSet := false }

/-- The keyword an old name stands for. -/
def replacement? (s : KeywordStore) (old : String) : Option String :=
  (s.deprecated.find? fun (name, _) => sameName name old).map Prod.snd

/-! ## Lines -/

/-- Reads a line into the keyword of a name; none if there is no such keyword. -/
def readKeyword (s : KeywordStore) (name : String) (values : List String)
    (catalogue : Catalogue) : Option (Except Error KeywordStore) :=
  (s.find? name).map fun k =>
    (k.data.read k.name catalogue values).map fun data => s.update name fun k => k.setTo data

/-- **Reads a line**: the keyword and its arguments.  A line that fails changes nothing. -/
def read (s : KeywordStore) (keyword : String) (values : List String) (catalogue : Catalogue) :
    ReadOutcome × KeywordStore :=
  match s.readKeyword keyword values catalogue with
  | some (.ok s) => (.success, s)
  | some (.error e) => (.failed e, s)
  | none =>
    match s.replacement? keyword with
    | none => (.unrecognised, s)
    | some name =>
      match s.readKeyword name values catalogue with
      | some (.ok s) => (.deprecated name, s)
      | some (.error e) => (.failed e, s)
      | none => (.unrecognised, s)

/-- **The lines of all keywords that were set.** -/
def lines (s : KeywordStore) : List String := s.setKeywords.flatMap Keyword.lines

/-! ## Documents -/

/-- **The members of a document for all keywords that were set.** -/
def toMembers (s : KeywordStore) : List (String × Json) :=
  s.setKeywords.filterMap fun k => k.data.toJson?.map fun j => (k.name, j)

/-- The document of all keywords that were set. -/
def toJson (s : KeywordStore) : Json := .ofMembers s.toMembers

/-- **Reads a member of a document.**  The answer is `false` if it names no keyword of the store. -/
def readMember (s : KeywordStore) (key : String) (j : Json) (catalogue : Catalogue) :
    Except Error Bool × KeywordStore :=
  let name? := match s.find? key with
    | some k => some k.name
    | none => s.replacement? key
  match name? with
  | none => (.ok false, s)
  | some name =>
    match s.find? name with
    | none => (.error (.unrecognisedKeyword "node" name), s)
    | some k =>
      match k.data.ofJson name catalogue j with
      | (.ok (), data) => (.ok true, s.update name fun k => k.setTo data)
      | (.error e, data) => (.error e, s.update name fun k => { k with data })

/-! ## Values -/

/-- The data of a keyword. -/
def data? (s : KeywordStore) (name : String) : Option KeywordData := (s.find? name).map Keyword.data

/-- The truth value of a flag. -/
def flag (s : KeywordStore) (name : String) : Bool :=
  match s.data? name with
  | some (.flag b) => b
  | _ => false

def integer (s : KeywordStore) (name : String) : Int :=
  match s.data? name with
  | some (.integer n _ _) => n
  | _ => 0

def double (s : KeywordStore) (name : String) : Float :=
  match s.data? name with
  | some (.double x _ _) => x
  | _ => 0.0

def text (s : KeywordStore) (name : String) : String :=
  match s.data? name with
  | some (.text t) => t
  | _ => ""

def option (s : KeywordStore) (name : String) : String :=
  match s.data? name with
  | some (.option o _) => o
  | _ => ""

def scalar? (s : KeywordStore) (name : String) : Option Scalar :=
  match s.data? name with
  | some (.scalar v) => some v
  | _ => none

def triple? (s : KeywordStore) (name : String) : Option (Scalar × Scalar × Scalar) :=
  match s.data? name with
  | some (.triple x y z) => some (x, y, z)
  | _ => none

def range? (s : KeywordStore) (name : String) : Option RangeSpec :=
  match s.data? name with
  | some (.range r) => some r
  | _ => none

def node? (s : KeywordStore) (name : String) : Option NodeRef :=
  match s.data? name with
  | some (.node target _) => target
  | _ => none

def observable? (s : KeywordStore) (name : String) : Option (NodeRef × Nat) :=
  match s.data? name with
  | some (.observable (some t) index _) => some (t, index)
  | _ => none

def nodes (s : KeywordStore) (name : String) : List NodeRef :=
  match s.data? name with
  | some (.nodes targets _ _ _) => targets
  | _ => []

def sites (s : KeywordStore) (name : String) : List (String × String) :=
  match s.data? name with
  | some (.sites known) => known
  | _ => []

def targets (s : KeywordStore) (name : String) : List (String × Float) :=
  match s.data? name with
  | some (.fit targets) => targets
  | _ => []

/-- The scalars of all keywords that were set, with the names of their keywords. -/
def scalars (s : KeywordStore) : List (String × Scalar) :=
  s.setKeywords.flatMap fun k => k.data.scalars.map fun v => (k.name, v)

/-! ## References -/

/-- **All references**, with the names of their keywords and the filters they have to pass. -/
def refs (s : KeywordStore) : List (String × NodeFilter × NodeRef) :=
  s.keywords.flatMap fun k => k.data.refs.map fun r => (k.name, r)

/-- The store with every reference changed. -/
def mapRefs (s : KeywordStore) (f : String → NodeFilter → NodeRef → NodeRef) : KeywordStore :=
  { s with keywords := s.keywords.map fun k => { k with data := k.data.mapRefs (f k.name) } }

/-- **Drops a reference from a keyword.**  A keyword left without any is not set any more. -/
def dropRef (s : KeywordStore) (keyword : String) (stale : NodeRef) : Bool × KeywordStore :=
  match s.find? keyword with
  | none => (false, s)
  | some k =>
    let (dropped, data) := k.data.dropRef stale
    (dropped, s.update keyword fun k =>
      { k with data, isSet := if dropped && !data.hasContent then false else k.isSet })

/-! ## Setting values -/

/-- Sets the keyword of a name to data computed from those it holds. -/
def setWith (s : KeywordStore) (name : String) (f : KeywordData → Except Error KeywordData) :
    Except Error KeywordStore :=
  match s.find? name with
  | none => .error (.unrecognisedKeyword "node" name)
  | some k => (f k.data).map fun data => s.update name fun k => k.setTo data

/-- A keyword holds data of another kind than the one it is to be set to. -/
def notKind {α : Type} (name kind : String) : Except Error α :=
  .error (.invalidArgument name (.wrongKind kind))

def setFlag (s : KeywordStore) (name : String) (value : Bool) : Except Error KeywordStore :=
  s.setWith name fun
    | .flag _ => .ok (.flag value)
    | _ => notKind name "a boolean"

def setInteger (s : KeywordStore) (name : String) (value : Int) : Except Error KeywordStore :=
  s.setWith name fun
    | .integer _ min max => (checkInteger name value min max).map fun n => .integer n min max
    | _ => notKind name "an integer"

def setDouble (s : KeywordStore) (name : String) (value : Float) : Except Error KeywordStore :=
  s.setWith name fun
    | .double _ min max => (checkDouble name value min max).map fun x => .double x min max
    | _ => notKind name "a floating-point"

def setText (s : KeywordStore) (name value : String) : Except Error KeywordStore :=
  s.setWith name fun
    | .text _ => (checkWritable name value).map .text
    | _ => notKind name "a text"

def setOption (s : KeywordStore) (name value : String) : Except Error KeywordStore :=
  s.setWith name fun
    | .option _ options =>
      match findOption? options value with
      | some o => .ok (.option o options)
      | none => .error (.invalidArgument name (.invalidOption value))
    | _ => notKind name "an option"

def setScalar (s : KeywordStore) (name : String) (value : Scalar) : Except Error KeywordStore :=
  s.setWith name fun
    | .scalar _ => .ok (.scalar value)
    | _ => notKind name "a value"

def setTriple (s : KeywordStore) (name : String) (x y z : Scalar) : Except Error KeywordStore :=
  s.setWith name fun
    | .triple _ _ _ => .ok (.triple x y z)
    | _ => notKind name "a vector"

/-- Sets a range; its measures are looked at before the keyword. -/
def setRange (s : KeywordStore) (name : String) (minimum maximum width : Float) :
    Except Error KeywordStore :=
  match RangeSpec.ofMeasures? minimum maximum width with
  | none => .error (.invalidArgument name .emptyRange)
  | some r =>
    s.setWith name fun
      | .range _ => .ok (.range r)
      | _ => notKind name "a range"

def setNode (s : KeywordStore) (name : String) (target : NodeRef) : Except Error KeywordStore :=
  s.setWith name fun
    | .node _ filter => .ok (.node (some target) filter)
    | _ => notKind name "a node"

/-- Sets a node and the index of an observable; the index is looked at before the keyword. -/
def setObservable (s : KeywordStore) (name : String) (target : NodeRef) (index : Nat) :
    Except Error KeywordStore := do
  let index ← checkIndex name index
  s.setWith name fun
    | .observable _ _ filter => .ok (.observable (some target) index filter)
    | _ => notKind name "a node-and-index"

def setNodes (s : KeywordStore) (name : String) (targets : List NodeRef) :
    Except Error KeywordStore :=
  s.setWith name fun
    | .nodes _ filter min max =>
      if targets.length < min || max.any (· < targets.length) then
        .error (wrongCount name (limitsText (some (toString min)) (max.map toString))
          targets.length)
      else .ok (.nodes targets filter min max)
    | _ => notKind name "a node list"

/-- **Adds a site**, which has to be in the catalogue. -/
def addSite (s : KeywordStore) (name species site : String) (catalogue : Catalogue) :
    Except Error KeywordStore :=
  match s.find? name with
  | none => .error (.unrecognisedKeyword "node" name)
  | some k =>
    match k.data with
    | .sites _ =>
      (k.data.read k.name catalogue [species, site]).map fun data =>
        s.update name fun k => k.setTo data
    | _ => notKind name "a site"

/-- Adds a variable with its starting value behind those given before. -/
def addTarget (s : KeywordStore) (name variableName : String) (value : Float) :
    Except Error KeywordStore :=
  s.setWith name fun
    | .fit targets => .ok (.fit (targets ++ [(variableName, value)]))
    | _ => notKind name "a fit"

end KeywordStore

end SiteAnalysis
