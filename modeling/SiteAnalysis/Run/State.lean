import SiteAnalysis.Folder
import SiteAnalysis.Results
import SiteAnalysis.Settings
import SiteAnalysis.Tree.Scope

/-! # The state of a run

While a procedure runs, its tree stays as it is.  What changes is kept in a `Run`: the
configuration, the results, the files saved, and what the nodes publish for one another, under
their identities.  A `Step` changes a `Run` and may fail; what it changed before it failed stays.
-/

namespace SiteAnalysis

/-- Values of nodes, under the identities of the nodes. -/
abbrev NodeTable (α : Type) := List (NodeId × α)

namespace NodeTable

variable {α : Type}

/-- The value of a node. -/
def find? (t : NodeTable α) (id : NodeId) : Option α := List.lookup id t

/-- Forgets the value of a node. -/
def erase (t : NodeTable α) (id : NodeId) : NodeTable α := t.filter fun e => e.1 != id

/-- Sets the value of a node. -/
def set (t : NodeTable α) (id : NodeId) (a : α) : NodeTable α := (id, a) :: erase t id

end NodeTable

/-- **How often a selection was made**, and how many sites it chose. -/
structure SelectionCount where
  selections : Nat
  /-- Sites of all selections together. -/
  total : Nat
  /-- Sites of the last selection. -/
  last : Nat
  deriving DecidableEq, Repr

namespace SelectionCount

/-- The count of a selection that was not made yet. -/
def zero : SelectionCount := ⟨0, 0, 0⟩

/-- Counts one selection more. -/
def record (c : SelectionCount) (sites : Nat) : SelectionCount :=
  ⟨c.selections + 1, c.total + sites, sites⟩

/-- The mean number of sites of a selection. -/
def average (c : SelectionCount) : Float :=
  if c.selections = 0 then 0.0 else Float.ofNat c.total / Float.ofNat c.selections

end SelectionCount

/-- What happened in a run, for inspection. -/
inductive Event where
  /-- A node entered a phase. -/
  | entered (phase : Phase) (node : NodeId) (name : String)
  /-- The branch of a recorder declined to run. -/
  | declined (node : NodeId) (name : String)
  deriving DecidableEq, Repr

/-- **What a run is given**, and does not change. -/
structure Job where
  tree : Forest
  settings : Settings
  pool : Pool Float
  /-- The group under which results are stored. -/
  group : String
  /-- The present time, as files tell it. -/
  time : String

/-- **The state of a run.** -/
structure Run where
  configuration : Configuration
  results : Results
  folder : Folder
  /-- The sites every selection chose last. -/
  chosen : NodeTable (List Site)
  /-- The sites at which selections stand. -/
  current : NodeTable Site
  /-- The observables measured last. -/
  observed : NodeTable (List Float)
  counts : NodeTable SelectionCount
  /-- Fitted values and their cost. -/
  fits : NodeTable (List (String × Float) × Option Float)
  /-- All events, the latest first. -/
  events : List Event

/-- The state before a run. -/
def Run.start (configuration : Configuration) (results : Results) (folder : Folder) : Run :=
  ⟨configuration, results, folder, [], [], [], [], [], []⟩

/-- **A step of a run.** -/
abbrev Step := ExceptT Error (StateM Run)

namespace Step

/-- Fails on behalf of a node. -/
def fail {α : Type} (n : Node) (fault : RunFault) : Step α := throw (.execution n.name fault)

/-- A value that may be missing. -/
def orFail {α : Type} (n : Node) (fault : RunFault) : Option α → Step α
  | some a => pure a
  | none => fail n fault

/-- Says of an error what was being done. -/
def within {α : Type} (context : String) (s : Step α) : Step α := fun run =>
  match s run with
  | (.error e, run) => (.error (e.withContext context), run)
  | r => r

/-- Notes an event. -/
def note (e : Event) : Step Unit := modify fun run => { run with events := e :: run.events }

end Step

namespace Run

/-- A parameter with its present value; that of a selection is the number of sites it chose. -/
def present (run : Run) (n : Node) (d : Declared) : Parameter :=
  match n.kind, run.chosen.find? n.id with
  | .select _ _, some sites =>
    if d.serial = 0 then { d.parameter with value := .int sites.length } else d.parameter
  | _, _ => d.parameter

/-- **The variables of expressions at a node**, with their present values. -/
def bindings (run : Run) (tree : Forest) (id : NodeId) : Expression.Bindings :=
  Parameter.bindAll .empty ((tree.parametersInScope id).map fun (n, d) => run.present n d)

/-- The name of what a node stores for the present configuration. -/
def dataName (run : Run) (node : String) : String := node ++ "_" ++ run.configuration.niceName

/-- The site at which a selection stands. -/
def currentSite? (run : Run) (r : NodeRef) : Option Site := r.id.bind run.current.find?

/-- How often a selection was made. -/
def count (run : Run) (id : NodeId) : SelectionCount := (run.counts.find? id).getD .zero

end Run

/-- The name of the histogram that belongs to the data of a name. -/
def binsName (dataName : String) : String := dataName ++ "_Bins"

namespace Job

/-- The key of a result of this job. -/
def key (job : Job) (name : String) : ResultKey := ⟨name, job.group⟩

/-- The value of a scalar at a node. -/
def evaluate (job : Job) (n : Node) (v : Scalar) : Step Float := do
  let run ← get
  match v.evaluate job.settings.expression (run.bindings job.tree n.id) with
  | .ok x => return x
  | .error problem => throw (.expression problem)

/-- Saves a file in the directory for files.  A file that cannot be saved is left out. -/
def save (job : Job) (file text : String) : Step Unit := modify fun run =>
  match run.folder.write (Path.join job.settings.outputDir file) text with
  | .ok folder => { run with folder }
  | .error _ => run

end Job

namespace Node

/-- The site at which a selection stands, which is needed. -/
def requireSite (n : Node) (r : NodeRef) : Step Site := do
  Step.orFail n (.noCurrentSite r.name) ((← get).currentSite? r)

/-- The identity behind a reference, which has to be set and linked. -/
def requireTarget (n : Node) (keyword : String) : Option NodeRef → Step (NodeRef × NodeId)
  | none => Step.fail n (.keywordNotSet keyword)
  | some r => do return (r, ← Step.orFail n (.unresolved r.name keyword) r.id)

end Node

end SiteAnalysis
