import SiteAnalysis.Json.Reader
import SiteAnalysis.Run.Phases
import SiteAnalysis.Toml.Printer
import SiteAnalysis.Toml.Reader
import SiteAnalysis.Tree.Check
import SiteAnalysis.Tree.Document
import SiteAnalysis.Tree.Links
import SiteAnalysis.Tree.Text

/-! # Procedures

A procedure is a tree of nodes with settings.  It is read from text, JSON or TOML and written in
the same forms, and it runs over configurations.  A configuration whose contents have not changed
since its last successful run is skipped.
-/

namespace SiteAnalysis

/-- **A procedure.** -/
structure Procedure where
  root : Sequence
  settings : Settings
  /-- For each configuration that was run the version of its contents after the run. -/
  versions : List (String × Nat)
  /-- The identity for the next node. -/
  fresh : NodeId

/-- What became of a request to run. -/
inductive RunOutcome where
  | executed
  /-- The configuration has not changed since it was run last. -/
  | skipped
  deriving DecidableEq, Repr

/-- **What a run leaves behind**, also when it failed. -/
structure RunReport where
  outcome : Except Error RunOutcome
  procedure : Procedure
  configuration : Configuration
  results : Results
  folder : Folder
  /-- The events of the run, the first one first. -/
  events : List Event

namespace Procedure

/-- **A procedure without nodes.**  Its context is that of the settings. -/
def ofSettings (settings : Settings) (keyword : String) : Procedure :=
  ⟨.root keyword settings.context, settings, [], ⟨0⟩⟩

/-- A procedure without nodes, with default settings but for the context. -/
def ofContext (context : Context) (keyword : String) : Procedure :=
  ofSettings { context } keyword

/-! ## Nodes -/

/-- Makes a node that is not in the tree yet. -/
def makeNode (p : Procedure) (make : NodeId → Node) : Node × Procedure :=
  (make p.fresh, { p with fresh := ⟨p.fresh.value + 1⟩ })

/-- Appends a tree to the root, or puts it in front of the root of an index. -/
def append (p : Procedure) (t : Subtree) (index : Option Nat) : Except Error Procedure := do
  return { p with root := ← p.root.append t index }

/-- Appends a tree to the branch of a node. -/
def appendToBranch (p : Procedure) (owner : NodeId) (t : Subtree) (index : Option Nat) :
    Except Error Procedure := do
  return { p with root := ← p.root.appendToBranch owner t index }

/-- Takes a node with its branch out of the tree. -/
def removeNode (p : Procedure) (id : NodeId) : Option (Subtree × Procedure) :=
  (p.root.nodes.remove? id).map fun (t, nodes) => (t, { p with root := { p.root with nodes } })

/-- Changes a node of the tree. -/
def updateNode (p : Procedure) (id : NodeId) (change : Node → Node) : Procedure :=
  { p with root := { p.root with nodes := p.root.nodes.update id change } }

/-- Sets the context of the whole tree. -/
def setContext (p : Procedure) (c : Context) : Procedure := { p with root := p.root.setContext c }

/-- **Checks the expressions of all nodes.** -/
def check (p : Procedure) : Except Error Unit := p.root.nodes.check p.settings.expression

/-- **Links all references.** -/
def link (p : Procedure) : Except Error Unit × Procedure :=
  let (nodes, r) := p.root.nodes.link
  (r, { p with root := { p.root with nodes } })

/-- **Drops the references that mean no node**, and tells which. -/
def dropStale (p : Procedure) : List Forest.Stale × Procedure :=
  let (nodes, stale) := p.root.nodes.dropStale
  (stale, { p with root := { p.root with nodes } })

/-! ## Forms -/

/-- **The text of a procedure.** -/
def toText (p : Procedure) : String := p.root.text

/-- **The document of a procedure.** -/
def toJson (p : Procedure) : Json := p.root.toJson

/-- The document as JSON text. -/
def toJsonText (p : Procedure) : String := p.toJson.pretty

/-- The key of the nodes in a TOML document, which has to be a table. -/
def nodesKey : String := "nodes"

/-- **The document as TOML text.**  TOML has no form for what is missing in a document. -/
def toTomlText (p : Procedure) : Except Error String :=
  let members := [(nodesKey, p.toJson)]
  if Toml.areMembersExpressible members then .ok (Toml.pretty members)
  else .error (.serialization "unsupported unit type")

/-- A procedure as before, but without nodes. -/
def emptyRoot (p : Procedure) : Sequence := .root p.root.level.keyword p.root.level.context

/-- Takes over a tree that was read, once its references are linked.  After a failure the procedure
keeps the tree it had. -/
def takeOver (p : Procedure) : Except Error Sequence × NodeId → Except Error Unit × Procedure
  | (.error e, fresh) => (.error e, { p with fresh })
  | (.ok root, fresh) =>
    match root.nodes.link with
    | (_, .error e) => (.error e, { p with fresh })
    | (nodes, .ok ()) => (.ok (), { p with root := { root with nodes }, versions := [], fresh })

/-- **Reads a procedure from text.** -/
def readText (p : Procedure) (lookup : Lookup) (text : String) : Except Error Unit × Procedure :=
  p.takeOver (Sequence.ofText lookup p.emptyRoot p.fresh text)

/-- **Reads a procedure from a document.** -/
def readDocument (p : Procedure) (lookup : Lookup) (j : Json) : Except Error Unit × Procedure :=
  p.takeOver (Sequence.ofJson lookup p.emptyRoot p.fresh j)

/-- **Reads a procedure from JSON text.** -/
def readJson (p : Procedure) (lookup : Lookup) (text : String) : Except Error Unit × Procedure :=
  match Json.read? text with
  | some j => p.readDocument lookup j
  | none => (.error (.serialization Json.malformed), p)

/-- **Reads a procedure from TOML text.** -/
def readToml (p : Procedure) (lookup : Lookup) (text : String) : Except Error Unit × Procedure :=
  match Toml.read? text with
  | some j => p.readDocument lookup ((j.finite.get? nodesKey).getD (.array []))
  | none => (.error (.serialization Json.malformed), p)

/-! ## Running -/

/-- Whether the contents of a configuration are those of its last successful run. -/
def isUnchanged (p : Procedure) (c : Configuration) : Bool :=
  p.versions.lookup c.name == some c.version

/-- Notes the version of a configuration that was run. -/
def noteVersion (p : Procedure) (c : Configuration) : Procedure :=
  { p with versions := (c.name, c.version) :: p.versions.filter fun e => e.1 != c.name }

/-- **Runs a procedure over a configuration.** -/
def execute (p : Procedure) (configuration : Configuration) (results : Results) (folder : Folder)
    (pool : Pool Float) (group time : String) : RunReport :=
  if p.isUnchanged configuration then ⟨.ok .skipped, p, configuration, results, folder, []⟩
  else match p.link with
    | (.error e, p) =>
      ⟨.error (e.withContext "Resolving node references"), p, configuration, results, folder, []⟩
    | (.ok (), p) =>
      let job : Job := ⟨p.root.nodes, p.settings, pool, group, time⟩
      let (outcome, run) := job.run (.start configuration results folder)
      let p := { p with root := { p.root with nodes := run.install p.root.nodes } }
      let report := fun outcome p =>
        RunReport.mk outcome p run.configuration run.results run.folder run.events.reverse
      match outcome with
      | .error e => report (.error e) p
      | .ok () => report (.ok .executed) (p.noteVersion run.configuration)

end Procedure

end SiteAnalysis
