import SiteAnalysis.Procedure

/-! # Workbenches

A workbench is where a procedure is put together and tried out.  It holds nodes that are not in
the tree, each under a handle, and the configurations and results of runs.  Where a node is asked
for by name, the tree is searched first and the handles after it.
-/

namespace SiteAnalysis

/-- **A workbench.** -/
structure Workbench where
  lookup : Lookup
  procedure : Procedure
  /-- Nodes that are not in the tree, with their handles. -/
  held : List (String × Subtree)
  configurations : List Configuration
  results : Results
  folder : Folder
  /-- What recorders noted in runs. -/
  log : List String

namespace Workbench

/-- A workbench with nothing on it but a procedure and configurations. -/
def start (lookup : Lookup) (procedure : Procedure) (configurations : List Configuration) :
    Workbench :=
  ⟨lookup, procedure, [], configurations, .empty, .empty, []⟩

/-- The tree of the procedure. -/
def tree (w : Workbench) : Forest := w.procedure.root.nodes

/-- **The node of a name or handle**, with its branch. -/
def find? (w : Workbench) (name : String) : Option Subtree :=
  match w.tree.search? name none .any with
  | some n => w.tree.subtree? n.id
  | none => w.held.lookup name

/-- The identity of the node of a name or handle. -/
def idOf (w : Workbench) (name : String) : NodeId :=
  ((w.find? name).map fun t => t.node.id).getD .invalid

/-- Changes the node of a name or handle. -/
def change (w : Workbench) (name : String) (f : Node → Node) : Workbench :=
  match w.tree.search? name none .any with
  | some n => { w with procedure := w.procedure.updateNode n.id f }
  | none => { w with held := w.held.map fun (h, t) =>
      if h == name then (h, { t with node := f t.node }) else (h, t) }

/-- Lets go of what is held under a handle. -/
def release (w : Workbench) (handle : String) : Workbench :=
  { w with held := w.held.filter fun e => e.1 != handle }

/-- Holds a node under a handle. -/
def hold (w : Workbench) (handle : String) (t : Subtree) : Workbench :=
  { w with held := (handle, t) :: (w.release handle).held }

/-- **Makes a node of a type.** -/
def make (w : Workbench) (type : String) : Except Error (Node × Workbench) :=
  (w.lookup.registry.typeOf type).map fun t =>
    let (n, procedure) := w.procedure.makeNode fun id => .ofType id t
    (n, { w with procedure })

/-- Makes a recorder. -/
def makeRecorder (w : Workbench) (r : Recorder) : Node × Workbench :=
  let (n, procedure) := w.procedure.makeNode fun id => .recorder id r
  (n, { w with procedure })

/-- Moves what is held under a handle into the branch of a node.  The answer is the name it has
then; none if nothing is held or there is no branch. -/
def moveInto (w : Workbench) (t : Subtree) (handle : String) :
    Option (Except Error String) × Subtree × Workbench :=
  match w.held.lookup handle with
  | none => (none, t, w)
  | some child =>
    match t.append? child with
    | none => (none, t, w.release handle)
    | some (.error e) => (some (.error e), t, w.release handle)
    | some (.ok t) => (some (.ok (nameIn t.branch child)), t, w.release handle)
where
  /-- The name of a node that was placed in a forest. -/
  nameIn (f : Forest) (t : Subtree) : String := ((f.find? t.node.id).map Node.name).getD ""

/-- Moves what is held under some handles into the branch of a node. -/
def moveAll : List String → Workbench → Subtree →
    List (Option (Except Error String)) × Subtree × Workbench
  | [], w, t => ([], t, w)
  | handle :: rest, w, t =>
    let (answer, t, w) := w.moveInto t handle
    let (answers, t, w) := moveAll rest w t
    (answer :: answers, t, w)

/-- **Appends what is held under a handle** to the root, or to the branch of a node.  The answer is
the name it has then; none if nothing is held. -/
def append (w : Workbench) (handle : String) (owner : Option String) (index : Option Nat) :
    Option (Except Error String) × Workbench :=
  match w.held.lookup handle with
  | none => (none, w)
  | some t =>
    let placed := match owner with
      | none => w.procedure.append t index
      | some owner => w.procedure.appendToBranch (w.idOf owner) t index
    let w := w.release handle
    match placed with
    | .error e => (some (.error e), w)
    | .ok procedure =>
      (some (.ok (moveInto.nameIn procedure.root.nodes t)), { w with procedure })

/-- Takes a node out of the tree and holds it under a handle. -/
def remove (w : Workbench) (name handle : String) : Option (Node × Workbench) :=
  (w.procedure.removeNode (w.idOf name)).map fun (t, procedure) =>
    (t.node, { w with procedure }.hold handle t)

/-- What a recorder notes of an event. -/
def noteOf (f : Forest) (e : Event) : Option String :=
  let isRecorder := fun id => (f.find? id).any fun n => n.kind matches .recorder _
  match e with
  | .entered phase id name => if isRecorder id then some (phase.text ++ " " ++ name) else none
  | .declined _ name => some ("declined " ++ name)

/-- **Runs the procedure** over a configuration. -/
def execute (w : Workbench) (index : Nat) (c : Configuration) (pool : Pool Float)
    (group time : String) : Except Error RunOutcome × Workbench :=
  let r := w.procedure.execute c w.results w.folder pool group time
  (r.outcome, { w with
    procedure := r.procedure
    configurations := w.configurations.set index r.configuration
    results := r.results
    folder := r.folder
    log := w.log ++ r.events.filterMap (noteOf r.procedure.root.nodes) })

end Workbench

end SiteAnalysis
