import SiteAnalysis.Run.Fitting
import SiteAnalysis.Run.Selection

/-! # The phases of a run

All nodes prepare, each before its branch; then the nodes of the root execute in order, and those
that own a branch run it; then all nodes finalise, each before its branch.  The first error ends
the run.
-/

namespace SiteAnalysis

/-- **How the execution of a node came out.** -/
inductive Outcome where
  | success
  /-- The node declined, and the rest of its list is left out. -/
  | declined
  deriving DecidableEq, Repr

namespace Node

/-- A recorder fails in the phase it is told to. -/
def refuse (n : Node) (r : Recorder) (p : Phase) : Step Unit :=
  if r.failsIn = some p then Step.fail n (.refused p.text) else return ()

/-- **Prepares a node.** -/
def prepare (n : Node) (job : Job) : Step Unit :=
  match n.kind with
  | .select blocks _ => n.prepareSelect blocks
  | .collect d => n.prepareCollect job d
  | .process _ => n.prepareSource
  | .fit _ _ => n.prepareFit
  | .recorder r => n.refuse r .prepare
  | _ => return ()

/-- Three scalars of a keyword as a vector. -/
def evaluateTriple (n : Node) (job : Job) (keyword : String) : Step (Vec3 Float) :=
  match n.keywords.triple? keyword with
  | none => Step.fail n (.keywordNotSet keyword)
  | some (x, y, z) => do
    return ⟨← job.evaluate n x, ← job.evaluate n y, ← job.evaluate n z⟩

/-- Puts the configuration into the cell of a node. -/
def executeBox (n : Node) (job : Job) : Step Unit := do
  let lengths ← n.evaluateTriple job "Lengths"
  let angles ← n.evaluateTriple job "Angles"
  match Cell.build lengths angles (!n.keywords.flag "NonPeriodic") with
  | .ok cell => modify fun run => { run with configuration := run.configuration.setCell cell }
  | .error (.invalidValue node keyword fault) => Step.fail n (.badCell node keyword fault)
  | .error e => Step.fail n (.other e.message)

/-- A limit or value of a node; one that is missing is zero. -/
def evaluateScalar (n : Node) (job : Job) (keyword : String) : Step Float :=
  match n.keywords.scalar? keyword with
  | some v => job.evaluate n v
  | none => return 0.0

/-- Runs the branch if a value lies within limits. -/
def executeIfInRange (n : Node) (job : Job) (branch : Step Outcome) : Step Unit := do
  let value ← n.evaluateScalar job "Value"
  let least ← n.evaluateScalar job "Min"
  let greatest ← n.evaluateScalar job "Max"
  if value < least || greatest < value then return ()
  discard branch

/-- Executes a recorder. -/
def executeRecorder (n : Node) (r : Recorder) (branch : Step Outcome) : Step Outcome := do
  n.refuse r .execute
  if r.declines then return .declined
  if (← branch) = .declined then Step.note (.declined n.id n.name)
  return .success

/-- **Executes a node**, given its branch. -/
def execute (n : Node) (job : Job) (branch : Step Outcome) : Step Outcome :=
  match n.kind with
  | .select blocks _ => do n.executeSelect job blocks (discard branch); return .success
  | .exclude => do return if ← n.standApart then .success else .declined
  | .distance | .angle | .vector => do n.measure; return .success
  | .collect d => do n.executeCollect job d (discard branch); return .success
  | .box => do n.executeBox job; return .success
  | .ifInRange => do n.executeIfInRange job branch; return .success
  | .recorder r => n.executeRecorder r branch
  | _ => return .success

/-- **Finalises a node.** -/
def finalise (n : Node) (job : Job) : Step Unit :=
  match n.kind with
  | .collect d => n.finaliseCollect job d
  | .process d => n.finaliseProcess job d
  | .fit _ _ => n.finaliseFit job
  | .recorder r => n.refuse r .finalise
  | _ => return ()

/-- Takes a node into a phase; an error is told with the node. -/
def enter {α : Type} (n : Node) (p : Phase) (title : String) (s : Step α) : Step α :=
  Step.within (title ++ " failed in " ++ n.type.keyword ++ " node '" ++ n.name ++ "'") do
    Step.note (.entered p n.id n.name)
    s

end Node

namespace Forest

/-- **Prepares all nodes**, each before its branch. -/
def prepare (f : Forest) (job : Job) : Step Unit :=
  f.nodes.forM fun n => n.enter .prepare "Prepare" (n.prepare job)

/-- **Executes a list of nodes** up to the first that declines. -/
def execute (job : Job) : Forest → Step Outcome
  | nil => return .success
  | cons n branch rest => do
    match ← n.enter .execute "Execute" (n.execute job (branch.execute job)) with
    | .declined => return .declined
    | .success => rest.execute job

/-- **Finalises all nodes**, each before its branch. -/
def finalise (f : Forest) (job : Job) : Step Unit :=
  f.nodes.forM fun n => n.enter .finalise "Finalise" (n.finalise job)

end Forest

/-- **Runs the tree of a job** through all phases. -/
def Job.run (job : Job) : Step Unit := do
  Step.within "Prepare phase" (job.tree.prepare job)
  discard (Step.within "Execute phase" (job.tree.execute job))
  Step.within "Finalise phase" (job.tree.finalise job)

namespace Run

/-- A node with what it found in a run. -/
def installNode (run : Run) (n : Node) : Node :=
  match n.kind with
  | .select blocks _ =>
    match run.chosen.find? n.id with
    | some sites => { n.setValue 0 (.int sites.length) with kind := .select blocks sites }
    | none => n
  | .fit _ _ =>
    match run.fits.find? n.id with
    | some (fitted, cost) => { n with kind := .fit fitted cost }
    | none => n
  | _ => n

/-- **The tree after a run**: selections and fits keep what they found. -/
def install (run : Run) (tree : Forest) : Forest := tree.map run.installNode

end Run

end SiteAnalysis
