import SiteAnalysis.Minimise.Choice
import SiteAnalysis.Node.Check
import SiteAnalysis.Run.Normalisation

/-! # Fitting equations

Nodes of the type `fit` vary some variables of an equation in `x` until it comes close to
reference data.
-/

namespace SiteAnalysis

namespace Node

/-- Prepares a fit: nothing is fitted yet. -/
def prepareFit (n : Node) : Step Unit := do
  modify fun run => { run with fits := run.fits.set n.id ([], none) }
  n.prepareSource
  match n.equation with
  | .ok _ => return ()
  | .error e => throw e

/-- The data that the equation is fitted to: those the source stored under its own name, or else
the average of its histogram. -/
def referenceData (n : Node) (job : Job) : Step (Grid Float) := do
  let (source, _) ← n.requireTarget "SourceData" (n.keywords.node? "SourceData")
  let run ← get
  let name := run.dataName source.name
  match run.results.find? (job.key name) with
  | some (.data g) => if g.axes.length = 1 then return g else histogramData run name
  | _ => histogramData run name
where
  /-- The average of the histogram that belongs to data. -/
  histogramData (run : Run) (name : String) : Step (Grid Float) :=
    match run.results.histogram (job.key (binsName name)) 1 with
    | .ok h => return h.data
    | .error e => throw e

end Node

/-- **An equation with the data it is fitted to.** -/
structure FitProblem where
  limits : Expression.Limits
  source : String
  equation : Expression.Expr
  data : Grid Float
  /-- The variables of the equation for a place and values of the fitted variables. -/
  bindings : Float → List Float → Expression.Bindings

namespace FitProblem

/-- The value of the equation at a place. -/
def valueAt (p : FitProblem) (values : List Float) (x : Float) :
    Except Expression.Problem Float :=
  p.limits.evaluate p.source p.equation (p.bindings x values)

/-- The sum of the squares of the differences at all places. -/
def squares (p : FitProblem) (values : List Float) : Except Expression.Problem Float :=
  (List.zip p.data.firstAxis p.data.values.toList).foldlM (fun sum (x, y) => do
    let d := (← p.valueAt values x) - y
    return sum + d * d) 0.0

/-- **How far the equation is from the data**: the root of the mean square. -/
def rootMeanSquare (p : FitProblem) (values : List Float) : Except Expression.Problem Float := do
  return Float.sqrt ((← p.squares values) / Float.ofNat p.data.values.size)

/-- The cost of values; values for which the equation fails cost more than all others. -/
def cost (p : FitProblem) (values : List Float) : Float :=
  match p.rootMeanSquare values with
  | .ok x => x
  | .error _ => 1.0 / 0.0

/-- The values of the equation over the places of the data. -/
def curve (p : FitProblem) (values : List Float) : Except Expression.Problem (Grid Float) :=
  p.data.firstAxis.foldlM (fun g x => do return g.addPoint x (← p.valueAt values x)) (.empty 1)

end FitProblem

namespace Node

/-- The fit of a node, as things stand. -/
def fitProblem (n : Node) (job : Job) : Step FitProblem := do
  let data ← n.referenceData job
  if data.values.isEmpty then Step.fail n .noReferenceData
  let source ← match n.equation with
    | .ok source => pure source
    | .error e => throw e
  let limits := job.settings.expression
  let equation ← match limits.compile source with
    | .ok e => pure e
    | .error fault => throw (.expression (.uncompiled source fault))
  let scope := (← get).bindings job.tree n.id
  return ⟨limits, source, equation, data, fun x values => n.equationBindings x values scope⟩

/-- The minimiser of a node. -/
def minimiser (n : Node) : MinimiserKind :=
  (MinimiserKind.ofKeyword? (n.keywords.option "Minimiser")).getD .simplex

/-- **Fits the equation** and stores the curve. -/
def finaliseFit (n : Node) (job : Job) : Step Unit := do
  let problem ← n.fitProblem job
  let found ← match n.minimiser.minimise job.settings.minimiser problem.cost n.startingValues with
    | .ok found => pure found
    | .error e => throw e
  let values := found.best.point
  if !found.best.cost.isFinite then
    match problem.rootMeanSquare values with
    | .ok _ => Step.fail n (.fitFailed none)
    | .error fault => Step.fail n (.fitFailed (some fault))
  let output := (← get).dataName n.name
  let curve ← match problem.curve values with
    | .ok curve => pure { curve with tag := output }
    | .error fault => throw (.expression fault)
  let fitted := (List.zip (n.keywords.targets "Fit") values).map fun ((name, _), v) => (name, v)
  modify fun run => { run with fits := run.fits.set n.id (fitted, some found.best.cost) }
  if n.keywords.flag "Save" && job.pool.isMaster then
    job.save (output ++ ".fit") (curve.columns (
      ["Equation: " ++ problem.source] ++
      (fitted.map fun (name, v) => name ++ " = " ++ Layout.scientific.text v) ++
      ["RMS error = " ++ Layout.scientific.text found.best.cost]))
  modify fun run => { run with results := run.results.insert (job.key output) (.data curve) }

end Node

end SiteAnalysis
