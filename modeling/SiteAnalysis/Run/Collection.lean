import SiteAnalysis.Run.State

/-! # Measuring and collecting

Nodes of the types `distance`, `angle` and `vector` measure an observable between the sites at
which selections stand.  Nodes of the types `collect` count observables in histograms, which they
keep in the results.
-/

namespace SiteAnalysis

/-- Changes the histogram under a key. -/
def Results.mapHistogram (s : Results) (key : ResultKey)
    (f : Histogram Float → Histogram Float) : Results :=
  ⟨s.entries.map fun (k, item) =>
    if k = key then (k, match item with
      | .histogram h => .histogram (f h)
      | item => item)
    else (k, item)⟩

/-- The histogram of some dimensions under a key. -/
def Results.histogram (s : Results) (key : ResultKey) (dimensions : Nat) :
    Except Error (Histogram Float) :=
  match s.retrieve key (.histogram dimensions) with
  | .ok (.histogram h) => .ok h
  | .ok _ => .error (.missingResult key.name key.group)
  | .error e => .error e

namespace Node

/-! ## Measuring -/

/-- The points between which a node measures. -/
def origins (n : Node) : Step (List (Vec3 Float)) :=
  n.type.siteKeywords.mapM fun keyword => do
    let site ← n.requireSite ((n.keywords.node? keyword).getD (.named ""))
    return site.origin

/-- Publishes an observable. -/
def publish (n : Node) (values : List Float) : Step Unit :=
  modify fun run => { run with observed := run.observed.set n.id values }

/-- **Measures an observable.** -/
def measure (n : Node) : Step Unit := do
  let points ← n.origins
  let cell := (← get).configuration.cell
  match n.kind, points with
  | .distance, [i, j] => n.publish [cell.minimumDistance i j]
  | .angle, [i, j, k] => n.publish [cell.angle i j k]
  | .vector, [i, j] => n.publish (cell.minimumVector i j).toList
  | _, _ => return ()

/-- Whether two of some sites are the same. -/
def hasRepeat : List Nat → Bool
  | [] => false
  | i :: rest => rest.contains i || hasRepeat rest

/-- **Whether the selections of a node stand at different sites.** -/
def standApart (n : Node) : Step Bool := do
  let held ← (n.keywords.nodes "SameSite").mapM fun r => do return (← n.requireSite r).index
  return !hasRepeat held

/-! ## Collecting -/

/-- The axes of the histogram of a node. -/
def histogramAxes (n : Node) (d : Dimension) : List (Axis Float) :=
  d.axisNames.map fun a =>
    let r := (n.keywords.range? ("Range" ++ a)).getD .standard
    .ofRange r.minimum r.maximum r.width

/-- The key of the histogram of a node. -/
def binsKey (n : Node) (job : Job) (run : Run) : ResultKey :=
  job.key (binsName (run.dataName n.name))

/-- **Prepares a collection**: its histogram is there, has the right axes, and begins a pass. -/
def prepareCollect (n : Node) (job : Job) (d : Dimension) : Step Unit := do
  for a in d.axisNames do
    if (n.keywords.observable? ("Quantity" ++ a)).isNone then
      Step.fail n (.keywordNotSet ("Quantity" ++ a))
  let run ← get
  let key := n.binsKey job run
  let axes := n.histogramAxes d
  let fresh : Histogram Float := .ofAxes axes
  let (found, results) := run.results.realise key (.histogram fresh)
  match found with
  | .error e => throw e
  | .ok _ => set { run with results := results.mapHistogram key (·.beginPass axes) }

/-- The value of an observable that a node collects. -/
def quantity (n : Node) (keyword : String) : Step Float := do
  let given := n.keywords.observable? keyword
  let (r, id) ← n.requireTarget keyword (given.map Prod.fst)
  let index := (given.map Prod.snd).getD 0
  let observed := (← get).observed.find? id
  Step.orFail n (.noObservable r.name index) (observed.bind fun values => values[index]?)

/-- **Counts the present observables** and runs the branch if they lie on the axes. -/
def executeCollect (n : Node) (job : Job) (d : Dimension) (branch : Step Unit) : Step Unit := do
  let values ← d.axisNames.mapM fun a => n.quantity ("Quantity" ++ a)
  let key := n.binsKey job (← get)
  let binned ← match (← get).results.histogram key d.toNat with
    | .ok h => pure (Histogram.place h.axes values).isSome
    | .error e => throw e
  modify fun run => { run with results := run.results.mapHistogram key fun h => (h.bin values).2 }
  if binned then branch

/-- **Ends a pass of a collection.** -/
def finaliseCollect (n : Node) (job : Job) (d : Dimension) : Step Unit := do
  let run ← get
  let key := n.binsKey job run
  match run.results.histogram key d.toNat with
  | .error e => throw e
  | .ok h =>
    match h.endPass job.pool with
    | .error e => throw e
    | .ok h => set { run with results := run.results.insert key (.histogram h) }

end Node

end SiteAnalysis
