import SiteAnalysis.Run.Collection

/-! # Normalising collected data

Nodes of the types `process` take the average of a histogram, divide it as their keywords say, and
store the outcome.
-/

namespace SiteAnalysis

/-- Volume of the shell between two radii. -/
def shellVolume (r₁ r₂ : Float) : Float :=
  4.0 / 3.0 * Arith.pi * (r₂ * r₂ * r₂ - r₁ * r₁ * r₁)

/-- Data over an axis, each value divided by the volume of the shell of its bin. -/
def divideByShells (axis : Axis Float) (data : Grid Float) : Grid Float :=
  { data with values := data.values.mapIdx fun bin value =>
      let r := axis.minimum + Float.ofNat bin * axis.width
      value / shellVolume r (r + axis.width) }

namespace Node

/-- The mean number of sites of a selection, which has to be positive. -/
def population (n : Node) (keyword : String) (r : NodeRef) : Step Float := do
  let (_, id) ← n.requireTarget keyword (some r)
  let mean := ((← get).count id).average
  if mean ≤ 0.0 then Step.fail n (.noPopulation r.name) else return mean

/-- A process node needs its source. -/
def prepareSource (n : Node) : Step Unit :=
  if (n.keywords.node? "SourceData").isNone then Step.fail n (.keywordNotSet "SourceData")
  else return ()

/-- Data divided by the mean numbers of sites, and by number densities. -/
def divideByPopulations (n : Node) (data : Grid Float) : Step (Grid Float) := do
  let data ← (n.keywords.nodes "NSites").foldlM (fun data r => do
    return data.divide (← n.population "NSites" r)) data
  let volume := (← get).configuration.cell.volume
  (n.keywords.nodes "NumberDensity").foldlM (fun data r => do
    return data.divide ((← n.population "NumberDensity" r) / volume)) data

/-- Data divided by the factor of a node, if it is set. -/
def divideByFactor (n : Node) (job : Job) (data : Grid Float) : Step (Grid Float) := do
  match (n.keywords.scalar? "Factor").filter fun _ => n.keywords.isSet "Factor" with
  | none => return data
  | some v =>
    let factor ← job.evaluate n v
    if factor == 0.0 || !factor.isFinite then Step.fail n (.badFactor factor)
    else return data.divide factor

/-- Data with a sum of one, unless the sum is zero. -/
def normaliseToOne (data : Grid Float) : Grid Float :=
  let sum := data.sum
  if sum == 0.0 then data else data.divide sum

/-- **Normalises the data of the source** and stores them. -/
def finaliseProcess (n : Node) (job : Job) (d : Dimension) : Step Unit := do
  let (source, _) ← n.requireTarget "SourceData" (n.keywords.node? "SourceData")
  let run ← get
  let histogram ← match run.results.histogram (job.key (binsName (run.dataName source.name)))
      d.toNat with
    | .ok h => pure h
    | .error e => throw e
  let data ← n.divideByPopulations histogram.data
  let data := match histogram.axes with
    | [axis] => if n.keywords.flag "SphericalShellVolume" then divideByShells axis data else data
    | _ => data
  let data ← n.divideByFactor job data
  let data := if n.keywords.flag "NormaliseToOne" then normaliseToOne data else data
  let output := run.dataName n.name
  let data := { data with tag := output }
  if n.keywords.flag "Save" && job.pool.isMaster then
    let labels := (d.axisNames.map fun a => n.keywords.text ("Label" ++ a)) ++
      [n.keywords.text "LabelValue"]
    job.save (output ++ ".txt")
      (data.columns [output ++ " written " ++ job.time, String.intercalate "  " labels])
  modify fun run => { run with results := run.results.insert (job.key output) (.data data) }

end Node

end SiteAnalysis
