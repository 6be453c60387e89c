import Std.Data.HashSet
import SiteAnalysis.Run.State

/-! # Selecting sites

A selection gathers the sites its keywords and its blocks offer, leaves out those that other
selections exclude, and goes through the rest one by one.
-/

namespace SiteAnalysis

/-- The sites that were not offered before, each once, in order. -/
def firstOffers (seen : Std.HashSet Nat) : List Site → List Site
  | [] => []
  | s :: rest =>
    if seen.contains s.index then firstOffers seen rest
    else s :: firstOffers (seen.insert s.index) rest

/-- **What a selection asks of a site.** -/
structure Criteria where
  /-- Sites whose molecules are excluded. -/
  otherMolecules : List Site
  /-- Sites that are excluded. -/
  otherSites : List Site
  /-- The molecule a site has to belong to. -/
  molecule : Option Nat
  /-- A point, and the least and greatest distance from it. -/
  window : Option (Vec3 Float × Float × Float)

namespace Criteria

/-- Whether a site lies in the window, if there is one. -/
def isNear (c : Criteria) (cell : Cell Float) (s : Site) : Bool :=
  match c.window with
  | none => true
  | some (origin, least, greatest) =>
    let r := cell.minimumDistance origin s.origin
    !(r < least || greatest < r)

/-- **Whether a site is selected.** -/
def admits (c : Criteria) (cell : Cell Float) (s : Site) : Bool :=
  !(c.otherSites.any fun o => o.index == s.index) &&
  !(c.otherMolecules.any fun o => o.molecule == s.molecule) &&
  (c.molecule.all fun m => m == s.molecule) && c.isNear cell s

end Criteria

namespace Node

/-- The sites at which the selections of a keyword stand; those that stand nowhere do not count. -/
def heldSites (n : Node) (run : Run) (keyword : String) : List Site :=
  (n.keywords.nodes keyword).filterMap run.currentSite?

/-- A limit of the distance, if it is set. -/
def distanceLimit (n : Node) (job : Job) (keyword : String) (otherwise : Float) : Step Float :=
  match n.keywords.scalar? keyword with
  | some v => if n.keywords.isSet keyword then job.evaluate n v else return otherwise
  | none => return otherwise

/-- What a selection asks of its sites, as the other selections stand. -/
def criteria (n : Node) (job : Job) : Step Criteria := do
  let run ← get
  let molecule ← match n.keywords.node? "SameMoleculeAsSite" with
    | some r => do pure (some (← n.requireSite r).molecule)
    | none => pure none
  let window ← match n.keywords.node? "ReferenceSite" with
    | some r => do
      let site ← n.requireSite r
      let least ← n.distanceLimit job "MinDistance" 0.0
      let greatest ← n.distanceLimit job "MaxDistance" (1.0 / 0.0)
      pure (some (site.origin, least, greatest))
    | none => pure none
  return {
    otherMolecules := n.heldSites run "ExcludeSameMolecule"
    otherSites := n.heldSites run "ExcludeSameSite"
    molecule, window }

/-- The sites offered to a selection: those of its keywords, then those of its blocks. -/
def offers (n : Node) (blocks : List DynamicSite) (c : Configuration) : List Site :=
  ((n.keywords.sites "Site").flatMap fun (species, site) => c.sitesOf species site) ++
    blocks.flatMap fun b => b.sites c

/-- **The sites of a selection.** -/
def selection (n : Node) (job : Job) (blocks : List DynamicSite) : Step (List Site) := do
  let criteria ← n.criteria job
  let c := (← get).configuration
  return (firstOffers ∅ (n.offers blocks c)).filter (criteria.admits c.cell)

/-- Prepares a selection: it has chosen nothing, and stands nowhere. -/
def prepareSelect (n : Node) (blocks : List DynamicSite) : Step Unit := do
  if blocks.any DynamicSite.isEmpty then Step.fail n .emptyDynamicSite
  modify fun run => { run with
    chosen := run.chosen.set n.id []
    counts := run.counts.set n.id .zero
    current := run.current.erase n.id }

/-- **Makes a selection** and runs the branch once for every site. -/
def executeSelect (n : Node) (job : Job) (blocks : List DynamicSite) (branch : Step Unit) :
    Step Unit := do
  let sites ← n.selection job blocks
  modify fun run => { run with
    chosen := run.chosen.set n.id sites
    counts := run.counts.set n.id ((run.count n.id).record sites.length) }
  for site in sites do
    modify fun run => { run with current := run.current.set n.id site }
    branch
  modify fun run => { run with current := run.current.erase n.id }

end Node

end SiteAnalysis
