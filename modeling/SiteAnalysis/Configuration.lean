import SiteAnalysis.Catalogue
import SiteAnalysis.Geometry.Cell
import SiteAnalysis.Text.Argument

/-! # Configurations

A configuration is a snapshot of a system: sites of molecules in a cell.  A version number counts
the changes of its contents.
-/

namespace SiteAnalysis

open Json (Fragment)

/-- **The measures of a cell** as documents give them. -/
structure CellMeasures where
  lengths : Vec3 Float
  angles : Vec3 Float
  nonPeriodic : Bool

namespace CellMeasures

/-- The measures of a cell. -/
def ofCell (c : Cell Float) : CellMeasures := ⟨c.lengths, c.angles, !c.periodic⟩

/-- Builds the cell of the measures. -/
def build (m : CellMeasures) : Except Error (Cell Float) :=
  Cell.build m.lengths m.angles (!m.nonPeriodic)

/-- Three numbers as a vector. -/
def decodeVector (f : Fragment) : Except String (Vec3 Float) := do
  let (x, y, z) ← f.decodeTriple
  return ⟨x, y, z⟩

/-- **Decodes the measures of a cell.** -/
def decode (f : Fragment) : Except String CellMeasures := do
  let fields ← f.decodeRecord .json ["lengths", "angles", "non_periodic"]
  let lengths ← Json.requiredField fields "lengths" decodeVector
  let angles ← Json.optionalField fields "angles" decodeVector Cell.rightAngles
  let nonPeriodic ← Json.optionalField fields "non_periodic" Fragment.decodeBool false
  return ⟨lengths, angles, nonPeriodic⟩

/-- The measures as a document. -/
def toJson (m : CellMeasures) : Json :=
  .object [("lengths", .array (m.lengths.toList.map Json.float)),
    ("angles", .array (m.angles.toList.map Json.float)), ("non_periodic", .bool m.nonPeriodic)]

end CellMeasures

/-- Decodes a cell; what is wrong with its measures is said in words. -/
def decodeCell (f : Fragment) : Except String (Cell Float) := do
  let measures ← CellMeasures.decode f
  measures.build.mapError Error.message

/-- **A site** in a configuration. -/
structure Site where
  /-- The place of the site in its configuration, by which it is known. -/
  index : Nat
  molecule : Nat
  origin : Vec3 Float

/-- A site as it is recorded, with the names it goes by. -/
structure SiteRecord where
  species : String
  site : String
  molecule : Nat
  origin : Vec3 Float

namespace SiteRecord

/-- Decodes a point. -/
def decodePoint (f : Fragment) : Except String (Vec3 Float) := do
  let fields ← f.decodeRecord .json ["x", "y", "z"]
  let x ← Json.requiredField fields "x" Fragment.decodeFloat
  let y ← Json.requiredField fields "y" Fragment.decodeFloat
  let z ← Json.requiredField fields "z" Fragment.decodeFloat
  return ⟨x, y, z⟩

/-- Decodes a record. -/
def decode (f : Fragment) : Except String SiteRecord := do
  let fields ← f.decodeRecord .json ["species", "site", "molecule", "origin"]
  let species ← Json.requiredField fields "species" Fragment.decodeText
  let site ← Json.requiredField fields "site" Fragment.decodeText
  let molecule ← Json.requiredField fields "molecule" Fragment.decodeIndex
  let origin ← Json.requiredField fields "origin" decodePoint
  return ⟨species, site, molecule, origin⟩

/-- The record as a document. -/
def toJson (r : SiteRecord) : Json :=
  .object [("species", .text r.species), ("site", .text r.site), ("molecule", .int r.molecule),
    ("origin", .object [("x", .float r.origin.x), ("y", .float r.origin.y),
      ("z", .float r.origin.z)])]

/-- The site of a record at a place. -/
def toSite (index : Nat) (r : SiteRecord) : Site := ⟨index, r.molecule, r.origin⟩

end SiteRecord

/-- **A snapshot of a system.** -/
structure Configuration where
  name : String
  cell : Cell Float
  records : List SiteRecord
  /-- Grows with every change of the contents. -/
  version : Nat

namespace Configuration

/-- A configuration without sites. -/
def ofCell (name : String) (cell : Cell Float) : Configuration := ⟨name, cell, [], 0⟩

/-- The name in a form fit for keys of results. -/
def niceName (c : Configuration) : String := SiteAnalysis.niceName c.name

/-- Counts a change; the counter has 64 bits. -/
def changed (c : Configuration) : Configuration :=
  { c with version := (c.version + 1) % 0x10000000000000000 }

/-- The configuration in another cell. -/
def setCell (c : Configuration) (cell : Cell Float) : Configuration := { c with cell }.changed

/-- The configuration with one more site. -/
def addSite (c : Configuration) (r : SiteRecord) : Configuration :=
  { c with records := c.records ++ [r] }.changed

/-- The sites whose records satisfy a test, with the place of the first record given. -/
def sitesFrom (p : SiteRecord → Bool) : Nat → List SiteRecord → List Site
  | _, [] => []
  | i, r :: rest => if p r then r.toSite i :: sitesFrom p (i + 1) rest else sitesFrom p (i + 1) rest

/-- **The sites whose records satisfy a test**, in order. -/
def sitesWhere (c : Configuration) (p : SiteRecord → Bool) : List Site := sitesFrom p 0 c.records

/-- The sites of a name on a species. -/
def sitesOf (c : Configuration) (species site : String) : List Site :=
  c.sitesWhere fun r => sameName r.species species && sameName r.site site

/-- **The catalogue of the species and sites that occur**, in the order of their first
occurrence. -/
def catalogue (c : Configuration) : Catalogue :=
  ⟨c.records.foldl (fun species r => Catalogue.addSite r.species r.site species) []⟩

/-- A configuration while it is decoded. -/
structure Draft where
  name : Option String := none
  cell : Option (Cell Float) := none
  records : Option (List SiteRecord) := none
  version : Option Nat := none

/-- Sets a part of a draft, which must not be set already. -/
def Draft.fill {α : Type} (part : Option α) (decode : Fragment → Except String α)
    (f : Fragment) : Except String (Option α) :=
  match part with
  | some _ => .error Json.malformed
  | none => (decode f).map some

/-- Takes up a field.  The first fault in the order of the document is the one that counts. -/
def Draft.take (d : Draft) (field : String × Fragment) : Except String Draft :=
  match field.1 with
  | "name" => do return { d with name := ← fill d.name Fragment.decodeText field.2 }
  | "box" => do return { d with cell := ← fill d.cell decodeCell field.2 }
  | "sites" => do
    return { d with records := ← fill d.records (Fragment.decodeList SiteRecord.decode) field.2 }
  | "contents_version" => do
    return { d with version := ← fill d.version Fragment.decodeIndex field.2 }
  | _ => return d

/-- **Decodes a configuration.**  The fields before a fault come first. -/
def decode (f : Fragment) : Except String Configuration := do
  let r := f.toRecord .json ["name", "box", "sites", "contents_version"]
  let d ← r.fields.foldlM Draft.take {}
  match r.complete, d.name, d.cell with
  | true, some name, some cell => return ⟨name, cell, d.records.getD [], d.version.getD 0⟩
  | _, _, _ => .error Json.malformed

/-- The configuration as a document. -/
def toJson (c : Configuration) : Json :=
  .object [("name", .text c.name), ("box", (CellMeasures.ofCell c.cell).toJson),
    ("sites", .array (c.records.map SiteRecord.toJson)), ("contents_version", .int c.version)]

end Configuration

end SiteAnalysis
