import SiteAnalysis.Json.Decode
import SiteAnalysis.Text.Case

/-! # Catalogues of species

A catalogue lists the species of a system and the sites each of them has.  Names are found without
regard to case, and the first match counts.
-/

namespace SiteAnalysis

open Json (Fragment)

/-- **A species** with the names of its sites. -/
structure Species where
  name : String
  sites : List String
  deriving DecidableEq, Repr

/-- **The species of a system.** -/
structure Catalogue where
  species : List Species
  deriving DecidableEq, Repr, Inhabited

namespace Catalogue

/-- A catalogue without species. -/
def empty : Catalogue := ⟨[]⟩

/-- The species of a name. -/
def findSpecies? (c : Catalogue) (name : String) : Option Species :=
  c.species.find? fun s => sameName s.name name

/-- **A site of a species**, both by the names of the catalogue. -/
def findSite? (c : Catalogue) (species site : String) : Option (String × String) := do
  let s ← c.findSpecies? species
  let name ← s.sites.find? fun t => sameName t site
  return (s.name, name)

/-- The first site of a name in any species. -/
def findSiteName? (c : Catalogue) (name : String) : Option String :=
  (c.species.flatMap Species.sites).find? fun t => sameName t name

/-- The catalogue with one more site, unless it is there already. -/
def addSite (species site : String) : List Species → List Species
  | [] => [⟨species, [site]⟩]
  | s :: rest =>
    if sameName s.name species then
      (if s.sites.any fun t => sameName t site then s else { s with sites := s.sites ++ [site] })
        :: rest
    else s :: addSite species site rest

/-- Decodes a species. -/
def decodeSpecies (f : Fragment) : Except String Species := do
  let fields ← f.decodeRecord .json ["name", "sites"]
  let name ← Json.requiredField fields "name" Fragment.decodeText
  let sites ← Json.optionalField fields "sites" (Fragment.decodeList Fragment.decodeText) []
  return ⟨name, sites⟩

/-- **Decodes a catalogue.** -/
def decode (f : Fragment) : Except String Catalogue := do
  let fields ← f.decodeRecord .json ["species"]
  let species ← Json.optionalField fields "species" (Fragment.decodeList decodeSpecies) []
  return ⟨species⟩

end Catalogue

end SiteAnalysis
