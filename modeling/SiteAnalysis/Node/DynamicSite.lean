import SiteAnalysis.Configuration
import SiteAnalysis.Keyword.Store

/-! # Blocks of dynamic sites

A selection may hold blocks that add sites to its own.  A block lists names of sites, which count
for every species, and species, all of whose sites count.
-/

namespace SiteAnalysis

/-- The two lists of a block. -/
inductive SourceList where
  | siteNames
  | species
  deriving DecidableEq, Repr

namespace SourceList

/-- The keyword of a list. -/
def keyword : SourceList → String
  | siteNames => "SiteName"
  | species => "Species"

/-- The list a keyword means; case does not count. -/
def ofKeyword? (s : String) : Option SourceList :=
  [siteNames, species].find? fun l => sameName l.keyword s

end SourceList

/-- **A block of dynamic sites.** -/
structure DynamicSite where
  siteNames : List String
  species : List String
  deriving DecidableEq, Repr

namespace DynamicSite

/-- A block that lists nothing. -/
def empty : DynamicSite := ⟨[], []⟩

/-- Whether a block lists nothing. -/
def isEmpty (d : DynamicSite) : Bool := d.siteNames.isEmpty && d.species.isEmpty

/-- The names in one of the lists. -/
def names (d : DynamicSite) : SourceList → List String
  | .siteNames => d.siteNames
  | .species => d.species

/-- The block with one more name in one of the lists. -/
def push (d : DynamicSite) (name : String) : SourceList → DynamicSite
  | .siteNames => { d with siteNames := d.siteNames ++ [name] }
  | .species => { d with species := d.species ++ [name] }

/-- The name in the catalogue that a name given for a list means. -/
def canonical (catalogue : Catalogue) (name : String) : SourceList → Except ArgumentFault String
  | .siteNames =>
    match catalogue.findSiteName? name with
    | some found => .ok found
    | none => .error (.undefinedSiteName name)
  | .species =>
    match catalogue.findSpecies? name with
    | some found => .ok found.name
    | none => .error (.unknownSpecies name)

/-- **Adds a name to one of the lists.**  It has to be in the catalogue, and not in the list. -/
def addName (d : DynamicSite) (catalogue : Catalogue) (list : SourceList) (name : String) :
    Except Error DynamicSite :=
  match canonical catalogue name list with
  | .error fault => .error (.invalidArgument list.keyword fault)
  | .ok found =>
    if (d.names list).any fun n => sameName n found then
      .error (.invalidArgument list.keyword (.repeatedName found))
    else .ok (d.push found list)

/-- Adds one name after the other; those before one at fault stay. -/
def addEach (catalogue : Catalogue) (list : SourceList) :
    List String → DynamicSite → Except Error Unit × DynamicSite
  | [], d => (.ok (), d)
  | name :: rest, d =>
    match d.addName catalogue list name with
    | .ok d => addEach catalogue list rest d
    | .error e => (.error e, d)

/-- Adds the names given under a keyword, of which there has to be one. -/
def addNames (d : DynamicSite) (catalogue : Catalogue) (keyword : String) (list : SourceList)
    (names : List String) : Except Error Unit × DynamicSite :=
  if names.isEmpty then (.error (.argumentCount keyword "1 or more" 0), d)
  else addEach catalogue list names d

/-- **Reads a line** of a block. -/
def readLine (d : DynamicSite) (keyword : String) (values : List String) (catalogue : Catalogue) :
    ReadOutcome × DynamicSite :=
  match SourceList.ofKeyword? keyword with
  | none => (.unrecognised, d)
  | some list =>
    match d.addNames catalogue keyword list values with
    | (.ok (), d) => (.success, d)
    | (.error e, d) => (.failed e, d)

/-- **The lines of a block.** -/
def lines (d : DynamicSite) : List String :=
  [SourceList.siteNames, .species].filterMap fun list =>
    if (d.names list).isEmpty then none
    else some (String.intercalate "  " (list.keyword :: (d.names list).map quote))

/-- **Reads a member** of the document of a block; `false` if it is none of the lists. -/
def readMember (d : DynamicSite) (key : String) (j : Json) (catalogue : Catalogue) :
    Except Error Bool × DynamicSite :=
  match SourceList.ofKeyword? key with
  | none => (.ok false, d)
  | some list =>
    match j.array?.bind fun items => items.mapM Json.text? with
    | none => (.error (.invalidArgument key .notNames), d)
    | some names =>
      let (r, d) := d.addNames catalogue key list names
      (r.map fun _ => true, d)

/-- **The members of the document** of a block. -/
def toMembers (d : DynamicSite) : List (String × Json) :=
  [SourceList.siteNames, .species].filterMap fun list =>
    if (d.names list).isEmpty then none else some (list.keyword, .texts (d.names list))

/-- **The sites of a configuration** that a block adds. -/
def sites (d : DynamicSite) (c : Configuration) : List Site :=
  c.sitesWhere fun r =>
    d.siteNames.any (fun n => sameName n r.site) || d.species.any fun s => sameName s r.species

end DynamicSite

end SiteAnalysis
