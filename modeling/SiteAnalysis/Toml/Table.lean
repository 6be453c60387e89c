import SiteAnalysis.Json.Basic

/-! # Tables of TOML

A document builds up a table of tables.  What may be added to a table depends on how it came to
be: under a header of its own, on the way to the table of another header, or by a dotted key.
-/

namespace SiteAnalysis.Toml

/-- How a table came to be. -/
inductive Origin where
  | header | implied | dotted
  deriving DecidableEq, Repr

/-- **Entries of a table.** -/
inductive Entry where
  | value (j : Json)
  | table (origin : Origin) (members : List (String × Entry))
  /-- An array of tables; the table begun last comes last. -/
  | tables (items : List (List (String × Entry)))

/-- Members of a table. -/
abbrev Members := List (String × Entry)

/-- Replaces the entry of a key, or adds one at the end. -/
def setEntry (key : String) (e : Entry) : Members → Members
  | [] => [(key, e)]
  | (k, old) :: rest => if k == key then (key, e) :: rest else (k, old) :: setEntry key e rest

/-- Changes the last item of a list. -/
def changeLast {α : Type} (f : α → Option α) (items : List α) : Option (List α) := do
  let last ← items.getLast?
  return items.dropLast ++ [← f last]

/-- **Changes the table at the end of a path**, whose origin the change is told.  Tables missing on
the way are made; a dotted path must not run through a table that has a header. -/
def changeAt (dotted : Bool) (change : Origin → Members → Option Members) :
    List String → Origin → Members → Option Members
  | [], origin, members => change origin members
  | key :: path, _, members =>
    match members.lookup key with
    | none => do
      let origin := if dotted then Origin.dotted else .implied
      let inner ← changeAt dotted change path origin []
      return setEntry key (.table origin inner) members
    | some (.value _) => none
    | some (.tables items) => do
      let items ← changeLast (changeAt dotted change path .header) items
      return setEntry key (.tables items) members
    | some (.table origin inner) => do
      if dotted && origin == .header then none
      let inner ← changeAt dotted change path origin inner
      return setEntry key (.table origin inner) members

/-- Begins the table of a header. -/
def beginTable (path : List String) (key : String) : Members → Option Members :=
  changeAt false (fun _ members =>
    match members.lookup key with
    | none => some (setEntry key (.table .header []) members)
    | some (.table .implied inner) => some (setEntry key (.table .header inner) members)
    | some _ => none) path .header

/-- Begins a further table of an array. -/
def beginItem (path : List String) (key : String) : Members → Option Members :=
  changeAt false (fun _ members =>
    match members.lookup key with
    | none => some (setEntry key (.tables [[]]) members)
    | some (.tables items) => some (setEntry key (.tables (items ++ [[]])) members)
    | some _ => none) path .header

/-- Adds a value under a dotted key. -/
def addValue (path : List String) (key : String) (j : Json) (members : Members) :
    Option Members :=
  changeAt true (fun origin members =>
    if (origin == .dotted) == path.isEmpty then none
    else if (members.lookup key).isSome then none
    else some (setEntry key (.value j) members)) path .header members

/-- Adds a value to the table at a path. -/
def addValueAt (table path : List String) (key : String) (j : Json) : Members → Option Members :=
  changeAt false (fun _ members => addValue path key j members) table .header

mutual

/-- An entry as a structured value. -/
def Entry.toJson : Entry → Json
  | .value j => j
  | .table _ members => .ofMembers (membersToJson members)
  | .tables items => .array (itemsToJson items)

/-- Members as structured values. -/
def membersToJson : List (String × Entry) → List (String × Json)
  | [] => []
  | (k, e) :: rest => (k, e.toJson) :: membersToJson rest

/-- Tables of an array as structured values. -/
def itemsToJson : List (List (String × Entry)) → List Json
  | [] => []
  | members :: rest => .ofMembers (membersToJson members) :: itemsToJson rest

end

end SiteAnalysis.Toml
