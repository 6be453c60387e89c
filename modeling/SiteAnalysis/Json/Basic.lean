/-! # Structured values

The values that documents are made of.  An object keeps its members in the order in which they
were given, repeated keys included; `canonical` sorts them and keeps the last of each key.
-/

namespace SiteAnalysis

/-- Inserts an entry into a list sorted by its keys; an entry of the same key is replaced. -/
def insertSorted {κ α : Type} (lt : κ → κ → Bool) (key : κ) (value : α) :
    List (κ × α) → List (κ × α)
  | [] => [(key, value)]
  | (k, v) :: rest =>
    if lt key k then (key, value) :: (k, v) :: rest
    else if lt k key then (k, v) :: insertSorted lt key value rest
    else (key, value) :: rest

/-- Order of texts by their characters. -/
def textLt (s t : String) : Bool := s < t

/-- **Structured values.**  Integers and floats are told apart. -/
inductive Json where
  | null
  | bool (value : Bool)
  | int (value : Int)
  | float (value : Float)
  | text (value : String)
  | array (items : List Json)
  | object (members : List (String × Json))
  deriving Inhabited

namespace Json

mutual

/-- **The value with the members of every object sorted by key.**  Of a repeated key the last
member counts. -/
def canonical : Json → Json
  | array items => array (canonicalItems items)
  | object members => object (canonicalMembers members [])
  | j => j

/-- Canonical forms of some values. -/
def canonicalItems : List Json → List Json
  | [] => []
  | j :: rest => j.canonical :: canonicalItems rest

/-- Inserts the canonical forms of some members into sorted ones. -/
def canonicalMembers : List (String × Json) → List (String × Json) → List (String × Json)
  | [], sorted => sorted
  | (k, j) :: rest, sorted => canonicalMembers rest (insertSorted textLt k j.canonical sorted)

end

mutual

/-- **The value with every float that no text can show replaced by null.** -/
def finite : Json → Json
  | float x => if x.isFinite then float x else null
  | array items => array (finiteItems items)
  | object members => object (finiteMembers members)
  | j => j

/-- Some values with nulls in place of such floats. -/
def finiteItems : List Json → List Json
  | [] => []
  | j :: rest => j.finite :: finiteItems rest

/-- Some members with nulls in place of such floats. -/
def finiteMembers : List (String × Json) → List (String × Json)
  | [] => []
  | (k, j) :: rest => (k, j.finite) :: finiteMembers rest

end

/-- An object whose members are sorted by key. -/
def ofMembers (members : List (String × Json)) : Json :=
  object (members.foldl (fun sorted (k, j) => insertSorted textLt k j sorted) [])

/-- An array of texts. -/
def texts (items : List String) : Json := array (items.map text)

/-- The text a value is. -/
def text? : Json → Option String
  | text s => some s
  | _ => none

/-- The truth value a value is. -/
def bool? : Json → Option Bool
  | bool b => some b
  | _ => none

/-- The items of an array. -/
def array? : Json → Option (List Json)
  | array items => some items
  | _ => none

/-- A number as a float. -/
def number? : Json → Option Float
  | int n => some (Float.ofInt n)
  | float x => some x
  | _ => none

/-- The member of an object. -/
def get? (key : String) : Json → Option Json
  | object members => members.lookup key
  | _ => none

end Json

end SiteAnalysis
