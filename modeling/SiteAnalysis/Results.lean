import SiteAnalysis.Histogram
import SiteAnalysis.Json.Basic
import SiteAnalysis.Text.Shown

/-! # The store of results

Nodes publish what they compute under a name and a group.  An item keeps the type it was stored
with, and a reader has to ask for that type.
-/

namespace SiteAnalysis

/-- **Types of stored items.** -/
inductive ItemType where
  | double
  | integer
  | data (dimensions : Nat)
  | histogram (dimensions : Nat)
  deriving DecidableEq, Repr

/-- The name of a type in messages. -/
def ItemType.name : ItemType → String
  | double => "Double"
  | integer => "Integer"
  | data n => "Data" ++ toString n ++ "D"
  | histogram n => "Histogram" ++ toString n ++ "D"

/-- The types that occur. -/
def ItemType.all : List ItemType :=
  [double, integer, data 1, data 2, data 3, histogram 1, histogram 2, histogram 3]

/-- The type of a name. -/
def ItemType.ofName? (s : String) : Option ItemType := all.find? fun t => t.name == s

/-- **Stored items.** -/
inductive Item where
  | double (value : Float)
  | integer (value : Int)
  | data (grid : Grid Float)
  | histogram (histogram : Histogram Float)

/-- The type of an item. -/
def Item.type : Item → ItemType
  | double _ => .double
  | integer _ => .integer
  | data g => .data g.axes.length
  | histogram h => .histogram h.axes.length

/-- An item of a type that holds nothing yet; histograms have the axis given in every dimension. -/
def Item.ofType (axis : Axis Float) : ItemType → Item
  | .double => .double 0.0
  | .integer => .integer 0
  | .data n => .data (.empty n)
  | .histogram n => .histogram (.ofAxes (List.replicate n axis))

/-- **Name and group** of an item. -/
structure ResultKey where
  name : String
  group : String
  deriving DecidableEq, Repr

/-- Order of keys: by name, then by group. -/
def ResultKey.lt (a b : ResultKey) : Bool :=
  a.name < b.name || (a.name == b.name && a.group < b.group)

/-- **The store**, sorted by key. -/
structure Results where
  entries : List (ResultKey × Item)

namespace Results

/-- A store without items. -/
def empty : Results := ⟨[]⟩

/-- The item under a key. -/
def find? (s : Results) (key : ResultKey) : Option Item := s.entries.lookup key

/-- **Stores an item**, in place of whatever the key held. -/
def insert (s : Results) (key : ResultKey) (item : Item) : Results :=
  ⟨insertSorted ResultKey.lt key item s.entries⟩

/-- Forgets the item under a key. -/
def erase (s : Results) (key : ResultKey) : Results :=
  ⟨s.entries.filter fun e => e.1 != key⟩

/-- Whether a key holds an item. -/
def contains (s : Results) (key : ResultKey) : Bool := (s.find? key).isSome

/-- The type of the item under a key. -/
def type? (s : Results) (key : ResultKey) : Option ItemType := (s.find? key).map Item.type

/-- The item, if it has the type asked for. -/
def asType (key : ResultKey) (expected : ItemType) (item : Item) : Except Error Item :=
  if item.type = expected then .ok item
  else .error (.resultType key.name key.group expected.name item.type.name)

/-- **The item of a type under a key.** -/
def retrieve (s : Results) (key : ResultKey) (expected : ItemType) : Except Error Item :=
  match s.find? key with
  | some item => asType key expected item
  | none => .error (.missingResult key.name key.group)

/-- **The item of a type under a key, stored now if there is none.**  The flag says whether it was
stored now. -/
def realise (s : Results) (key : ResultKey) (fresh : Item) :
    Except Error (Item × Bool) × Results :=
  match s.find? key with
  | some item => ((asType key fresh.type item).map fun item => (item, false), s)
  | none => (.ok (fresh, true), s.insert key fresh)

/-- The keys and types of all items, for inspection. -/
def shown (s : Results) : String :=
  "\x7b" ++ String.intercalate ", " (s.entries.map fun (key, item) =>
    SiteAnalysis.shown (key.group ++ "//" ++ key.name) ++ ": " ++
      SiteAnalysis.shown item.type.name) ++ "\x7d"

end Results

end SiteAnalysis
