import SiteAnalysis.Json.Token

/-! # Fragments of documents

A text that is no document may still hold parts of one.  A `Fragment` is a value as far as it
can be read: up to the first fault everything is as it would be in a whole document.  Decoders that
take up a document field by field work on fragments, so that a fault counts only when they come to
it.  A fragment without faults stands for a value, which `value?` gives.
-/

namespace SiteAnalysis.Json

/-- **A value as far as it can be read.** -/
inductive Fragment where
  /-- Nothing that could be read stands here. -/
  | fault
  /-- A value without parts; none if it has the right form but no value corresponds to it. -/
  | scalar (value : Option Json)
  /-- An array, and whether its end was reached. -/
  | items (items : List Fragment) (closed : Bool)
  /-- An object, and whether its end was reached.  A key may be a text without a value. -/
  | members (members : List (Option String × Fragment)) (closed : Bool)

namespace Fragment

mutual

/-- **Whether no fault stands in a fragment.** -/
def isWhole : Fragment → Bool
  | fault => false
  | scalar _ => true
  | items fs closed => closed && areWhole fs
  | members ms closed => closed && areWholeMembers ms

/-- Whether no fault stands in some fragments. -/
def areWhole : List Fragment → Bool
  | [] => true
  | f :: rest => f.isWhole && areWhole rest

/-- Whether no fault stands in some members. -/
def areWholeMembers : List (Option String × Fragment) → Bool
  | [] => true
  | (_, f) :: rest => f.isWhole && areWholeMembers rest

end

mutual

/-- **The value of a fragment**, if it has one and no more than `depth` arrays and objects are open
at once. -/
def value? (depth : Nat) : Fragment → Option Json
  | scalar v => v
  | items fs true => if depth = 0 then none else (values? (depth - 1) fs).map array
  | members ms true => if depth = 0 then none else (memberValues? (depth - 1) ms).map object
  | _ => none

/-- The values of some fragments. -/
def values? (depth : Nat) : List Fragment → Option (List Json)
  | [] => some []
  | f :: rest => do return (← f.value? depth) :: (← values? depth rest)

/-- The members that have keys and values. -/
def memberValues? (depth : Nat) :
    List (Option String × Fragment) → Option (List (String × Json))
  | [] => some []
  | (key, f) :: rest => do
    let key ← key
    return (key, ← f.value? depth) :: (← memberValues? depth rest)

end

mutual

/-- **The fragment that is a value.** -/
def ofJson : Json → Fragment
  | array js => items (ofItems js) true
  | object ms => members (ofMembers ms) true
  | j => scalar (some j)

/-- Values as fragments. -/
def ofItems : List Json → List Fragment
  | [] => []
  | j :: rest => ofJson j :: ofItems rest

/-- Members with fragments in place of the values. -/
def ofMembers : List (String × Json) → List (Option String × Fragment)
  | [] => []
  | (k, j) :: rest => (some k, ofJson j) :: ofMembers rest

end

/-- The value of a fragment without parts. -/
def scalar? : Fragment → Option Json
  | scalar v => v
  | _ => none

end Fragment

end SiteAnalysis.Json
