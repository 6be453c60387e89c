import SiteAnalysis.Json.Reader

/-! # Decoding structured values

Readers of fragments that must have a certain form.  A record is an object with known members, of
which none may occur twice, or an array of its fields in order; other members are passed over as
long as no fault stands in them.
-/

namespace SiteAnalysis.Json

/-- What a decoder says of a fragment that does not have the form it asks for. -/
def malformed : String := "malformed document"

/-- **Formats of documents**, where they differ in what stands for a record or a choice. -/
inductive Format where
  /-- An array that stands for a record has no further items, and a choice comes with null. -/
  | json
  /-- Further items are passed over, and a choice comes with an empty table or array. -/
  | toml
  deriving DecidableEq, Repr

namespace Fragment

/-! ## Single values -/

def decodeText (f : Fragment) : Except String String :=
  match f.scalar? with
  | some (.text s) => .ok s
  | _ => .error malformed

def decodeBool (f : Fragment) : Except String Bool :=
  match f.scalar? with
  | some (.bool b) => .ok b
  | _ => .error malformed

/-- A natural number of 64 bits. -/
def decodeIndex (f : Fragment) : Except String Nat :=
  match f.scalar? with
  | some (.int n) => if 0 ≤ n then .ok n.toNat else .error malformed
  | _ => .error malformed

def decodeFloat (f : Fragment) : Except String Float :=
  match f.scalar?.bind number? with
  | some x => .ok x
  | none => .error malformed

/-! ## Lists -/

def decodeList {α : Type} (decode : Fragment → Except String α) :
    Fragment → Except String (List α)
  | items fs true => fs.mapM decode
  | _ => .error malformed

/-- Exactly three floats. -/
def decodeTriple (f : Fragment) : Except String (Float × Float × Float) := do
  match ← decodeList decodeFloat f with
  | [x, y, z] => return (x, y, z)
  | _ => .error malformed

/-! ## Choices -/

/-- Whether a fragment stands for nothing where a choice could carry more. -/
def isNothing : Format → Fragment → Bool
  | .json, scalar (some .null) => true
  | .toml, items [] _ | .toml, members [] _ => true
  | _, _ => false

/-- **A choice**: a name, or an object with the name as its only key. -/
def decodeChoice (format : Format) : Fragment → Except String String
  | members [(some name, f)] true => if isNothing format f then .ok name else .error malformed
  | f => f.decodeText

/-! ## Records -/

/-- **The fields of a record** in the order of the document, as far as they can be read. -/
structure Record where
  fields : List (String × Fragment)
  /-- Whether the record ends behind these fields and holds nothing that must not be there. -/
  complete : Bool

/-- The fields among the members of an object. -/
def fieldsAmong (names : List String) (closed : Bool) :
    List (Option String × Fragment) → Record
  | [] => ⟨[], closed⟩
  | (none, _) :: _ => ⟨[], false⟩
  | (some key, f) :: rest =>
    if names.contains key then
      let r := fieldsAmong names closed rest
      { r with fields := (key, f) :: r.fields }
    else if f.isWhole then fieldsAmong names closed rest
    else ⟨[], false⟩

/-- A fragment as a record. -/
def toRecord (format : Format) (names : List String) : Fragment → Record
  | members ms closed => fieldsAmong names closed ms
  | items fs closed =>
    ⟨names.zip fs, closed && (format == .toml || fs.length ≤ names.length)⟩
  | _ => ⟨[], false⟩

/-- The fields of a record that is complete. -/
def decodeRecord (format : Format) (names : List String) (f : Fragment) :
    Except String (List (String × Fragment)) :=
  let r := f.toRecord format names
  if r.complete then .ok r.fields else .error malformed

end Fragment

/-- The field of a record, which must not occur twice. -/
def fieldOf (fields : List (String × Fragment)) (name : String) :
    Except String (Option Fragment) :=
  match fields.filter fun (k, _) => k == name with
  | [] => .ok none
  | [(_, f)] => .ok (some f)
  | _ => .error malformed

/-- A field that must be there. -/
def requiredField {α : Type} (fields : List (String × Fragment)) (name : String)
    (decode : Fragment → Except String α) : Except String α := do
  match ← fieldOf fields name with
  | some f => decode f
  | none => .error malformed

/-- A field that may be missing. -/
def optionalField {α : Type} (fields : List (String × Fragment)) (name : String)
    (decode : Fragment → Except String α) (missing : α) : Except String α := do
  match ← fieldOf fields name with
  | some f => decode f
  | none => return missing

/-- **Decodes the text of a document.**  What a decoder finds wrong comes before what stands behind
the document. -/
def decodeSource {α : Type} (decode : Fragment → Except String α) (source : String) :
    Except String α := do
  let (f, isAll) := Fragment.ofText source
  let decoded ← decode f
  if isAll then return decoded else .error malformed

end SiteAnalysis.Json
