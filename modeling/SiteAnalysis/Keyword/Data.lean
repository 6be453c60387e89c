import SiteAnalysis.Catalogue
import SiteAnalysis.Error
import SiteAnalysis.Json.Printer
import SiteAnalysis.Keyword.Range
import SiteAnalysis.Node.Kind
import SiteAnalysis.Node.Reference
import SiteAnalysis.Scalar
import SiteAnalysis.Text.Argument

/-! # Data of keywords

What a keyword holds, with the constraints it was declared with.

* `KeywordData.read` takes the arguments of a line.
* `KeywordData.lines` gives lines of arguments from which `read` restores the data.
* `KeywordData.toJson?` and `KeywordData.ofJson` do the same for documents.
-/

namespace SiteAnalysis

/-- **The data of a keyword.** -/
inductive KeywordData where
  | flag (value : Bool)
  | integer (value : Int) (min max : Option Int)
  | double (value : Float) (min max : Option Float)
  | text (value : String)
  /-- One of some words. -/
  | option (value : String) (options : List String)
  | scalar (value : Scalar)
  | triple (x y z : Scalar)
  | range (value : RangeSpec)
  | node (target : Option NodeRef) (filter : NodeFilter)
  /-- A node that gives observables, and which of them. -/
  | observable (target : Option NodeRef) (index : Nat) (filter : NodeFilter)
  | nodes (targets : List NodeRef) (filter : NodeFilter) (min : Nat) (max : Option Nat)
  /-- Species and sites, gathered line by line. -/
  | sites (sites : List (String × String))
  /-- Variables with starting values, gathered line by line. -/
  | fit (targets : List (String × Float))

/-- The arguments of a keyword do not have the number expected. -/
def wrongCount (keyword expected : String) (found : Nat) : Error :=
  .argumentCount keyword expected found

/-- Both ends of an interval in words. -/
def limitsText (low high : Option String) : String :=
  "[" ++ low.getD "-inf" ++ ", " ++ high.getD "inf" ++ "]"

/-- An integer within limits. -/
def checkInteger (keyword : String) (n : Int) (min max : Option Int) : Except Error Int :=
  if min.any (n < ·) || max.any (· < n) then
    .error (.outOfRange keyword (Float.ofInt n)
      (limitsText (min.map toString) (max.map toString)))
  else .ok n

/-- A float within limits; what is no number lies within all limits. -/
def checkDouble (keyword : String) (x : Float) (min max : Option Float) : Except Error Float :=
  if min.any (x < ·) || max.any (· < x) then
    .error (.outOfRange keyword x
      (limitsText (min.map Layout.plain.text) (max.map Layout.plain.text)))
  else .ok x

/-- The index of an observable; there are three at most. -/
def checkIndex (keyword : String) (i : Nat) : Except Error Nat :=
  if i > 2 then .error (.outOfRange keyword (Float.ofNat i) "[0, 2]") else .ok i

/-- A text that can be written. -/
def checkWritable (keyword s : String) : Except Error String :=
  if isWritable s then .ok s else .error (.invalidArgument keyword .bothQuotes)

/-- A float given by an argument. -/
def readNumber (keyword s : String) : Except Error Float :=
  match readFloat? s with
  | some x => .ok x
  | none => .error (.invalidArgument keyword (.notNumber s))

/-- A truth value given by an argument. -/
def readTruth (keyword s : String) : Except Error Bool :=
  let word := foldCase s
  if ["true", "on", "yes", "1"].contains word then .ok true
  else if ["false", "off", "no", "0"].contains word then .ok false
  else .error (.invalidArgument keyword (.notBoolean s))

/-- The option a word means; case does not count. -/
def findOption? (options : List String) (s : String) : Option String :=
  options.find? fun o => sameName o s

/-- **A site by its names in the catalogue.** -/
def readSite (keyword species site : String) (catalogue : Catalogue) :
    Except Error (String × String) :=
  match catalogue.findSite? species site with
  | some found => .ok found
  | none => .error (.invalidArgument keyword (.unknownSite site species))

/-- Sets the starting value of a variable; case does not count. -/
def setTarget (name : String) (value : Float) : List (String × Float) → List (String × Float)
  | [] => [(name, value)]
  | (n, v) :: rest =>
    if sameName n name then (n, value) :: rest else (n, v) :: setTarget name value rest

namespace KeywordData

/-- Kinds of data that take one entry a line. -/
def isRepeatable : KeywordData → Bool
  | sites _ | fit _ => true
  | _ => false

/-- Whether there are as many nodes as a list needs; a line always names one. -/
def readNodes (keyword : String) (min : Nat) (max : Option Nat) (values : List String) :
    Except Error (List NodeRef) :=
  let least := Nat.max min 1
  if values.length < least || max.any (· < values.length) then
    let expected := match max with
      | some m => toString least ++ " to " ++ toString m
      | none => "at least " ++ toString least
    .error (wrongCount keyword expected values.length)
  else .ok (values.map NodeRef.named)

/-- **Takes the arguments of a line.** -/
def read (keyword : String) (catalogue : Catalogue) (values : List String) :
    KeywordData → Except Error KeywordData
  | flag _ =>
    -- A flag without an argument is switched on.
    match values with
    | [] => .ok (flag true)
    | [s] => (readTruth keyword s).map flag
    | _ => .error (wrongCount keyword "0 or 1" values.length)
  | integer _ min max =>
    match values with
    | [s] =>
      match readInt? s with
      | some n => (checkInteger keyword n min max).map fun n => integer n min max
      | none => .error (.invalidArgument keyword (.notInteger s))
    | _ => .error (wrongCount keyword "1" values.length)
  | double _ min max =>
    match values with
    | [s] => do
      let x ← readNumber keyword s
      return double (← checkDouble keyword x min max) min max
    | _ => .error (wrongCount keyword "1" values.length)
  | text _ =>
    match values with
    | [s] => (checkWritable keyword s).map text
    | _ => .error (wrongCount keyword "1" values.length)
  | option _ options =>
    match values with
    | [s] =>
      match findOption? options s with
      | some o => .ok (option o options)
      | none => .error (.invalidArgument keyword (.notOption s options))
    | _ => .error (wrongCount keyword "1" values.length)
  | scalar _ =>
    match values with
    | [s] => .ok (scalar (.read s))
    | _ => .error (wrongCount keyword "1" values.length)
  | triple _ _ _ =>
    match values with
    | [x, y, z] => .ok (triple (.read x) (.read y) (.read z))
    | _ => .error (wrongCount keyword "3" values.length)
  | range _ =>
    match values with
    | [x, y, z] => do
      let minimum ← readNumber keyword x
      let maximum ← readNumber keyword y
      let width ← readNumber keyword z
      match RangeSpec.ofMeasures? minimum maximum width with
      | some r => return range r
      | none => throw (.invalidArgument keyword .emptyRange)
    | _ => .error (wrongCount keyword "3" values.length)
  | node _ filter =>
    match values with
    | [s] => .ok (node (some (.named s)) filter)
    | _ => .error (wrongCount keyword "1" values.length)
  | observable _ _ filter =>
    match values with
    | [s] => .ok (observable (some (.named s)) 0 filter)
    | [s, i] =>
      match readIndex? i with
      | some n => (checkIndex keyword n).map fun n => observable (some (.named s)) n filter
      | none => .error (.invalidArgument keyword (.notIndex i))
    | _ => .error (wrongCount keyword "1 or 2" values.length)
  | nodes _ filter min max =>
    (readNodes keyword min max values).map fun targets => nodes targets filter min max
  | sites known =>
    match values with
    | [species, site] => do
      let found ← readSite keyword species site catalogue
      return sites (if known.contains found then known else known ++ [found])
    | _ => .error (wrongCount keyword "2" values.length)
  | fit targets =>
    match values with
    | [name, s] => (readNumber keyword s).map fun x => fit (setTarget name x targets)
    | _ => .error (wrongCount keyword "2" values.length)

/-- **The lines that restore the data**, each as its written arguments. -/
def lines : KeywordData → List (List String)
  | flag b => [[if b then "true" else "false"]]
  | integer n _ _ => [[toString n]]
  | double x _ _ => [[Layout.precise.text x]]
  | text s => [[quote s]]
  | option s _ => [[s]]
  | scalar v => [[quote v.text]]
  | triple x y z => [[quote x.text, quote y.text, quote z.text]]
  | range r => [[r.minimum, r.maximum, r.width].map Layout.precise.text]
  | node target _ => target.toList.map fun t => [quote t.name]
  | observable target index _ => target.toList.map fun t => [quote t.name, toString index]
  | nodes targets _ _ _ => if targets.isEmpty then [] else [targets.map fun t => quote t.name]
  | sites known => known.map fun (species, site) => [quote species, quote site]
  | fit targets => targets.map fun (name, x) => [quote name, Layout.precise.text x]

/-- **The data in a document**; none if there is nothing to write. -/
def toJson? : KeywordData → Option Json
  | flag b => some (.bool b)
  | integer n _ _ => some (.int n)
  | double x _ _ => some (Scalar.floatJson x)
  | text s => some (.text s)
  | option s _ => some (.text s)
  | scalar v => some v.toJson
  | triple x y z => some (.array [x.toJson, y.toJson, z.toJson])
  | range r => some (.array ([r.minimum, r.maximum, r.width].map Scalar.floatJson))
  | node target _ => target.map fun t => .text t.name
  | observable target index _ => target.map fun t => .array [.text t.name, .int index]
  | nodes targets _ _ _ => some (.texts (targets.map NodeRef.name))
  | sites known => some (.array (known.map fun (species, site) => .texts [species, site]))
  | fit targets => some (.array (targets.map fun (name, x) =>
      .array [.text name, Scalar.floatJson x]))

/-- The data refused a document value that is not what it expects. -/
def refuse {α : Type} (keyword expected : String) (found : Json) : Except Error α :=
  .error (.invalidArgument keyword (.wrongDocument expected found.compact))

/-- A number in a document as an argument. -/
def numberArgument? : Json → Option String
  | .int n => some (toString n)
  | .float x => some (Layout.json.text x)
  | _ => none

/-- A pair of texts in a document. -/
def textPair? : Json → Option (List String)
  | .array [.text a, .text b] => some [a, b]
  | _ => none

/-- A pair of a text and a number in a document, as arguments. -/
def targetPair? : Json → Option (List String)
  | .array [.text a, j] => j.number?.map fun x => [a, Layout.precise.text x]
  | _ => none

/-- **A document value for a keyword** becomes lines of arguments, or the data itself. -/
inductive Given where
  | lines (values : List (List String))
  | data (data : KeywordData)

/-- All of some parts of a document value, or a refusal of the whole. -/
def givenAll {α : Type} (keyword expected : String) (j : Json) (f : Json → Option α)
    (items : List Json) : Except Error (List α) :=
  match items.mapM f with
  | some parts => .ok parts
  | none => refuse keyword expected j

/-- **What a document value gives to a keyword.** -/
def given (keyword : String) (j : Json) : KeywordData → Except Error Given
  | flag _ =>
    match j with
    | .bool b => .ok (.lines [[if b then "true" else "false"]])
    | j => refuse keyword "a value of the keyword's type" j
  | integer .. =>
    match j with
    | .int n =>
      if fitsInt n then .ok (.lines [[toString n]])
      else refuse keyword "a value of the keyword's type" j
    | j => refuse keyword "a value of the keyword's type" j
  | double .. =>
    match j.number? with
    | some x => .ok (.lines [[Layout.precise.text x]])
    | none => refuse keyword "a value of the keyword's type" j
  | text _ | option .. | node .. =>
    match j with
    | .text s => .ok (.lines [[s]])
    | j => refuse keyword "a value of the keyword's type" j
  | observable .. =>
    match j with
    | .text s => .ok (.lines [[s]])
    | .array items => do
      let argument := fun j : Json => j.text?.or (numberArgument? j)
      return .lines [← givenAll keyword "[name, index]" j argument items]
    | j => refuse keyword "a value of the keyword's type" j
  | nodes .. =>
    match j with
    | .array items => do return .lines [← givenAll keyword "node names" j Json.text? items]
    | j => refuse keyword "a value of the keyword's type" j
  | range _ =>
    match j with
    | .array items => do
      let number := fun j : Json => j.number?.map Layout.precise.text
      return .lines [← givenAll keyword "[min, max, width]" j number items]
    | j => refuse keyword "a value of the keyword's type" j
  | scalar _ =>
    match Scalar.ofJson? j with
    | some v => .ok (.data (scalar v))
    | none => refuse keyword "a number or expression" j
  | triple _ _ _ =>
    match j with
    | .array [x, y, z] =>
      match Scalar.ofJson? x, Scalar.ofJson? y, Scalar.ofJson? z with
      | some x, some y, some z => .ok (.data (triple x y z))
      | _, _, _ => refuse keyword "three values" j
    | j => refuse keyword "a value of the keyword's type" j
  | sites _ =>
    match j with
    | .array items => do
      return .lines (← givenAll keyword "[species, site] pairs" j textPair? items)
    | j => refuse keyword "a value of the keyword's type" j
  | fit _ =>
    match j with
    | .array items => do
      return .lines (← givenAll keyword "[name, value] pairs" j targetPair? items)
    | j => refuse keyword "a value of the keyword's type" j

/-- Takes one line after the other.  On failure the lines before the one at fault keep their
effect. -/
def readLines (keyword : String) (catalogue : Catalogue) :
    List (List String) → KeywordData → Except Error Unit × KeywordData
  | [], d => (.ok (), d)
  | values :: rest, d =>
    match d.read keyword catalogue values with
    | .ok d => readLines keyword catalogue rest d
    | .error e => (.error e, d)

/-- **Takes a document value.** -/
def ofJson (keyword : String) (catalogue : Catalogue) (j : Json) (d : KeywordData) :
    Except Error Unit × KeywordData :=
  match d.given keyword j with
  | .error e => (.error e, d)
  | .ok (.data d) => (.ok (), d)
  | .ok (.lines values) => readLines keyword catalogue values d

/-- The data with all gathered entries and references dropped. -/
def cleared : KeywordData → KeywordData
  | node _ filter => node none filter
  | observable _ index filter => observable none index filter
  | nodes _ filter min max => nodes [] filter min max
  | sites _ => sites []
  | fit _ => fit []
  | d => d

/-! ## References -/

/-- **The references in the data**, with the filter they have to pass. -/
def refs : KeywordData → List (NodeFilter × NodeRef)
  | node (some t) filter => [(filter, t)]
  | observable (some t) _ filter => [(filter, t)]
  | nodes targets filter _ _ => targets.map fun t => (filter, t)
  | _ => []

/-- The data with every reference changed. -/
def mapRefs (f : NodeFilter → NodeRef → NodeRef) : KeywordData → KeywordData
  | node target filter => node (target.map (f filter)) filter
  | observable target index filter => observable (target.map (f filter)) index filter
  | nodes targets filter min max => nodes (targets.map (f filter)) filter min max
  | d => d

/-- The data without a reference, and whether it was there. -/
def dropRef (stale : NodeRef) : KeywordData → Bool × KeywordData
  | node target filter =>
    if target = some stale then (true, node none filter) else (false, node target filter)
  | observable target index filter =>
    if target = some stale then (true, observable none index filter)
    else (false, observable target index filter)
  | nodes targets filter min max =>
    let kept := targets.filter (· ≠ stale)
    (kept.length != targets.length, nodes kept filter min max)
  | d => (false, d)

/-- Whether the data refer to a node; data that hold no references count as well. -/
def hasContent : KeywordData → Bool
  | node target _ => target.isSome
  | observable target _ _ => target.isSome
  | nodes targets _ _ _ => !targets.isEmpty
  | _ => true

/-- The scalars in the data. -/
def scalars : KeywordData → List Scalar
  | scalar v => [v]
  | triple x y z => [x, y, z]
  | _ => []

end KeywordData

end SiteAnalysis
