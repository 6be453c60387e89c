import SiteAnalysis.Node.Basic

/-! # Entries of nodes

What stands in the block of a node besides its branch: keywords, and for some kinds entries of
their own, such as `Parameter` lines.  There is a form for lines and one for documents.

* `Node.readLine` and `Node.lines` are for lines.
* `Node.readMember` and `Node.toMembers` are for documents.
-/

namespace SiteAnalysis

/-- The keyword under which parameters are declared. -/
def parameterKeyword : String := "Parameter"

/-- Whether a text can be the name of a variable. -/
def isIdentifier (s : String) : Bool :=
  match s.toList with
  | [] => false
  | c :: cs => (c.isAlpha || c == '_') && cs.all isWordChar

/-- The number an argument means. -/
def readParameterValue (s : String) : Except Error Expression.Number :=
  match readInt? s with
  | some n => .ok (.int n)
  | none =>
    match readFloat? s with
    | some x => .ok (.float x)
    | none => .error (.invalidArgument parameterKeyword (.notNumber s))

/-- The number a document value means; an integer beyond 64 bits is a float. -/
def parameterValueOf? : Json → Option Expression.Number
  | .int n => some (if fitsInt n then .int n else .float (Float.ofInt n))
  | .float x => some (.float x)
  | _ => none

/-- A number as a document value. -/
def parameterJson : Expression.Number → Json
  | .int n => .int n
  | .float x => Scalar.floatJson x

/-- Members that stand in the document of every node. -/
def isCommonMember (key : String) : Bool := key == "type" || key == "name"

namespace DynamicSite

/-- Reads the members of the document of a block one by one; all problems are told. -/
def readMembers (catalogue : Catalogue) :
    List (String × Json) → DynamicSite → List Error × DynamicSite
  | [], d => ([], d)
  | (key, j) :: rest, d =>
    if isCommonMember key then readMembers catalogue rest d
    else
      let type := NodeType.dynamicSite.keyword
      let (problems, d) := match d.readMember key j catalogue with
        | (.ok true, d) => ([], d)
        | (.ok false, d) => ([Error.unrecognisedKeyword type key], d)
        | (.error e, d) => ([e.withContext (type ++ " ''")], d)
      let (others, d) := readMembers catalogue rest d
      (problems ++ others, d)

/-- Reads blocks; the first that cannot be read ends the reading, and those before it stay. -/
def readBlocks (catalogue : Catalogue) (key : String) :
    List Json → List DynamicSite → Except Error Unit × List DynamicSite
  | [], blocks => (.ok (), blocks)
  | .object members :: rest, blocks =>
    match readMembers catalogue members .empty with
    | ([], d) => readBlocks catalogue key rest (blocks ++ [d])
    | (problems, _) => (.error (.readFailed problems), blocks)
  | _ :: _, blocks => (.error (.invalidArgument key .notDynamicSites), blocks)

/-- The document of a block. -/
def toJson (d : DynamicSite) : Json :=
  .ofMembers (("type", .text NodeType.dynamicSite.keyword) :: d.toMembers)

/-- A block with the words that enclose it. -/
def block (d : DynamicSite) : List String :=
  let type := NodeType.dynamicSite.keyword
  type :: d.lines.map ("  " ++ ·) ++ ["End" ++ type]

end DynamicSite

namespace Node

/-! ## Parameters -/

/-- Declares a parameter that was read, whose name must be one for variables. -/
def declareRead (n : Node) (name : String) (value : Expression.Number) : Except Error Node :=
  if isIdentifier name then .ok (n.declare name value)
  else .error (.invalidArgument parameterKeyword (.invalidParameterName name))

/-- Reads the arguments of a `Parameter` line. -/
def readParameter (n : Node) : List String → Except Error Node
  | [name, text] => do n.declareRead name (← readParameterValue text)
  | values => .error (.argumentCount parameterKeyword "2" values.length)

/-- Reads pairs of names and numbers.  The first that is none ends the reading, and those before
it stay. -/
def readParameters : List Json → Node → Except Error Unit × Node
  | [], n => (.ok (), n)
  | .array [.text name, j] :: rest, n =>
    match parameterValueOf? j with
    | none => (.error (.invalidArgument parameterKeyword .notParameterPairs), n)
    | some value =>
      match n.declareRead name value with
      | .ok n => readParameters rest n
      | .error e => (.error e, n)
  | _ :: _, n => (.error (.invalidArgument parameterKeyword .notParameterPairs), n)

/-! ## Lines -/

/-- Reads a line into the keywords of a node. -/
def readKeyword (n : Node) (keyword : String) (values : List String) (catalogue : Catalogue) :
    ReadOutcome × Node :=
  let (outcome, keywords) := n.keywords.read keyword values catalogue
  (outcome, { n with keywords })

/-- **Reads a line** in the block of a node. -/
def readLine (n : Node) (keyword : String) (values : List String) (catalogue : Catalogue) :
    ReadOutcome × Node :=
  match n.kind with
  | .dynamicSite block =>
    let (outcome, block) := block.readLine keyword values catalogue
    (outcome, { n with kind := .dynamicSite block })
  | .parameters =>
    if sameName keyword parameterKeyword then
      match n.readParameter values with
      | .ok n => (.success, n)
      | .error e => (.failed e, n)
    else n.readKeyword keyword values catalogue
  | _ => n.readKeyword keyword values catalogue

/-- Reads lines one by one, each a keyword with its arguments. -/
def readLines (catalogue : Catalogue) : List (List String) → Node → List ReadOutcome × Node
  | [], n => ([], n)
  | line :: rest, n =>
    let (outcome, n) := n.readLine (line.headD "") (line.drop 1) catalogue
    let (outcomes, n) := readLines catalogue rest n
    (outcome :: outcomes, n)

/-- **The lines of a node**, from which `readLine` restores its entries. -/
def lines (n : Node) : List String :=
  n.keywords.lines ++
  match n.kind with
  | .select blocks _ => blocks.flatMap DynamicSite.block
  | .dynamicSite block => block.lines
  | .parameters => n.parameters.map fun d =>
    String.intercalate "  " [parameterKeyword, quote d.parameter.name, d.parameter.value.text]
  | _ => []

/-- The first line of the block of a node. -/
def header (n : Node) : String :=
  if n.name.isEmpty then n.type.keyword else n.type.keyword ++ "  " ++ quote n.name

/-! ## Documents -/

/-- Reads a member into the keywords of a node. -/
def readKeywordMember (n : Node) (key : String) (j : Json) (catalogue : Catalogue) :
    Except Error Bool × Node :=
  let (r, keywords) := n.keywords.readMember key j catalogue
  (r, { n with keywords })

/-- **Reads a member** of the document of a node; `false` if the node knows no such entry. -/
def readMember (n : Node) (key : String) (j : Json) (catalogue : Catalogue) :
    Except Error Bool × Node :=
  match n.kind with
  | .select blocks chosen =>
    if sameName key NodeType.dynamicSite.keyword then
      match j.array? with
      | none => (.error (.invalidArgument key .notDynamicSites), n)
      | some items =>
        let (r, blocks) := DynamicSite.readBlocks catalogue key items blocks
        (r.map fun _ => true, { n with kind := .select blocks chosen })
    else n.readKeywordMember key j catalogue
  | .dynamicSite block =>
    let (r, block) := block.readMember key j catalogue
    (r, { n with kind := .dynamicSite block })
  | .parameters =>
    if sameName key parameterKeyword then
      match j.array? with
      | none => (.error (.invalidArgument parameterKeyword .notParameterPairs), n)
      | some items =>
        let (r, n) := readParameters items n
        (r.map fun _ => true, n)
    else n.readKeywordMember key j catalogue
  | _ => n.readKeywordMember key j catalogue

/-- **The members of the document of a node**, without that of its branch. -/
def toMembers (n : Node) : List (String × Json) :=
  [("type", .text n.type.keyword)] ++ (if n.name.isEmpty then [] else [("name", .text n.name)]) ++
  n.keywords.toMembers ++
  match n.kind with
  | .select blocks _ =>
    if blocks.isEmpty then []
    else [(NodeType.dynamicSite.keyword, .array (blocks.map DynamicSite.toJson))]
  | .dynamicSite block => block.toMembers
  | .parameters =>
    if n.parameters.isEmpty then []
    else [(parameterKeyword, .array (n.parameters.map fun d =>
      .array [.text d.parameter.name, parameterJson d.parameter.value]))]
  | _ => []

end Node

end SiteAnalysis
