import SiteAnalysis.Json.Printer
import SiteAnalysis.Tree.TextReader

/-! # Trees as documents

The document of a node is an object of its type, its name, its entries and its branch; that of a
list of nodes is an array.  Members are taken in the order of their keys.
-/

namespace SiteAnalysis

namespace Forest

/-- **The documents of the nodes** of the outermost list. -/
def documents : Forest → List Json
  | nil => []
  | cons n branch rest =>
    let inner := match n.branch, branch.documents with
      | some level, items => if items.isEmpty then [] else [(level.keyword, Json.array items)]
      | none, _ => []
    .ofMembers (n.toMembers ++ inner) :: rest.documents

end Forest

/-- **The document of a sequence.** -/
def Sequence.toJson (s : Sequence) : Json := .array s.nodes.documents

/-- What a reader of documents carries along: the identity for the next node, and the problems so
far. -/
structure DocumentReading where
  fresh : NodeId
  problems : List Error

namespace DocumentReading

/-- Notes a problem. -/
def report (r : DocumentReading) (e : Error) : DocumentReading :=
  { r with problems := r.problems ++ [e] }

/-- A list of nodes has to be an array. -/
def notList (l : Level) : Error :=
  .serialization ("'" ++ l.keyword ++ "' must be a list of nodes")

/-- Places a node that was read. -/
def placeNode (r : DocumentReading) (s : Sequence) (t : Subtree) : Sequence × DocumentReading :=
  let placed := if s.level.owner.isSome then s.adopt t else s.append t none
  match placed with
  | .ok s => (s, r)
  | .error e => (s, r.report e)

/-- Takes a member that is not the branch of a node. -/
def readEntry (lookup : Lookup) (r : DocumentReading) (n : Node) (key : String) (j : Json) :
    Node × DocumentReading :=
  match n.readMember key j lookup.catalogue with
  | (.ok true, n) => (n, r)
  | (.ok false, n) => (n, r.report (.unrecognisedKeyword n.type.keyword key))
  | (.error e, n) => (n, r.report (e.withContext (n.type.keyword ++ " '" ++ n.name ++ "'")))

/-- The fresh node of a document of a type. -/
def freshNode (r : DocumentReading) (type : NodeType) (name : Option String) :
    Node × DocumentReading :=
  let node := Node.ofType r.fresh type
  (match name with
    | some name => node.rename name
    | none => node,
    { r with fresh := ⟨r.fresh.value + 1⟩ })

mutual

/-- Reads a document into a list of nodes. -/
def readNode (lookup : Lookup) (s : Sequence) (r : DocumentReading) :
    Json → Sequence × DocumentReading
  | .object members =>
    match (members.lookup "type").bind Json.text? with
    | none => (s, r.report (.serialization "node is missing its 'type'"))
    | some keyword =>
      match lookup.registry.typeOf keyword with
      | .error e => (s, r.report e)
      | .ok type =>
        let (node, r) := r.freshNode type ((members.lookup "name").bind Json.text?)
        let (t, r) := readMembers lookup ⟨node, .nil⟩ r members
        r.placeNode s t
  | j => (s, r.report (.serialization ("expected a node, found " ++ j.compact)))

/-- Reads the members of a document of a node. -/
def readMembers (lookup : Lookup) (t : Subtree) (r : DocumentReading) :
    List (String × Json) → Subtree × DocumentReading
  | [] => (t, r)
  | (key, j) :: rest =>
    if isCommonMember key then readMembers lookup t r rest
    else match t.node.branch.filter fun l => sameName key l.keyword with
      | some level =>
        let (s, r) := readList lookup ⟨level, t.branch⟩ r j
        readMembers lookup ⟨{ t.node with branch := some s.level }, s.nodes⟩ r rest
      | none =>
        let (node, r) := r.readEntry lookup t.node key j
        readMembers lookup { t with node } r rest

/-- Reads the document of a branch. -/
def readList (lookup : Lookup) (s : Sequence) (r : DocumentReading) :
    Json → Sequence × DocumentReading
  | .array items => readItems lookup s r items
  | _ => (s, r.report (notList s.level))

/-- Reads documents into a list of nodes. -/
def readItems (lookup : Lookup) (s : Sequence) (r : DocumentReading) :
    List Json → Sequence × DocumentReading
  | [] => (s, r)
  | j :: rest =>
    let (s, r) := readNode lookup s r j
    readItems lookup s r rest

end

end DocumentReading

/-- **Reads a tree** from a document into an empty root; the second part is the identity for the
next node. -/
def Sequence.ofJson (lookup : Lookup) (root : Sequence) (fresh : NodeId) (j : Json) :
    Except Error Sequence × NodeId :=
  match j.canonical with
  | .array items =>
    let (s, r) := DocumentReading.readItems lookup root ⟨fresh, []⟩ items
    ((readOutcome r.problems).map fun _ => s, r.fresh)
  | _ => (.error (DocumentReading.notList root.level), fresh)

end SiteAnalysis
