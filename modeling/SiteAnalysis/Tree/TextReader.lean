import SiteAnalysis.Node.Entries
import SiteAnalysis.Node.Registry
import SiteAnalysis.Text.Line
import SiteAnalysis.Tree.Naming

/-! # Reading trees from text

The reader goes through the lines of a text once.  It keeps the nodes whose blocks are open, and it
goes on after a problem, so that all problems of a text are told together.

* `Reading.step` takes one line.
* `Reading.finish` closes what is still open at the end of the text.
* `Sequence.ofText` reads a whole text.

A node is placed when its block closes: in the branch it stands in, or in the root, which then
gives names.  A block of a type that cannot be made is passed over up to the word that closes it.
-/

namespace SiteAnalysis

/-- **What readers of trees need to know.** -/
structure Lookup where
  catalogue : Catalogue
  registry : Registry

/-- A line with arguments, or what kept it from being split. -/
structure ArgumentLine where
  number : Nat
  args : Except Error (List String)

/-- **The lines of a text that are not empty**, with their numbers. -/
def argumentLines (text : String) : List ArgumentLine :=
  ((linesOf text).zipIdx 1).filterMap fun (line, number) =>
    match tokenise line with
    | .ok [] => none
    | .ok args => some ⟨number, .ok args⟩
    | .error e => some ⟨number, .error (e.atLine number)⟩

/-- A node whose block is open, with the branch read so far. -/
structure OpenNode where
  subtree : Subtree
  /-- The line on which the block begins. -/
  line : Nat

/-- **What the next line stands in.** -/
inductive Place where
  /-- A list of nodes: the branch of the innermost open node, or the root. -/
  | list
  /-- The block of the innermost open node. -/
  | block
  /-- A block of dynamic sites in that block. -/
  | dynamicSite (sites : DynamicSite)
  /-- A block that cannot be read, and how many blocks of its keyword are open. -/
  | unreadable (keyword : String) (depth : Nat)
  /-- Behind the end of the root. -/
  | behind

/-- **The state of the reader.** -/
structure Reading where
  root : Sequence
  /-- The nodes whose blocks are open, the innermost first. -/
  openNodes : List OpenNode
  place : Place
  /-- The identity for the next node. -/
  fresh : NodeId
  /-- The problems so far. -/
  problems : List Error

namespace Reading

/-- The reader at the beginning of a text. -/
def start (root : Sequence) (fresh : NodeId) : Reading := ⟨root, [], .list, fresh, []⟩

/-- Notes a problem. -/
def report (r : Reading) (e : Error) : Reading := { r with problems := r.problems ++ [e] }

/-- Changes the innermost open node. -/
def mapOpen (f : Subtree → Subtree) (r : Reading) : Reading :=
  match r.openNodes with
  | [] => r
  | o :: rest => { r with openNodes := { o with subtree := f o.subtree } :: rest }

/-- The list that a node is placed in when its block closes. -/
def level (r : Reading) : Level :=
  match r.openNodes with
  | [] => r.root.level
  | o :: _ => o.subtree.node.branch.getD r.root.level

/-- Places a node in the innermost list. -/
def placeNode (r : Reading) (t : Subtree) : Except Error Reading :=
  match r.openNodes with
  | [] => do return { r with root := ← r.root.append t none }
  | o :: rest => do
    let s ← Sequence.adopt ⟨r.level, o.subtree.branch⟩ t
    let node := { o.subtree.node with branch := some s.level }
    return { r with openNodes := { o with subtree := ⟨node, s.nodes⟩ } :: rest }

/-- **Closes the block of the innermost open node** and places the node. -/
def close (r : Reading) : Reading :=
  match r.openNodes with
  | [] => r
  | o :: rest =>
    let outer := { r with openNodes := rest, place := .list }
    match outer.placeNode o.subtree with
    | .ok r => r
    | .error e => outer.report (e.atLine o.line)

/-- Adds a block of dynamic sites to the innermost open node. -/
def addDynamicSite (d : DynamicSite) : Subtree → Subtree
  | ⟨n, branch⟩ =>
    match n.kind with
    | .select blocks chosen => ⟨{ n with kind := .select (blocks ++ [d]) chosen }, branch⟩
    | _ => ⟨n, branch⟩

/-- Closes a block of dynamic sites. -/
def closeDynamicSite (r : Reading) (d : DynamicSite) : Reading :=
  { r.mapOpen (addDynamicSite d) with place := .block }

/-- What an outcome of reading adds to the problems. -/
def reportOutcome (r : Reading) (type : NodeType) (keyword : String) (line : Nat) :
    ReadOutcome → Reading
  | .success | .deprecated _ => r
  | .failed e => r.report (e.atLine line)
  | .unrecognised => r.report ((Error.unrecognisedKeyword type.keyword keyword).atLine line)

/-- The word that closes a block of dynamic sites. -/
def dynamicSiteEnd : String := "End" ++ NodeType.dynamicSite.keyword

/-- Takes a line that stands in a list of nodes. -/
def listStep (lookup : Lookup) (r : Reading) (line : Nat) (keyword : String)
    (values : List String) : Reading :=
  if sameName keyword r.level.terminator then
    { r with place := if r.openNodes.isEmpty then .behind else .block }
  else match lookup.registry.typeOf keyword with
    | .error e => { r.report (e.atLine line) with place := .unreadable keyword 1 }
    | .ok type =>
      let node := Node.ofType r.fresh type
      let node := match values with
        | name :: _ => node.rename name
        | [] => node
      { r with
        openNodes := ⟨⟨node, .nil⟩, line⟩ :: r.openNodes
        place := .block
        fresh := ⟨r.fresh.value + 1⟩ }

/-- Takes a line that stands in the block of a node. -/
def blockStep (lookup : Lookup) (r : Reading) (line : Nat) (keyword : String)
    (values : List String) : Reading :=
  match r.openNodes with
  | [] => r
  | o :: _ =>
    let node := o.subtree.node
    if sameName keyword node.terminator then r.close
    else if node.branch.any fun l => sameName keyword l.keyword then { r with place := .list }
    else if node.type = .select ∧ sameName keyword NodeType.dynamicSite.keyword then
      { r with place := .dynamicSite .empty }
    else
      let (outcome, node) := node.readLine keyword values lookup.catalogue
      (r.mapOpen fun t => { t with node }).reportOutcome node.type keyword line outcome

/-- Takes a line that stands in a block of dynamic sites. -/
def dynamicSiteStep (lookup : Lookup) (r : Reading) (d : DynamicSite) (line : Nat)
    (keyword : String) (values : List String) : Reading :=
  if sameName keyword dynamicSiteEnd then r.closeDynamicSite d
  else
    let (outcome, d) := d.readLine keyword values lookup.catalogue
    { r.reportOutcome .dynamicSite keyword line outcome with place := .dynamicSite d }

/-- Takes a line that stands in a block that cannot be read. -/
def unreadableStep (r : Reading) (skipped : String) (depth : Nat) (keyword : String) : Reading :=
  if sameName keyword skipped then { r with place := .unreadable skipped (depth + 1) }
  else if sameName keyword ("End" ++ skipped) then
    { r with place := if depth ≤ 1 then .list else .unreadable skipped (depth - 1) }
  else r

/-- **Takes a line.**  A line that cannot be split ends a block that is passed over. -/
def step (lookup : Lookup) (r : Reading) (l : ArgumentLine) : Reading :=
  match r.place, l.args with
  | .behind, _ | _, .ok [] => r
  | .unreadable _ _, .error _ => { r with place := .list }
  | _, .error e => r.report e
  | .list, .ok (keyword :: values) => r.listStep lookup l.number keyword values
  | .block, .ok (keyword :: values) => r.blockStep lookup l.number keyword values
  | .dynamicSite d, .ok (keyword :: values) => r.dynamicSiteStep lookup d l.number keyword values
  | .unreadable skipped depth, .ok (keyword :: _) => r.unreadableStep skipped depth keyword

/-- The text ended where a word was needed. -/
def reportEnd (r : Reading) (terminator : String) (line : Nat) : Reading :=
  r.report ((Error.unexpectedEnd terminator).atLine line)

/-- Closes the block of the innermost open node, and before that its branch if that is open too. -/
def closeAtEnd (line : Nat) (r : Reading) (o : OpenNode) : Reading :=
  let r := match r.place with
    | .block => r
    | _ => r.reportEnd r.level.terminator line
  (r.reportEnd o.subtree.node.terminator line).close

/-- **Closes all that is open** at the end of the text; `line` is the number of its last line. -/
def finish (r : Reading) (line : Nat) : Reading :=
  let r := match r.place with
    | .dynamicSite d => (r.reportEnd dynamicSiteEnd line).closeDynamicSite d
    | _ => r
  r.openNodes.foldl (closeAtEnd line) r

end Reading

/-- All problems of a reading together. -/
def readOutcome (problems : List Error) : Except Error Unit :=
  if problems.isEmpty then .ok () else .error (.readFailed problems)

/-- **Reads a tree** into an empty root; the second part is the identity for the next node. -/
def Sequence.ofText (lookup : Lookup) (root : Sequence) (fresh : NodeId) (text : String) :
    Except Error Sequence × NodeId :=
  let r := (argumentLines text).foldl (Reading.step lookup) (.start root fresh)
  let r := r.finish (linesOf text).length
  ((readOutcome r.problems).map fun _ => r.root, r.fresh)

end SiteAnalysis
