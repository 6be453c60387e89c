import SiteAnalysis.Proofs.Node.Faults
import SiteAnalysis.Proofs.Tree.BadLines

set_option autoImplicit false

/-! # Numbers of lines

What the reader makes of a line does not depend on the number of the line, nor on the problems before
it. Numbers come up in problems only, so that a text with other numbers is read to the same end with
these numbers in its problems. Main statements:

* `Reading.Renumbering.step`, `Reading.Renumbering.takeLines`: lines with other numbers.
* `Reading.Renumbering.finish`: the end of a text with another number.
-/

namespace SiteAnalysis

/-! ## Problems of lines -/

namespace Error

/-- **What can be told of a line**: faults of its arguments, words that are not known, and nodes
that cannot be placed. -/
inductive IsOfLine : Error → Prop
  | fault {e : Error} (h : e.IsFault) : IsOfLine e
  | unrecognisedKeyword {nodeType keyword : String} :
      IsOfLine (.unrecognisedKeyword nodeType keyword)
  | unrecognisedNodeType {keyword : String} : IsOfLine (.unrecognisedNodeType keyword)
  | wrongContext {nodeType context : String} : IsOfLine (.wrongContext nodeType context)
  | duplicateName {name : String} : IsOfLine (.duplicateName name)

/-- An error that is told of a line does not stand on one yet. -/
theorem IsOfLine.atLine {e : Error} (h : e.IsOfLine) (line : Nat) : e.atLine line = .onLine line e := by
  cases h with
  | fault h => cases h <;> rfl
  | _ => rfl

/-- **An error in a text into which lines were put** from a number on. What is missing at the end of
the text is told of its last line, which is behind them. -/
def moved (start count : Nat) : Error → Error
  | onLine line (unexpectedEnd terminator) => onLine (line + count) (unexpectedEnd terminator)
  | onLine line e => onLine (if start ≤ line then line + count else line) e
  | e => e

theorem IsOfLine.moved {e : Error} (h : e.IsOfLine) (start count line : Nat) :
    (onLine line e).moved start count = onLine (if start ≤ line then line + count else line) e := by
  cases h with
  | fault h => cases h <;> rfl
  | _ => rfl

end Error

/-- A line that cannot be split has a fault. -/
theorem isFault_of_tokenise {line : String} {e : Error} (h : tokenise line = .error e) :
    e.IsFault := by
  unfold tokenise at h
  split at h
  · cases h
  · obtain rfl := Except.error.inj h
    exact .invalidArgument

theorem Registry.isOfLine_of_typeOf {registry : Registry} {keyword : String} {e : Error}
    (h : registry.typeOf keyword = .error e) : e.IsOfLine := by
  unfold typeOf at h
  split at h
  · obtain rfl := Except.error.inj h
    exact .unrecognisedNodeType
  · split at h
    · cases h
    · obtain rfl := Except.error.inj h
      exact .unrecognisedNodeType

theorem Sequence.isOfLine_of_place {s : Sequence} {t : Subtree} {taken : List String} {naming : Bool}
    {e : Error} (h : s.place t none taken naming = .error e) : e.IsOfLine := by
  rw [place_eq] at h
  split at h
  · obtain rfl := Except.error.inj h
    exact .wrongContext
  · obtain rfl := Except.error.inj h
    exact .duplicateName
  · cases h

namespace Reading

variable {lookup : Lookup} {r : Reading} {o : OpenNode} {rest : List OpenNode}

/-! ## Places of nodes -/

theorem isOfLine_of_placeNode {t : Subtree} {e : Error} (h : r.placeNode t = .error e) :
    e.IsOfLine := by
  cases hopen : r.openNodes with
  | nil =>
      rw [placeNode_of_nil hopen] at h
      exact Sequence.isOfLine_of_place (map_eq_error_iff.1 h)
  | cons o rest =>
      rw [placeNode_of_cons hopen] at h
      exact Sequence.isOfLine_of_place (map_eq_error_iff.1 h)

/-! ## Other numbers -/

/-- **Other numbers for lines**: what is told of a line is told with its new number, behind some
earlier problems. -/
structure Renumbering where
  number : Nat → Nat
  told : Error → Error
  earlier : List Error
  told_onLine : ∀ {e : Error}, e.IsOfLine → ∀ line, told (.onLine line e) = .onLine (number line) e

namespace Renumbering

variable (m : Renumbering) {lookup : Lookup}

/-- A node whose block begins on a line with another number. -/
def openNode (o : OpenNode) : OpenNode := { o with line := m.number o.line }

/-- **The reader with other numbers.** -/
def apply (r : Reading) : Reading :=
  { r with
    openNodes := r.openNodes.map m.openNode
    problems := m.earlier ++ r.problems.map m.told }

@[simp] theorem subtree_openNode (o : OpenNode) : (m.openNode o).subtree = o.subtree := rfl

@[simp] theorem place_apply (r : Reading) : (m.apply r).place = r.place := rfl

@[simp] theorem openNodes_apply (r : Reading) :
    (m.apply r).openNodes = r.openNodes.map m.openNode := rfl

@[simp] theorem level_apply (r : Reading) : (m.apply r).level = r.level := by
  unfold Reading.level
  cases hopen : r.openNodes with
  | nil => simp [hopen, apply]
  | cons o rest => simp [hopen, apply, openNode]

theorem report {e e' : Error} (h : m.told e = e') (r : Reading) :
    (m.apply r).report e' = m.apply (r.report e) := by
  simp [Reading.report, apply, h]

theorem report_atLine {e : Error} (he : e.IsOfLine) (line : Nat) (r : Reading) :
    (m.apply r).report (e.atLine (m.number line)) = m.apply (r.report (e.atLine line)) :=
  m.report (by rw [he.atLine, he.atLine, m.told_onLine he]) r

theorem mapOpen (f : Subtree → Subtree) (r : Reading) :
    (m.apply r).mapOpen f = m.apply (r.mapOpen f) := by
  unfold Reading.mapOpen
  rw [openNodes_apply]
  cases hopen : r.openNodes with
  | nil => rfl
  | cons o rest => rfl

/-- A node is placed, or not, whatever the numbers are. -/
theorem placeNode (r : Reading) (t : Subtree) :
    (m.apply r).placeNode t = (r.placeNode t).map m.apply := by
  cases hopen : r.openNodes with
  | nil =>
      have hopen' : (m.apply r).openNodes = [] := by simp [hopen]
      have hroot : (m.apply r).root = r.root := rfl
      rw [placeNode_of_nil hopen, placeNode_of_nil hopen', hroot]
      cases r.root.append t none <;> rfl
  | cons o rest =>
      have hopen' : (m.apply r).openNodes = m.openNode o :: rest.map m.openNode := by simp [hopen]
      rw [placeNode_of_cons hopen, placeNode_of_cons hopen', level_apply]
      dsimp only [openNode]
      cases Sequence.adopt ⟨r.level, o.subtree.branch⟩ t <;> rfl

theorem close (r : Reading) : (m.apply r).close = m.apply r.close := by
  cases hopen : r.openNodes with
  | nil =>
      unfold Reading.close
      rw [openNodes_apply, hopen]
      rfl
  | cons o rest =>
      have hopen' : (m.apply r).openNodes = m.openNode o :: rest.map m.openNode := by simp [hopen]
      have houter : { m.apply r with openNodes := rest.map m.openNode, place := .list } =
          m.apply { r with openNodes := rest, place := .list } := rfl
      rw [close_of_cons hopen, close_of_cons hopen', houter, placeNode]
      dsimp only [openNode]
      cases hplace : Reading.placeNode { r with openNodes := rest, place := .list } o.subtree with
      | ok r' => rfl
      | error e => exact m.report_atLine (isOfLine_of_placeNode hplace) o.line _

theorem closeDynamicSite (d : DynamicSite) (r : Reading) :
    (m.apply r).closeDynamicSite d = m.apply (r.closeDynamicSite d) := by
  rw [Reading.closeDynamicSite, m.mapOpen]
  rfl

theorem reportOutcome {outcome : ReadOutcome} (houtcome : ∀ e, outcome = .failed e → e.IsFault)
    (type : NodeType) (keyword : String) (line : Nat) (r : Reading) :
    (m.apply r).reportOutcome type keyword (m.number line) outcome =
      m.apply (r.reportOutcome type keyword line outcome) := by
  cases outcome with
  | success => rfl
  | deprecated _ => rfl
  | failed e => exact m.report_atLine (.fault (houtcome e rfl)) line r
  | unrecognised => exact m.report_atLine .unrecognisedKeyword line r

/-! ## Lines -/

theorem listStep (r : Reading) (line : Nat) (keyword : String) (values : List String) :
    (m.apply r).listStep lookup (m.number line) keyword values =
      m.apply (r.listStep lookup line keyword values) := by
  unfold Reading.listStep
  rw [level_apply]
  split
  · simp [apply, List.isEmpty_map]
  · cases htype : lookup.registry.typeOf keyword with
    | error e =>
        dsimp only
        rw [m.report_atLine (Registry.isOfLine_of_typeOf htype)]
        rfl
    | ok t => rfl

theorem blockStep (r : Reading) (line : Nat) (keyword : String) (values : List String) :
    (m.apply r).blockStep lookup (m.number line) keyword values =
      m.apply (r.blockStep lookup line keyword values) := by
  cases hopen : r.openNodes with
  | nil =>
      unfold Reading.blockStep
      rw [openNodes_apply, hopen]
      rfl
  | cons o rest =>
      have hopen' : (m.apply r).openNodes = m.openNode o :: rest.map m.openNode := by simp [hopen]
      rw [blockStep_of_openNodes hopen, blockStep_of_openNodes hopen']
      dsimp only [openNode]
      split
      · exact m.close r
      · split
        · rfl
        · split
          · rfl
          · rw [m.mapOpen]
            exact m.reportOutcome
              (o.subtree.node.isFault_readLine lookup.catalogue keyword values) _ _ _ _

theorem dynamicSiteStep (r : Reading) (d : DynamicSite) (line : Nat) (keyword : String)
    (values : List String) : (m.apply r).dynamicSiteStep lookup d (m.number line) keyword values =
      m.apply (r.dynamicSiteStep lookup d line keyword values) := by
  unfold Reading.dynamicSiteStep
  split
  · exact m.closeDynamicSite d r
  · dsimp only
    rw [m.reportOutcome (d.isFault_readLine lookup.catalogue keyword values)]
    rfl

theorem unreadableStep (r : Reading) (skipped : String) (depth : Nat) (keyword : String) :
    (m.apply r).unreadableStep skipped depth keyword =
      m.apply (r.unreadableStep skipped depth keyword) := by
  unfold Reading.unreadableStep
  split
  · rfl
  · split <;> rfl

/-- **A line with another number** does the same. -/
theorem step (r : Reading) (number : Nat) (line : String) :
    (m.apply r).step lookup (numberedLine (m.number number) line) =
      m.apply (r.step lookup (numberedLine number line)) := by
  unfold numberedLine Reading.step
  rw [place_apply]
  cases hargs : tokenise line with
  | error e =>
      have hreport := m.report_atLine (.fault (isFault_of_tokenise hargs)) number r
      cases r.place with
      | behind => rfl
      | unreadable _ _ => rfl
      | list => exact hreport
      | block => exact hreport
      | dynamicSite _ => exact hreport
  | ok args =>
      cases args with
      | nil => cases r.place <;> rfl
      | cons word values =>
          cases r.place with
          | list => exact m.listStep r number word values
          | block => exact m.blockStep r number word values
          | dynamicSite d => exact m.dynamicSiteStep r d number word values
          | unreadable skipped depth => exact m.unreadableStep r skipped depth word
          | behind => rfl

/-- **So do all lines of a text** from a number on. -/
theorem takeLines {number number' : Nat} (h : ∀ i, m.number (number + i) = number' + i)
    (r : Reading) (lines : List String) : (m.apply r).takeLines lookup number' lines =
      m.apply (r.takeLines lookup number lines) := by
  induction lines generalizing number number' r with
  | nil => rfl
  | cons line lines ih =>
      have hnext : ∀ i, m.number (number + 1 + i) = number' + 1 + i := fun i => by
        rw [Nat.add_right_comm number, Nat.add_assoc number, h, Nat.add_right_comm number']
        rfl
      have hhere : m.number number = number' := h 0
      rw [Reading.takeLines, Reading.takeLines, ← ih hnext, ← m.step, hhere]

/-! ## The end of a text -/

section

variable {line line' : Nat} (h : ∀ terminator,
  m.told (.onLine line (.unexpectedEnd terminator)) = .onLine line' (.unexpectedEnd terminator))
include h

theorem reportEnd (r : Reading) (terminator : String) :
    (m.apply r).reportEnd terminator line' = m.apply (r.reportEnd terminator line) :=
  m.report (h terminator) r

theorem closeAtEnd (r : Reading) (o : OpenNode) :
    (m.apply r).closeAtEnd line' (m.openNode o) = m.apply (r.closeAtEnd line o) := by
  unfold Reading.closeAtEnd
  rw [place_apply, level_apply, subtree_openNode]
  cases r.place <;> simp only [m.reportEnd h, m.close]

theorem closeAll (r : Reading) (nodes : List OpenNode) :
    (nodes.map m.openNode).foldl (Reading.closeAtEnd line') (m.apply r) =
      m.apply (nodes.foldl (Reading.closeAtEnd line) r) := by
  induction nodes generalizing r with
  | nil => rfl
  | cons o nodes ih => rw [List.map_cons, List.foldl_cons, List.foldl_cons, m.closeAtEnd h, ih]

/-- **The end of a text with another number** is told with it. -/
theorem finish (r : Reading) : (m.apply r).finish line' = m.apply (r.finish line) := by
  unfold Reading.finish
  rw [place_apply]
  cases r.place with
  | dynamicSite d =>
      dsimp only
      rw [m.reportEnd h, m.closeDynamicSite]
      exact m.closeAll h _ _
  | _ => exact m.closeAll h _ _

end

/-! ## Lines that were put in -/

/-- Other problems before those that are told. -/
def behind (earlier : List Error) : Renumbering := ⟨id, id, earlier, fun _ _ => rfl⟩

/-- Lines that were put in from a number on. -/
def inserting (start count : Nat) (earlier : List Error) : Renumbering where
  number line := if start ≤ line then line + count else line
  told := Error.moved start count
  earlier
  told_onLine he line := he.moved start count line

theorem number_inserting (start count : Nat) (earlier : List Error) (line : Nat) :
    (inserting start count earlier).number line = if start ≤ line then line + count else line :=
  rfl

end Renumbering

end Reading

end SiteAnalysis
