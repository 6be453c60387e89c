import SiteAnalysis.Proofs.Text.Walk
import SiteAnalysis.Proofs.Tree.Outline

set_option autoImplicit false

/-! # Bad lines in blocks

A line in the block of a node that cannot be split, or that begins with a word which the block does
not know, is a problem and changes nothing. So a text to which such lines were added is refused for
these lines, and for nothing else. Main statements:

* `Reading.Alike.step`: a line that is no problem does the same to two readers that differ in what
  they have told so far.
* `Reading.Alike.step_of_isBadLine`: what a bad line does.
* `Sequence.ofText_of_addBadLines`: what is told of a whole text.
-/

namespace SiteAnalysis

/-! ## Lines added to a text -/

/-- **Whether a line is bad in the block of a type**: it cannot be split, or it begins with a word
that the block does not know. -/
def NodeType.IsBadLine (t : NodeType) (line : String) : Prop :=
  match tokenise line with
  | .error _ => True
  | .ok [] => False
  | .ok (word :: _) => t.IsForeign word

instance (t : NodeType) (line : String) : Decidable (t.IsBadLine line) :=
  match h : tokenise line with
  | .error _ => .isTrue (by rw [NodeType.IsBadLine, h]; trivial)
  | .ok [] => .isFalse (by rw [NodeType.IsBadLine, h]; exact id)
  | .ok (word :: _) => decidable_of_iff (t.IsForeign word) (by rw [NodeType.IsBadLine, h])

/-- What is wrong with a line that is bad in the block of a type. -/
def NodeType.complaint (t : NodeType) (line : String) : Error :=
  match tokenise line with
  | .error e => e
  | .ok args => .unrecognisedKeyword t.keyword (args.headD "")

/-- What encloses a text behind a line. -/
def enclosedAfter (registry : Registry) (root line : String) (o : Option (List Enclosure)) :
    Option (List Enclosure) :=
  match tokenise line with
  | .ok (word :: _) => enclosedBy registry root word o
  | _ => o

/-- A line of a text to which lines were added. -/
inductive EditedLine where
  | kept (line : String)
  /-- A line that was added in the block of a type. -/
  | added (line : String) (t : NodeType)

namespace EditedLine

/-- The line in the old text. -/
def old? : EditedLine → Option String
  | kept line => some line
  | added _ _ => none

/-- The line in the new text. -/
def new : EditedLine → String
  | kept line | added line _ => line

/-- **Every added line is bad**, and stands directly in a block of its type. -/
def AddBadLines (registry : Registry) (root : String) :
    Option (List Enclosure) → List EditedLine → Prop
  | _, [] => True
  | o, kept line :: lines => AddBadLines registry root (enclosedAfter registry root line o) lines
  | o, added line t :: lines =>
    o.bind List.head? = some (.block t) ∧ t.IsBadLine line ∧ AddBadLines registry root o lines

instance (registry : Registry) (root : String) : ∀ (o : Option (List Enclosure))
    (lines : List EditedLine), Decidable (AddBadLines registry root o lines)
  | _, [] => .isTrue trivial
  | o, kept line :: lines =>
    instDecidableAddBadLines registry root (enclosedAfter registry root line o) lines
  | o, added _ _ :: lines =>
    have := instDecidableAddBadLines registry root o lines
    inferInstanceAs (Decidable (_ ∧ _ ∧ _))

/-- **One problem for each added line**, with the number of the line in the new text. -/
def complaints : Nat → List EditedLine → List Error
  | _, [] => []
  | number, kept _ :: lines => complaints (number + 1) lines
  | number, added line t :: lines =>
    .onLine number (t.complaint line) :: complaints (number + 1) lines

theorem complaints_ne_nil {line : String} {t : NodeType} {lines : List EditedLine}
    (h : added line t ∈ lines) (number : Nat) : complaints number lines ≠ [] := by
  induction lines generalizing number with
  | nil => cases h
  | cons l lines ih =>
      cases l with
      | added _ _ => exact List.cons_ne_nil _ _
      | kept _ =>
          rcases List.mem_cons.1 h with h | h
          · cases h
          · exact ih h (number + 1)

end EditedLine

/-! ## Lines and their numbers -/

/-- A line as the reader takes it. -/
def numberedLine (number : Nat) (line : String) : ArgumentLine :=
  ⟨number, (tokenise line).mapError (Error.atLine number)⟩

namespace Reading

variable {lookup : Lookup}

/-- Takes lines with numbers from a number on. -/
def takeLines (lookup : Lookup) : Nat → Reading → List String → Reading
  | _, r, [] => r
  | number, r, line :: lines =>
    takeLines lookup (number + 1) (r.step lookup (numberedLine number line)) lines

theorem step_empty (r : Reading) (number : Nat) : r.step lookup ⟨number, .ok []⟩ = r := by
  unfold step
  cases r.place <;> rfl

theorem foldl_argumentLines (text : String) (r : Reading) :
    (argumentLines text).foldl (step lookup) r = r.takeLines lookup 1 (linesOf text) := by
  unfold argumentLines
  generalize linesOf text = lines
  generalize 1 = number
  induction lines generalizing number r with
  | nil => rfl
  | cons line lines ih =>
      -- Empty lines are left out of the one list, and change nothing when they are taken.
      rw [List.zipIdx_cons, List.filterMap_cons, takeLines, ← ih, numberedLine]
      dsimp only
      cases hargs : tokenise line with
      | error e => rfl
      | ok args =>
          cases args with
          | nil => exact congrArg (List.foldl _ · _) (step_empty r number).symm
          | cons word values => rfl

theorem problems_prefix_takeLines (number : Nat) (r : Reading) (lines : List String) :
    r.problems <+: (r.takeLines lookup number lines).problems := by
  induction lines generalizing number r with
  | nil => exact List.prefix_rfl
  | cons line lines ih => exact (problems_prefix_step r _).trans (ih _ _)

/-! ## Readers that differ in their problems -/

/-- The second reader has found some problems, and stands at the same place of the same tree as the
first; the lines on which the open blocks begin may differ. -/
structure Alike (problems : List Error) (r r' : Reading) : Prop where
  root : r'.root = r.root
  subtrees : r'.openNodes.map OpenNode.subtree = r.openNodes.map OpenNode.subtree
  place : r'.place = r.place
  fresh : r'.fresh = r.fresh
  problems : r'.problems = problems

namespace Alike

variable {problems : List Error} {r r' : Reading}

theorem report (h : Alike problems r r') (e : Error) : Alike (problems ++ [e]) r (r'.report e) :=
  ⟨h.root, h.subtrees, h.place, h.fresh, by rw [Reading.report, h.problems]⟩

theorem withPlace (h : Alike problems r r') (place : Place) :
    Alike problems { r with place } { r' with place } :=
  ⟨h.root, h.subtrees, rfl, h.fresh, h.problems⟩

/-- The innermost open nodes of both are the same. -/
theorem exists_openNodes (h : Alike problems r r') {o : OpenNode} {rest : List OpenNode}
    (hopen : r.openNodes = o :: rest) : ∃ o' rest', r'.openNodes = o' :: rest' ∧
      o'.subtree = o.subtree ∧ rest'.map OpenNode.subtree = rest.map OpenNode.subtree := by
  have hsubtrees := h.subtrees
  rw [hopen, List.map_cons, List.map_eq_cons_iff] at hsubtrees
  obtain ⟨o', rest', hopen', hsubtree, hrest⟩ := hsubtrees
  exact ⟨o', rest', hopen', hsubtree, hrest⟩

theorem openNodes_eq_nil (h : Alike problems r r') (hopen : r.openNodes = []) :
    r'.openNodes = [] := by
  have hsubtrees := h.subtrees
  rwa [hopen, List.map_nil, List.map_eq_nil_iff] at hsubtrees

theorem level (h : Alike problems r r') : r'.level = r.level := by
  unfold Reading.level
  cases hopen : r.openNodes with
  | nil => rw [h.openNodes_eq_nil hopen, h.root]
  | cons o rest =>
      obtain ⟨o', rest', hopen', hsubtree, -⟩ := h.exists_openNodes hopen
      rw [hopen', h.root]
      dsimp only
      rw [hsubtree]

theorem mapOpen (h : Alike problems r r') (f : Subtree → Subtree) :
    Alike problems (r.mapOpen f) (r'.mapOpen f) := by
  unfold Reading.mapOpen
  cases hopen : r.openNodes with
  | nil =>
      rw [h.openNodes_eq_nil hopen]
      exact h
  | cons o rest =>
      obtain ⟨o', rest', hopen', hsubtree, hrest⟩ := h.exists_openNodes hopen
      rw [hopen']
      exact ⟨h.root, by simp [hsubtree, hrest], h.place, h.fresh, h.problems⟩

/-- A node that the first reader can place, the second places as well. -/
theorem placeNode (h : Alike problems r r') {t : Subtree} {s : Reading}
    (hs : r.placeNode t = .ok s) : ∃ s', r'.placeNode t = .ok s' ∧ Alike problems s s' := by
  have hlevel := h.level
  unfold Reading.placeNode at hs ⊢
  cases hopen : r.openNodes with
  | nil =>
      rw [hopen] at hs
      obtain ⟨root, hroot, heq⟩ := bind_eq_ok_iff.1 hs
      obtain rfl := Except.ok.inj heq
      rw [h.openNodes_eq_nil hopen, h.root]
      dsimp only
      rw [hroot]
      exact ⟨_, rfl, rfl, by simp, h.place, h.fresh, h.problems⟩
  | cons o rest =>
      rw [hopen] at hs
      obtain ⟨o', rest', hopen', hsubtree, hrest⟩ := h.exists_openNodes hopen
      obtain ⟨adopted, hadopted, heq⟩ := bind_eq_ok_iff.1 hs
      obtain rfl := Except.ok.inj heq
      rw [hopen']
      dsimp only
      rw [hlevel, hsubtree, hadopted]
      exact ⟨_, rfl, h.root, by simp [hrest], h.place, h.fresh, h.problems⟩

theorem close (h : Alike problems r r') (hok : r.close.problems = []) :
    Alike problems r.close r'.close := by
  unfold Reading.close at hok ⊢
  cases hopen : r.openNodes with
  | nil =>
      rw [h.openNodes_eq_nil hopen]
      exact h
  | cons o rest =>
      obtain ⟨o', rest', hopen', hsubtree, hrest⟩ := h.exists_openNodes hopen
      have houter : Alike problems { r with openNodes := rest, place := .list }
          { r' with openNodes := rest', place := .list } :=
        ⟨h.root, hrest, rfl, h.fresh, h.problems⟩
      rw [hopen] at hok
      rw [hopen']
      dsimp only at hok ⊢
      cases hplaced : Reading.placeNode { r with openNodes := rest, place := .list } o.subtree with
      | error e =>
          rw [hplaced] at hok
          exact absurd hok (problems_report_ne_nil _ _)
      | ok s =>
          obtain ⟨s', hplaced', hs⟩ := houter.placeNode hplaced
          rw [hsubtree, hplaced']
          exact hs

/-- What was read of a line is taken over by both. -/
theorem reportOutcome (h : Alike problems r r') {t : NodeType} {word : String} {line : Nat}
    (line' : Nat) {outcome : ReadOutcome}
    (hok : (r.reportOutcome t word line outcome).problems = []) :
    Alike problems (r.reportOutcome t word line outcome)
      (r'.reportOutcome t word line' outcome) := by
  cases outcome with
  | success => exact h
  | deprecated _ => exact h
  | failed e => exact absurd hok (problems_report_ne_nil _ _)
  | unrecognised => exact absurd hok (problems_report_ne_nil _ _)

theorem listStep (h : Alike problems r r') {line : Nat} (line' : Nat) {word : String}
    {values : List String} (hok : (r.listStep lookup line word values).problems = []) :
    Alike problems (r.listStep lookup line word values)
      (r'.listStep lookup line' word values) := by
  unfold Reading.listStep at hok ⊢
  rw [h.level]
  split
  · have hempty : r'.openNodes.isEmpty = r.openNodes.isEmpty := by
      rw [← List.isEmpty_map (f := OpenNode.subtree), h.subtrees, List.isEmpty_map]
    rw [hempty]
    exact h.withPlace _
  · next hword =>
      rw [if_neg hword] at hok
      cases htype : lookup.registry.typeOf word with
      | error e =>
          rw [htype] at hok
          exact absurd hok (problems_report_ne_nil _ _)
      | ok t =>
          dsimp only
          rw [h.fresh]
          exact ⟨h.root, by simp [h.subtrees], rfl, rfl, h.problems⟩

theorem blockStep (h : Alike problems r r') {line : Nat} (line' : Nat) {word : String}
    {values : List String} (hok : (r.blockStep lookup line word values).problems = []) :
    Alike problems (r.blockStep lookup line word values)
      (r'.blockStep lookup line' word values) := by
  cases hopen : r.openNodes with
  | nil =>
      unfold Reading.blockStep
      rw [hopen, h.openNodes_eq_nil hopen]
      exact h
  | cons o rest =>
      obtain ⟨o', rest', hopen', hsubtree, -⟩ := h.exists_openNodes hopen
      rw [blockStep_of_openNodes hopen] at hok ⊢
      rw [blockStep_of_openNodes hopen', hsubtree]
      dsimp only at hok ⊢
      split
      · next hend =>
          rw [if_pos hend] at hok
          exact h.close hok
      · next hend =>
          rw [if_neg hend] at hok
          split
          · exact h.withPlace _
          · next hbranch =>
              rw [if_neg hbranch] at hok
              split
              · exact h.withPlace _
              · next hblock =>
                  rw [if_neg hblock] at hok
                  exact (h.mapOpen _).reportOutcome line' hok

theorem dynamicSiteStep (h : Alike problems r r') {d : DynamicSite} {line : Nat} (line' : Nat)
    {word : String} {values : List String}
    (hok : (r.dynamicSiteStep lookup d line word values).problems = []) :
    Alike problems (r.dynamicSiteStep lookup d line word values)
      (r'.dynamicSiteStep lookup d line' word values) := by
  unfold Reading.dynamicSiteStep at hok ⊢
  split
  · exact (h.mapOpen _).withPlace _
  · next hend =>
      rw [if_neg hend] at hok
      exact (h.reportOutcome line' hok).withPlace _

/-- **A line that is no problem does the same to both.** -/
theorem step {P : String → Prop} {level : Level} {start : Nat} (h : Alike problems r r')
    (hsound : r.IsSound P lookup level start) {number : Nat} (number' : Nat) {line : String}
    (hok : (r.step lookup (numberedLine number line)).problems = []) :
    Alike problems (r.step lookup (numberedLine number line))
      (r'.step lookup (numberedLine number' line)) := by
  have hplace := hsound.place
  unfold numberedLine Reading.step at hok ⊢
  rw [h.place]
  cases hargs : tokenise line with
  | error e =>
      rw [hargs] at hok
      cases hp : r.place with
      | behind => exact h
      | unreadable skipped depth =>
          rw [hp] at hplace
          exact hplace.elim
      | _ =>
          rw [hp] at hok
          exact absurd hok (problems_report_ne_nil _ _)
  | ok args =>
      rw [hargs] at hok
      cases args with
      | nil => cases r.place <;> exact h
      | cons word values =>
          cases hp : r.place with
          | behind => exact h
          | unreadable skipped depth =>
              rw [hp] at hplace
              exact hplace.elim
          | list =>
              rw [hp] at hok
              exact h.listStep number' hok
          | block =>
              rw [hp] at hok
              exact h.blockStep number' hok
          | dynamicSite d =>
              rw [hp] at hok
              exact h.dynamicSiteStep number' hok

end Alike

/-! ## Bad lines -/

variable {P : String → Prop} {level : Level} {start : Nat} {r r' : Reading} {word line : String}

/-- A foreign word in the block of the innermost open node. -/
theorem blockStep_of_isForeign {R : KeywordData → KeywordData → Prop} {o : OpenNode}
    {rest : List OpenNode} (hopen : r.openNodes = o :: rest)
    (hfits : o.subtree.node.Fits R P lookup.catalogue)
    (hword : o.subtree.node.type.IsForeign word) (number : Nat) (values : List String) :
    r.blockStep lookup number word values =
      r.report (.onLine number (.unrecognisedKeyword o.subtree.node.type.keyword word)) := by
  have hend : sameName word o.subtree.node.terminator = false := hword.terminator
  have hbranch : (o.subtree.node.branch.any fun l => sameName word l.keyword) = false := by
    rw [← Bool.not_eq_true, Option.any_eq_true]
    rintro ⟨l, hl, hsame⟩
    have hkeyword : l.keyword ∈ o.subtree.node.type.branchKeyword? := by
      rw [← hfits.branch, Option.mem_def.1 hl]
      rfl
    rw [hword.branchKeyword _ hkeyword] at hsame
    cases hsame
  have hblock : ¬ (o.subtree.node.type = .select ∧
      sameName word NodeType.dynamicSite.keyword = true) := by
    rintro ⟨htype, hsame⟩
    rw [sameName_comm, hword.own (by simp [htype, NodeType.ownWords])] at hsame
    cases hsame
  -- The node is put back as it was read.
  have hsame : r.mapOpen (fun t => { t with node := o.subtree.node }) = r := by
    unfold mapOpen
    rw [hopen]
    dsimp only
    rw [← hopen]
  rw [blockStep_of_openNodes hopen]
  simp only [hend, hbranch, hblock, Bool.false_eq_true, if_false,
    Node.readLine_of_isForeign hfits hword, hsame]
  rfl

/-- A foreign word in a block of dynamic sites. -/
theorem dynamicSiteStep_of_isForeign {d : DynamicSite} (hplace : r.place = .dynamicSite d)
    (hword : NodeType.dynamicSite.IsForeign word) (number : Nat) (values : List String) :
    r.dynamicSiteStep lookup d number word values =
      r.report (.onLine number (.unrecognisedKeyword NodeType.dynamicSite.keyword word)) := by
  have hsame : { r with place := .dynamicSite d } = r := by rw [← hplace]
  unfold dynamicSiteStep
  rw [dynamicSiteEnd, hword.terminator, DynamicSite.readLine_of_isForeign hword]
  exact congrArg (report · _) hsame

/-- The reader in a block. -/
theorem place_of_outline {t : NodeType} (h : r.outline.bind List.head? = some (.block t)) :
    (r.place = .block ∧ ∃ o rest, r.openNodes = o :: rest ∧ o.subtree.node.type = t) ∨
      (∃ d, r.place = .dynamicSite d) ∧ t = .dynamicSite := by
  unfold outline openTypes at h
  cases hplace : r.place with
  | list =>
      rw [hplace] at h
      cases hopen : r.openNodes <;> rw [hopen] at h <;> cases h
  | block =>
      rw [hplace] at h
      cases hopen : r.openNodes with
      | nil => rw [hopen] at h; cases h
      | cons o rest =>
          rw [hopen] at h
          cases h
          exact .inl ⟨rfl, o, rest, rfl, rfl⟩
  | dynamicSite d =>
      rw [hplace] at h
      cases hopen : r.openNodes with
      | nil => rw [hopen] at h; cases h
      | cons o rest =>
          rw [hopen] at h
          cases h
          exact .inr ⟨⟨d, rfl⟩, rfl⟩
  | unreadable skipped depth =>
      rw [hplace] at h
      cases h
  | behind =>
      rw [hplace] at h
      cases h

/-- **A bad line is a problem, and nothing else.** -/
theorem Alike.step_of_isBadLine {problems : List Error} (h : Alike problems r r')
    (hsound : r.IsSound P lookup level start) {t : NodeType}
    (hblock : r.outline.bind List.head? = some (.block t)) (hbad : t.IsBadLine line)
    (number : Nat) :
    Alike (problems ++ [.onLine number (t.complaint line)]) r
      (r'.step lookup (numberedLine number line)) := by
  suffices hstep : r'.step lookup (numberedLine number line) =
      r'.report (.onLine number (t.complaint line)) by
    rw [hstep]
    exact h.report _
  unfold NodeType.IsBadLine at hbad
  unfold numberedLine NodeType.complaint Reading.step
  cases hargs : tokenise line with
  | error e =>
      rw [h.place]
      obtain ⟨hplace, -⟩ | ⟨⟨d, hplace⟩, -⟩ := place_of_outline hblock <;> rw [hplace] <;>
        exact congrArg r'.report (LineReader.atLine_of_tokenise hargs number)
  | ok args =>
      rw [hargs] at hbad
      cases args with
      | nil => cases hbad
      | cons word values =>
          obtain ⟨hplace, o, rest, hopen, rfl⟩ | ⟨⟨d, hplace⟩, rfl⟩ := place_of_outline hblock
          · obtain ⟨o', rest', hopen', hsubtree, -⟩ := h.exists_openNodes hopen
            have hnode := (hsound.opened o (by simp [hopen])).nodes o.subtree.node (by simp)
            rw [← hsubtree] at hbad hnode ⊢
            rw [h.place, hplace]
            exact blockStep_of_isForeign hopen' hnode.fits hbad number values
          · have hplace' := h.place.trans hplace
            rw [hplace']
            exact dynamicSiteStep_of_isForeign hplace' hbad number values

/-- Where the reader is behind a line that is no problem. -/
theorem outline_numberedLine (h : r.IsSound P lookup level start) {number : Nat}
    (hok : (r.step lookup (numberedLine number line)).problems = []) :
    (r.step lookup (numberedLine number line)).outline =
      enclosedAfter lookup.registry level.keyword line r.outline := by
  unfold enclosedAfter
  cases hargs : tokenise line with
  | error e =>
      -- A line that cannot be split is a problem wherever lines are read.
      have hplace := h.place
      unfold numberedLine step at hok ⊢
      rw [hargs] at hok ⊢
      cases hp : r.place with
      | behind => rfl
      | unreadable skipped depth =>
          rw [hp] at hplace
          exact hplace.elim
      | _ =>
          rw [hp] at hok
          exact absurd hok (problems_report_ne_nil _ _)
  | ok args =>
      cases args with
      | nil =>
          unfold numberedLine
          rw [hargs]
          exact congrArg outline (step_empty r number)
      | cons word values =>
          have hline : (numberedLine number line).args = .ok (word :: values) := by
            rw [numberedLine, hargs]
            rfl
          exact outline_step h hline hok

/-! ## Whole texts -/

/-- **The added lines are the problems**, and the rest is read as before. -/
theorem Alike.takeLines {problems : List Error} (h : Alike problems r r')
    (hsound : r.IsSound (fun _ => True) lookup level start) {number : Nat} (number' : Nat)
    {lines : List EditedLine}
    (hok : (r.takeLines lookup number (lines.filterMap EditedLine.old?)).problems = [])
    (hbad : EditedLine.AddBadLines lookup.registry level.keyword r.outline lines) :
    Alike (problems ++ EditedLine.complaints number' lines)
      (r.takeLines lookup number (lines.filterMap EditedLine.old?))
      (r'.takeLines lookup number' (lines.map EditedLine.new)) := by
  -- Along the edited text. The first reader skips the added lines, so its outline stays that of
  -- the lines that were kept.
  induction lines generalizing problems r r' number number' with
  | nil =>
      rw [EditedLine.complaints, List.append_nil]
      exact h
  | cons l lines ih =>
      cases l with
      | kept line =>
          have hline : (r.step lookup (numberedLine number line)).problems <+:
              (takeLines lookup (number + 1) (r.step lookup (numberedLine number line))
                (lines.filterMap EditedLine.old?)).problems := problems_prefix_takeLines _ _ _
          rw [List.filterMap_cons] at hok ⊢
          dsimp only [EditedLine.old?, takeLines] at hok ⊢
          rw [hok, List.prefix_nil] at hline
          refine ih (h.step hsound number' hline) ?_ _ hok ?_
          · exact hsound.step isTextClass_true (fun _ _ _ _ => trivial) hline
          · rw [outline_numberedLine hsound hline]
            exact hbad
      | added line t =>
          obtain ⟨hblock, hline, hbad⟩ := hbad
          rw [EditedLine.complaints, List.append_cons]
          exact ih (h.step_of_isBadLine hsound hblock hline number') hsound _ hok hbad

/-- At the end of a text without problems no block of dynamic sites is open. -/
theorem place_of_finish {line : Nat} (h : (r.finish line).problems = []) (d : DynamicSite) :
    r.place ≠ .dynamicSite d := by
  intro hplace
  obtain ⟨hfinish, hopen⟩ := finish_of_problems_eq_nil h
  have hplace' := congrArg place hfinish
  simp [finish, hplace, closeDynamicSite, mapOpen, hopen, reportEnd, report] at hplace'

theorem finish_eq_self (hplace : ∀ d, r.place ≠ .dynamicSite d) (hopen : r.openNodes = [])
    (line : Nat) : r.finish line = r := by
  unfold finish
  split
  · next d hd => exact absurd hd (hplace d)
  · dsimp only
    rw [hopen]
    rfl

end Reading

/-- **Reading a text to which bad lines were added** gives their problems alone. -/
theorem Sequence.ofText_of_addBadLines {lookup : Lookup} {level : Level} {fresh : NodeId}
    {text text' : String} {root : Sequence} {lines : List EditedLine}
    (hread : (Sequence.ofText lookup ⟨level, .nil⟩ fresh text).1 = .ok root)
    (hold : linesOf text = lines.filterMap EditedLine.old?)
    (hnew : linesOf text' = lines.map EditedLine.new)
    (hbad : EditedLine.AddBadLines lookup.registry level.keyword (some []) lines) :
    (Sequence.ofText lookup ⟨level, .nil⟩ fresh text').1 =
      (readOutcome (EditedLine.complaints 1 lines)).map fun _ => root := by
  unfold Sequence.ofText at hread ⊢
  rw [Reading.foldl_argumentLines, hold] at hread
  obtain ⟨u, hok, rfl⟩ := map_eq_ok_iff.1 hread
  have hproblems := readOutcome_eq_ok_iff.1 hok
  -- The first reader has nothing open at the end, so neither has the second.
  obtain ⟨hfinish, hopen⟩ := Reading.finish_of_problems_eq_nil hproblems
  have hplace := Reading.place_of_finish hproblems
  rw [hfinish] at hproblems ⊢
  have halike := Reading.Alike.takeLines ⟨rfl, rfl, rfl, rfl, rfl⟩
    (Reading.isSound_start level fresh) 1 hproblems hbad
  rw [Reading.foldl_argumentLines, hnew]
  dsimp only
  rw [Reading.finish_eq_self (fun d => by rw [halike.place]; exact hplace d)
    (halike.openNodes_eq_nil hopen), halike.problems, halike.root]
  rfl

end SiteAnalysis
