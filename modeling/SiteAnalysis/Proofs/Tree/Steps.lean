import SiteAnalysis.Proofs.Node.Entries
import SiteAnalysis.Tree.TextReader

set_option autoImplicit false

/-! # What a line of a text does

A text is read line by line, and a line does one of a few things to the reader. They are told apart
here, each with what led to it, so that what is preserved by lines is proved by one case for each.
Main statements:

* `Reading.closesBlock_close`: what closing a block does.
* `Reading.actsInList_listStep`, `Reading.actsInBlock_blockStep`,
  `Reading.actsInSites_dynamicSiteStep`, `Reading.passesOver_unreadableStep`: what a line does in
  each place.
* `Reading.acts_step`: what a line does.
* `Reading.problems_prefix_step`: a problem that was found stays.
-/

namespace SiteAnalysis

/-! ## Nodes whose blocks begin -/

namespace Node

variable (fresh : NodeId) (type : NodeType) (values : List String)

/-- The node whose block a line begins: it has the first value as its name, if there is one. -/
def ofHeader : List String → Node
  | [] => ofType fresh type
  | name :: _ => (ofType fresh type).rename name

@[simp] theorem id_ofHeader : (ofHeader fresh type values).id = fresh := by
  cases values <;> rfl

@[simp] theorem type_ofHeader : (ofHeader fresh type values).type = type := by
  cases values <;> simp [ofHeader]

@[simp] theorem branch_ofHeader :
    (ofHeader fresh type values).branch = type.branchKeyword?.map (Level.branch fresh) := by
  cases values <;> rfl

theorem fits_ofHeader {R : KeywordData → KeywordData → Prop} {P : String → Prop}
    {catalogue : Catalogue} : (ofHeader fresh type values).Fits R P catalogue := by
  cases values with
  | nil => exact fits_ofType fresh type
  | cons name values => exact (fits_ofType fresh type).rename name

end Node

namespace Reading

variable {lookup : Lookup} {r : Reading} {o : OpenNode} {rest : List OpenNode}

/-! ## Blocks that close -/

theorem placeNode_of_nil (h : r.openNodes = []) (t : Subtree) :
    r.placeNode t = (r.root.append t none).map fun root => { r with root } := by
  unfold placeNode
  rw [h]
  cases r.root.append t none <;> rfl

theorem placeNode_of_cons (h : r.openNodes = o :: rest) (t : Subtree) :
    r.placeNode t = (Sequence.adopt ⟨r.level, o.subtree.branch⟩ t).map fun s =>
      { r with openNodes :=
        { o with subtree := ⟨{ o.subtree.node with branch := some s.level }, s.nodes⟩ } :: rest } := by
  unfold placeNode
  rw [h]
  dsimp only
  cases Sequence.adopt ⟨r.level, o.subtree.branch⟩ t <;> rfl

/-- What closing the block of the innermost open node does. -/
theorem close_of_cons (h : r.openNodes = o :: rest) :
    r.close = match placeNode { r with openNodes := rest, place := .list } o.subtree with
      | .ok r => r
      | .error e => report { r with openNodes := rest, place := .list } (e.atLine o.line) := by
  unfold close
  split
  · next hnil =>
      rw [h] at hnil
      cases hnil
  · next hopen =>
      obtain ⟨rfl, rfl⟩ := List.cons.inj (h.symm.trans hopen)
      rfl

/-- **What closing a block does.** -/
inductive ClosesBlock (r : Reading) : Reading → Prop
  /-- No block is open. -/
  | nothing (hopen : r.openNodes = []) : r.ClosesBlock r
  /-- The node is refused and dropped. -/
  | refused {o : OpenNode} {rest : List OpenNode} {e : Error} (hopen : r.openNodes = o :: rest)
      (hplace : placeNode { r with openNodes := rest, place := .list } o.subtree = .error e) :
      r.ClosesBlock (report { r with openNodes := rest, place := .list } (e.atLine o.line))
  /-- The node is placed in the root. -/
  | outermost {o : OpenNode} {root : Sequence} (hopen : r.openNodes = [o])
      (happend : r.root.append o.subtree none = .ok root) :
      r.ClosesBlock { r with root, openNodes := [], place := .list }
  /-- The node is placed in the branch of the node around it. -/
  | inside {o o' : OpenNode} {rest : List OpenNode} {s : Sequence}
      (hopen : r.openNodes = o :: o' :: rest)
      (hadopt : Sequence.adopt ⟨o'.subtree.node.branch.getD r.root.level, o'.subtree.branch⟩
        o.subtree = .ok s) :
      r.ClosesBlock { r with
        openNodes := { o' with subtree :=
          ⟨{ o'.subtree.node with branch := some s.level }, s.nodes⟩ } :: rest
        place := .list }

theorem closesBlock_close (r : Reading) : r.ClosesBlock r.close := by
  cases hopen : r.openNodes with
  | nil =>
      unfold close
      rw [hopen]
      exact .nothing hopen
  | cons o rest =>
      have hclose := close_of_cons hopen
      cases hplaced : placeNode { r with openNodes := rest, place := .list } o.subtree with
      | error e =>
          rw [hplaced] at hclose
          rw [hclose]
          exact .refused hopen hplaced
      | ok r' =>
          rw [hplaced] at hclose
          rw [hclose]
          cases rest with
          | nil =>
              rw [placeNode_of_nil rfl] at hplaced
              obtain ⟨root, happend, rfl⟩ := map_eq_ok_iff.1 hplaced
              exact .outermost hopen happend
          | cons o' rest =>
              rw [placeNode_of_cons rfl] at hplaced
              obtain ⟨s, hadopt, rfl⟩ := map_eq_ok_iff.1 hplaced
              exact .inside hopen hadopt

/-! ## Lines in their places -/

/-- **What a line does in a list**: it ends the list, or begins the block of a node, or of a word
that is not known. -/
inductive ActsInList (lookup : Lookup) (r : Reading) (line : Nat) (keyword : String)
    (values : List String) : Reading → Prop
  | ends (hword : sameName keyword r.level.terminator = true) :
      ActsInList lookup r line keyword values
        { r with place := if r.openNodes.isEmpty then .behind else .block }
  | unknown {e : Error} (hword : sameName keyword r.level.terminator = false)
      (htype : lookup.registry.typeOf keyword = .error e) :
      ActsInList lookup r line keyword values
        { r.report (e.atLine line) with place := .unreadable keyword 1 }
  | opens {type : NodeType} (hword : sameName keyword r.level.terminator = false)
      (htype : lookup.registry.typeOf keyword = .ok type) :
      ActsInList lookup r line keyword values { r with
        openNodes := ⟨⟨.ofHeader r.fresh type values, .nil⟩, line⟩ :: r.openNodes
        place := .block
        fresh := ⟨r.fresh.value + 1⟩ }

theorem actsInList_listStep (lookup : Lookup) (r : Reading) (line : Nat) (keyword : String)
    (values : List String) :
    ActsInList lookup r line keyword values (r.listStep lookup line keyword values) := by
  unfold listStep
  split
  · next hword => exact .ends hword
  · next hword =>
      rw [Bool.not_eq_true] at hword
      cases htype : lookup.registry.typeOf keyword with
      | error e => exact .unknown hword htype
      | ok type => cases values <;> exact .opens hword htype

/-- What a line does in the block of the innermost open node. -/
theorem blockStep_of_openNodes (hopen : r.openNodes = o :: rest) (line : Nat) (word : String)
    (values : List String) :
    r.blockStep lookup line word values =
      let node := o.subtree.node
      if sameName word node.terminator then r.close
      else if node.branch.any fun l => sameName word l.keyword then { r with place := .list }
      else if node.type = .select ∧ sameName word NodeType.dynamicSite.keyword then
        { r with place := .dynamicSite .empty }
      else
        let (outcome, node) := node.readLine word values lookup.catalogue
        (r.mapOpen fun t => { t with node }).reportOutcome node.type word line outcome := by
  unfold blockStep
  rw [hopen]

/-- **What a line does in the block of a node**: it ends the block, begins the branch of the node or a
block of dynamic sites, or is an entry of the node. -/
inductive ActsInBlock (lookup : Lookup) (r : Reading) (line : Nat) (keyword : String)
    (values : List String) : Reading → Prop
  | nothing (hopen : r.openNodes = []) : ActsInBlock lookup r line keyword values r
  | ends {o : OpenNode} {rest : List OpenNode} (hopen : r.openNodes = o :: rest)
      (hend : sameName keyword o.subtree.node.terminator = true) :
      ActsInBlock lookup r line keyword values r.close
  | branch {o : OpenNode} {rest : List OpenNode} {l : Level} (hopen : r.openNodes = o :: rest)
      (hend : sameName keyword o.subtree.node.terminator = false)
      (hbranch : o.subtree.node.branch = some l) (hword : sameName keyword l.keyword = true) :
      ActsInBlock lookup r line keyword values { r with place := .list }
  | sites {o : OpenNode} {rest : List OpenNode} (hopen : r.openNodes = o :: rest)
      (hend : sameName keyword o.subtree.node.terminator = false)
      (hbranch : (o.subtree.node.branch.any fun l => sameName keyword l.keyword) = false)
      (htype : o.subtree.node.type = .select)
      (hword : sameName keyword NodeType.dynamicSite.keyword = true) :
      ActsInBlock lookup r line keyword values { r with place := .dynamicSite .empty }
  | entry {o : OpenNode} {rest : List OpenNode} {outcome : ReadOutcome} {m : Node}
      (hopen : r.openNodes = o :: rest)
      (hend : sameName keyword o.subtree.node.terminator = false)
      (hbranch : (o.subtree.node.branch.any fun l => sameName keyword l.keyword) = false)
      (hsites : ¬ (o.subtree.node.type = .select ∧
        sameName keyword NodeType.dynamicSite.keyword = true))
      (hread : o.subtree.node.readLine keyword values lookup.catalogue = (outcome, m)) :
      ActsInBlock lookup r line keyword values (reportOutcome { r with
        openNodes := { o with subtree := ⟨m, o.subtree.branch⟩ } :: rest }
          m.type keyword line outcome)

theorem actsInBlock_blockStep (lookup : Lookup) (r : Reading) (line : Nat) (keyword : String)
    (values : List String) :
    ActsInBlock lookup r line keyword values (r.blockStep lookup line keyword values) := by
  cases hopen : r.openNodes with
  | nil =>
      unfold blockStep
      rw [hopen]
      exact .nothing hopen
  | cons o rest =>
      rw [blockStep_of_openNodes hopen]
      dsimp only
      split
      · next hend => exact .ends hopen hend
      · next hend =>
          rw [Bool.not_eq_true] at hend
          split
          · next hany =>
              obtain ⟨l, hl, hword⟩ := (Option.any_eq_true _ _).1 hany
              exact .branch hopen hend hl hword
          · next hany =>
              rw [Bool.not_eq_true] at hany
              split
              · next hsites => exact .sites hopen hend hany hsites.1 hsites.2
              · next hsites =>
                  cases hread : o.subtree.node.readLine keyword values lookup.catalogue with
                  | mk outcome m =>
                      have hmap : r.mapOpen (fun t => { t with node := m }) = { r with
                          openNodes := { o with subtree := ⟨m, o.subtree.branch⟩ } :: rest } := by
                        unfold mapOpen
                        rw [hopen]
                      dsimp only
                      rw [hmap]
                      exact .entry hopen hend hany hsites hread

/-- **What a line does in a block of dynamic sites**: it ends the block, or is an entry of it. -/
inductive ActsInSites (lookup : Lookup) (r : Reading) (d : DynamicSite) (line : Nat)
    (keyword : String) (values : List String) : Reading → Prop
  | ends (hend : sameName keyword dynamicSiteEnd = true) :
      ActsInSites lookup r d line keyword values (r.closeDynamicSite d)
  | entry {outcome : ReadOutcome} {d' : DynamicSite}
      (hend : sameName keyword dynamicSiteEnd = false)
      (hread : d.readLine keyword values lookup.catalogue = (outcome, d')) :
      ActsInSites lookup r d line keyword values
        { r.reportOutcome .dynamicSite keyword line outcome with place := .dynamicSite d' }

theorem actsInSites_dynamicSiteStep (lookup : Lookup) (r : Reading) (d : DynamicSite) (line : Nat)
    (keyword : String) (values : List String) :
    ActsInSites lookup r d line keyword values
      (r.dynamicSiteStep lookup d line keyword values) := by
  unfold dynamicSiteStep
  split
  · next hend => exact .ends hend
  · next hend =>
      cases hread : d.readLine keyword values lookup.catalogue with
      | mk outcome d' => exact .entry (Bool.eq_false_iff.2 hend) hread

/-- **What a line does in a block that is passed over**: it counts, or ends the block, or does
nothing. -/
inductive PassesOver (r : Reading) (skipped : String) : Reading → Prop
  | counts (depth : Nat) : PassesOver r skipped { r with place := .unreadable skipped depth }
  | ends : PassesOver r skipped { r with place := .list }
  | nothing : PassesOver r skipped r

theorem passesOver_unreadableStep (r : Reading) (skipped : String) (depth : Nat)
    (keyword : String) : r.PassesOver skipped (r.unreadableStep skipped depth keyword) := by
  unfold unreadableStep
  split
  · exact .counts _
  · split
    · split
      · exact .ends
      · exact .counts _
    · exact .nothing

/-- **What a line does**, in the place in which it stands. -/
inductive Acts (lookup : Lookup) (r : Reading) (l : ArgumentLine) : Reading → Prop
  | behind (hplace : r.place = .behind) : Acts lookup r l r
  | blank (hargs : l.args = .ok []) : Acts lookup r l r
  /-- A line that cannot be split ends a block that is passed over. -/
  | resumes {skipped : String} {depth : Nat} {e : Error}
      (hplace : r.place = .unreadable skipped depth) (hargs : l.args = .error e) :
      Acts lookup r l { r with place := .list }
  | unsplittable {e : Error} (hskips : ∀ skipped depth, r.place ≠ .unreadable skipped depth)
      (hargs : l.args = .error e) : Acts lookup r l (r.report e)
  | inList {keyword : String} {values : List String} (hplace : r.place = .list)
      (hargs : l.args = .ok (keyword :: values)) :
      Acts lookup r l (r.listStep lookup l.number keyword values)
  | inBlock {keyword : String} {values : List String} (hplace : r.place = .block)
      (hargs : l.args = .ok (keyword :: values)) :
      Acts lookup r l (r.blockStep lookup l.number keyword values)
  | inSites {d : DynamicSite} {keyword : String} {values : List String}
      (hplace : r.place = .dynamicSite d) (hargs : l.args = .ok (keyword :: values)) :
      Acts lookup r l (r.dynamicSiteStep lookup d l.number keyword values)
  | passedOver {skipped : String} {depth : Nat} {keyword : String} {values : List String}
      (hplace : r.place = .unreadable skipped depth) (hargs : l.args = .ok (keyword :: values)) :
      Acts lookup r l (r.unreadableStep skipped depth keyword)

theorem acts_step (lookup : Lookup) (r : Reading) (l : ArgumentLine) :
    Acts lookup r l (r.step lookup l) := by
  unfold step
  split
  · next hplace => exact .behind hplace
  · next hargs _ => exact .blank hargs
  · next hplace hargs => exact .resumes hplace hargs
  · next hargs _ hskips => exact .unsplittable hskips hargs
  · next hplace hargs => exact .inList hplace hargs
  · next hplace hargs => exact .inBlock hplace hargs
  · next hplace hargs => exact .inSites hplace hargs
  · next hplace hargs => exact .passedOver hplace hargs

/-! ## Problems stay -/

theorem problems_prefix_report (r : Reading) (e : Error) : r.problems <+: (r.report e).problems :=
  List.prefix_append _ _

@[simp] theorem problems_report_ne_nil (r : Reading) (e : Error) : (r.report e).problems ≠ [] := by
  simp [report]

@[simp] theorem problems_mapOpen (f : Subtree → Subtree) (r : Reading) :
    (r.mapOpen f).problems = r.problems := by
  unfold mapOpen
  split <;> rfl

theorem problems_prefix_close (r : Reading) : r.problems <+: r.close.problems := by
  have hcloses := closesBlock_close r
  generalize r.close = r' at hcloses ⊢
  cases hcloses with
  | nothing => exact List.prefix_rfl
  | refused => exact problems_prefix_report _ _
  | outermost => exact List.prefix_rfl
  | inside => exact List.prefix_rfl

theorem problems_prefix_reportOutcome (r : Reading) (type : NodeType) (keyword : String)
    (line : Nat) (outcome : ReadOutcome) :
    r.problems <+: (r.reportOutcome type keyword line outcome).problems := by
  cases outcome with
  | success => exact List.prefix_rfl
  | deprecated _ => exact List.prefix_rfl
  | failed e => exact problems_prefix_report _ _
  | unrecognised => exact problems_prefix_report _ _

/-- An outcome that is no problem changes nothing. -/
theorem reportOutcome_eq_self {t : NodeType} {word : String} {line : Nat} {outcome : ReadOutcome}
    (hok : (r.reportOutcome t word line outcome).problems = []) :
    r.reportOutcome t word line outcome = r := by
  cases outcome with
  | success => rfl
  | deprecated _ => rfl
  | failed e => exact absurd hok (problems_report_ne_nil _ _)
  | unrecognised => exact absurd hok (problems_report_ne_nil _ _)

theorem problems_prefix_listStep (r : Reading) (line : Nat) (keyword : String)
    (values : List String) :
    r.problems <+: (r.listStep lookup line keyword values).problems := by
  have hacts := actsInList_listStep lookup r line keyword values
  generalize r.listStep lookup line keyword values = r' at hacts ⊢
  cases hacts with
  | ends => exact List.prefix_rfl
  | unknown => exact problems_prefix_report _ _
  | opens => exact List.prefix_rfl

theorem problems_prefix_blockStep (r : Reading) (line : Nat) (keyword : String)
    (values : List String) :
    r.problems <+: (r.blockStep lookup line keyword values).problems := by
  have hacts := actsInBlock_blockStep lookup r line keyword values
  generalize r.blockStep lookup line keyword values = r' at hacts ⊢
  cases hacts with
  | nothing => exact List.prefix_rfl
  | ends => exact problems_prefix_close r
  | branch => exact List.prefix_rfl
  | sites => exact List.prefix_rfl
  | entry =>
      refine List.IsPrefix.trans ?_ (problems_prefix_reportOutcome _ _ _ _ _)
      exact List.prefix_rfl

theorem problems_prefix_dynamicSiteStep (r : Reading) (d : DynamicSite) (line : Nat)
    (keyword : String) (values : List String) :
    r.problems <+: (r.dynamicSiteStep lookup d line keyword values).problems := by
  have hacts := actsInSites_dynamicSiteStep lookup r d line keyword values
  generalize r.dynamicSiteStep lookup d line keyword values = r' at hacts ⊢
  cases hacts with
  | ends => exact (problems_mapOpen _ r).symm ▸ List.prefix_rfl
  | entry => exact problems_prefix_reportOutcome r _ _ _ _

theorem problems_unreadableStep (r : Reading) (skipped : String) (depth : Nat) (keyword : String) :
    (r.unreadableStep skipped depth keyword).problems = r.problems := by
  have hpasses := passesOver_unreadableStep r skipped depth keyword
  generalize r.unreadableStep skipped depth keyword = r' at hpasses ⊢
  cases hpasses <;> rfl

/-- **A problem that was found stays.** -/
theorem problems_prefix_step (r : Reading) (l : ArgumentLine) :
    r.problems <+: (r.step lookup l).problems := by
  have hacts := acts_step lookup r l
  generalize r.step lookup l = r' at hacts ⊢
  cases hacts with
  | behind => exact List.prefix_rfl
  | blank => exact List.prefix_rfl
  | resumes => exact List.prefix_rfl
  | unsplittable => exact problems_prefix_report _ _
  | inList => exact problems_prefix_listStep _ _ _ _
  | inBlock => exact problems_prefix_blockStep _ _ _ _
  | inSites => exact problems_prefix_dynamicSiteStep _ _ _ _ _
  | passedOver => exact (problems_unreadableStep r _ _ _).symm ▸ List.prefix_rfl

end Reading

end SiteAnalysis
