import SiteAnalysis.Proofs.Tree.Blocks
import SiteAnalysis.Proofs.Tree.Restored

set_option autoImplicit false

/-! # Trees that are read again from their text

The lines of a forest as their arguments (`Forest.args`), and what the reader makes of them. Main
statements:

* `Forest.IsWritable.areLinesOf`: the lines written of a forest give these arguments.
* `Reading.run_forest`: they bring the forest back exactly if no name occurs twice.
* `Sequence.ofText_text`: so for a whole text.
-/

namespace SiteAnalysis

variable {P : String → Prop} {lookup : Lookup}

/-! ## Arguments of the lines -/

/-- The branch of a node in its block, as the arguments of its lines. -/
def Level.encloseArgs (l : Level) : List (List String) → List (List String)
  | [] => []
  | lists => [l.keyword] :: lists ++ [[l.terminator]]

/-- The branch in the block of a node, if the node has one. -/
def Node.branchArgs (n : Node) (lists : List (List String)) : List (List String) :=
  match n.branch with
  | some level => level.encloseArgs lists
  | none => []

/-- **The lines of a forest as their arguments.** -/
def Forest.args : Forest → List (List String)
  | nil => []
  | cons n branch rest =>
    n.headerArgs :: (n.entryArgs ++ n.branchArgs branch.args ++ [[n.terminator]]) ++ rest.args

theorem Forest.args_single (t : Subtree) : (single t).args =
    t.node.headerArgs ::
      (t.node.entryArgs ++ t.node.branchArgs t.branch.args ++ [[t.node.terminator]]) :=
  List.append_nil _

theorem Forest.args_cons (n : Node) (branch rest : Forest) :
    (cons n branch rest).args = (single ⟨n, branch⟩).args ++ rest.args := by
  rw [args_single, args]

theorem Forest.IsWritable.areLinesOf {catalogue : Catalogue} {registry : Registry} {f : Forest}
    (h : f.IsWritable FitsLine ⟨catalogue, registry⟩) : AreLinesOf f.lines f.args := by
  induction f with
  | nil => exact .nil
  | cons n branch rest ihb ihr =>
      have hn := h.of_node
      have hinner : AreLinesOf
          (match n.branch with
            | some level => level.enclose branch.lines
            | none => [])
          (n.branchArgs branch.args) := by
        rw [Node.branchArgs]
        cases hbranch : n.branch with
        | none => exact .nil
        | some level =>
            have hkeyword := hn.branch
            rw [hbranch] at hkeyword
            obtain ⟨hplain, hplainEnd⟩ := n.type.isPlain_branchKeyword level.keyword hkeyword.symm
            have hlines := ihb h.of_branch
            dsimp only
            cases hcases : branch.lines with
            | nil =>
                rw [hcases] at hlines
                rw [List.forall₂_nil_left_iff.1 hlines]
                exact .nil
            | cons line lines =>
                rw [hcases] at hlines
                cases hargs : branch.args with
                | nil => rw [hargs] at hlines; cases hlines
                | cons args lists =>
                    rw [hargs] at hlines
                    exact (AreLinesOf.append (.cons hplain.isLineOf hlines.indented)
                      (.cons hplainEnd.isLineOf .nil))
      have hblock := AreLinesOf.append (.cons hn.isLineOf_header (hn.areLinesOf.append hinner).indented)
        (.cons n.type.isPlain_terminator.isLineOf .nil)
      rw [args_cons, args_single]
      exact hblock.append (ihr h.of_rest)

/-! ## The list that nodes are placed in -/

namespace Reading

/-- The list that the innermost open node is placed in when its block closes. -/
def list (r : Reading) : Sequence :=
  match r.openNodes with
  | [] => r.root
  | o :: _ => ⟨r.level, o.subtree.branch⟩

/-- The reader with other nodes in that list. -/
def withList (r : Reading) (f : Forest) : Reading :=
  match r.openNodes with
  | [] => { r with root := { r.root with nodes := f } }
  | o :: rest => { r with openNodes := { o with subtree := { o.subtree with branch := f } } :: rest }

/-- **Whether the reader stands in a list of nodes** that there is. -/
structure InList (r : Reading) : Prop where
  place : r.place = .list
  owned : ∀ o ∈ r.openNodes.head?, o.subtree.node.branch.isSome = true

variable {r : Reading}

theorem withList_list (r : Reading) : r.withList r.list.nodes = r := by
  obtain ⟨root, openNodes, place, fresh, problems⟩ := r
  cases openNodes <;> rfl

theorem withList_withList (r : Reading) (f g : Forest) :
    (r.withList f).withList g = r.withList g := by
  obtain ⟨root, openNodes, place, fresh, problems⟩ := r
  cases openNodes <;> rfl

theorem list_withList (r : Reading) (f : Forest) :
    (r.withList f).list = ⟨r.list.level, f⟩ := by
  obtain ⟨root, openNodes, place, fresh, problems⟩ := r
  cases openNodes <;> rfl

theorem InList.withList (h : r.InList) (f : Forest) : (r.withList f).InList := by
  obtain ⟨root, openNodes, place, fresh, problems⟩ := r
  obtain ⟨hplace, howned⟩ := h
  cases openNodes with
  | nil => exact ⟨hplace, howned⟩
  | cons o rest => exact ⟨hplace, fun o' ho' => by cases ho'; exact howned o rfl⟩

/-- A tree in which no name is missing is put behind the others, unless one of its names is
taken. -/
theorem placeNode_named (h : r.InList) {t : Subtree}
    (hnamed : ∀ n ∈ (Forest.single t).nodes, n.lacksName = false)
    (hrelevant : ∀ n ∈ (Forest.single t).nodes,
      n.type.isRelevantIn r.list.level.context = true) :
    r.placeNode t =
      match Sequence.clash? r.list.nodes.names t with
      | some name => .error (.duplicateName name)
      | none => .ok (r.withList (r.list.nodes.append
          ((Forest.single t).setContext r.list.level.context))) := by
  obtain ⟨root, openNodes, place, fresh, problems⟩ := r
  -- The list is the root, or the branch of the innermost block.
  cases openNodes with
  | nil =>
      simp only [list] at hrelevant
      simp only [placeNode, list, Sequence.append, Sequence.place_named hnamed hrelevant]
      cases Sequence.clash? root.nodes.names t <;> rfl
  | cons o rest =>
      obtain ⟨level, hlevel⟩ := Option.isSome_iff_exists.1 (h.owned o rfl)
      have hinner : Reading.level ⟨root, o :: rest, place, fresh, problems⟩ = level := by
        simp [Reading.level, hlevel]
      simp only [list, hinner] at hrelevant
      have hplace : Sequence.place ⟨level, o.subtree.branch⟩ t none o.subtree.branch.names false =
          _ := Sequence.place_named hnamed hrelevant
      simp only [placeNode, list, hinner, Sequence.adopt, hplace]
      cases Sequence.clash? o.subtree.branch.names t with
      | some name => rfl
      | none =>
          simp only [bind, Except.bind, pure, Except.pure, withList, ← hlevel]

/-! ## Forests -/

/-- The reader once a forest was read behind the nodes that were there. -/
def withForest (r : Reading) (f : Forest) : Reading :=
  { r.withList (r.list.nodes.append (f.reissue r.list.level.context r.fresh.value)) with
    fresh := ⟨r.fresh.value + f.nodes.length⟩ }

theorem withList_fresh (r : Reading) (fresh : NodeId) (f : Forest) :
    { r with fresh }.withList f = { r.withList f with fresh } := by
  obtain ⟨root, openNodes, place, fresh', problems⟩ := r
  cases openNodes <;> rfl

theorem list_withForest (r : Reading) (f : Forest) : (r.withForest f).list =
    ⟨r.list.level, r.list.nodes.append (f.reissue r.list.level.context r.fresh.value)⟩ := by
  rw [← list_withList]
  rfl

theorem InList.withForest (h : r.InList) (f : Forest) : (r.withForest f).InList :=
  let ⟨hplace, howned⟩ := h.withList _
  ⟨hplace, howned⟩

/-- Trees are read one after the other. -/
theorem withForest_withForest (r : Reading) (n : Node) (branch rest : Forest) :
    (r.withForest (.single ⟨n, branch⟩)).withForest rest = r.withForest (.cons n branch rest) := by
  have hlength : r.fresh.value + (Forest.single ⟨n, branch⟩).nodes.length =
      r.fresh.value + 1 + branch.nodes.length := by
    simp only [Forest.nodes_single, List.length_cons]
    omega
  have hfresh : (r.withForest (.single ⟨n, branch⟩)).fresh.value =
      r.fresh.value + 1 + branch.nodes.length := hlength
  have hnodes : (r.list.nodes.append
      ((Forest.single ⟨n, branch⟩).reissue r.list.level.context r.fresh.value)).append
        (rest.reissue r.list.level.context (r.fresh.value + 1 + branch.nodes.length)) =
      r.list.nodes.append ((Forest.cons n branch rest).reissue r.list.level.context r.fresh.value) := by
    rw [Forest.append_assoc]
    rfl
  have hcount : r.fresh.value + 1 + branch.nodes.length + rest.nodes.length =
      r.fresh.value + (Forest.cons n branch rest).nodes.length := by
    simp only [Forest.nodes, List.length_cons, List.length_append]
    omega
  rw [withForest, list_withForest, hfresh, hnodes, hcount]
  unfold withForest
  rw [withList_fresh, withList_withList]

/-- **What the lines of a forest do**: they bring the forest back, unless one of its names is taken
or occurs twice. -/
def Restores (lookup : Lookup) (f : Forest) (r : Reading) (number : Nat) : Prop :=
  if (r.list.nodes.names ++ f.names).Nodup then r.run lookup f.args number = r.withForest f
  else (r.run lookup f.args number).problems ≠ []

theorem args_eq_nil_iff {f : Forest} : f.args = [] ↔ f = .nil := by
  cases f <;> simp [Forest.args]

variable {n : Node} {branch : Forest} {line : Nat} {rest : List OpenNode}

theorem encloseArgs_of_ne_nil (hne : branch ≠ .nil) (level : Level) :
    level.encloseArgs branch.args =
      [level.keyword] :: (branch.args ++ [[level.terminator]]) := by
  cases hcases : branch.args with
  | nil => exact absurd (args_eq_nil_iff.1 hcases) hne
  | cons args lists => rfl

/-- The keyword of the branch of a node leads from its block into the list of the branch. -/
theorem step_branchKeyword {R : KeywordData → KeywordData → Prop}
    (hn : n.Fits R P lookup.catalogue) {level : Level} (hlevel : n.branch = some level)
    (id : NodeId) (number : Nat) :
    let start := r.inBlock ⟨n.reissued id .any, .nil⟩ line rest
    let inside : Reading := { start with place := .list }
    start.step lookup ⟨number, .ok [level.keyword]⟩ = inside ∧ inside.InList ∧
      inside.list = ⟨.branch id level.keyword, .nil⟩ := by
  intro start inside
  have hkeyword := hn.branch
  rw [hlevel] at hkeyword
  obtain ⟨hend, -⟩ := n.type.sameName_branchKeyword_terminator level.keyword hkeyword.symm
  have hnew : (n.reissued id .any).branch = some (.branch id level.keyword) := by
    rw [Node.reissued, hlevel]
    rfl
  refine ⟨?_, ⟨rfl, fun o ho => by cases ho; rw [hnew]; rfl⟩, ?_⟩
  · have hnot : sameName level.keyword (n.reissued id .any).terminator = false := hend
    have hyes : ((n.reissued id .any).branch.any fun l => sameName level.keyword l.keyword) = true := by
      rw [hnew]
      exact sameName_refl _
    change blockStep lookup start number level.keyword [] = _
    simp only [start, inside, blockStep, inBlock, hnot, hyes, Bool.false_eq_true, if_false, if_true]
  · simp [list, inside, start, inBlock, Reading.level, hnew]

/-- The lines of a branch bring the branch back into the node whose block is open. -/
theorem run_encloseArgs (hn : n.IsRestorable P lookup.catalogue) {level : Level}
    (hlevel : n.branch = some level)
    (hbranch : ∀ (r : Reading) (number : Nat), r.InList →
      (∀ m ∈ branch.nodes, m.type.isRelevantIn r.list.level.context = true) →
      r.list.nodes.names.Nodup → Restores lookup branch r number) (id : NodeId) (number : Nat) :
    let start := r.inBlock ⟨n.reissued id .any, .nil⟩ line rest
    if branch.names.Nodup then
      start.run lookup (level.encloseArgs branch.args) number =
        inBlock { r with fresh := ⟨r.fresh.value + branch.nodes.length⟩ }
          ⟨n.reissued id .any, branch.reissue .any r.fresh.value⟩ line rest
    else (start.run lookup (level.encloseArgs branch.args) number).problems ≠ [] := by
  intro start
  -- An empty branch has no lines, not even those around it.
  by_cases hnil : branch = .nil
  · subst hnil
    exact (if_pos List.nodup_nil).mpr rfl
  obtain ⟨hopen, hin, hlist⟩ : start.step lookup ⟨number, .ok [level.keyword]⟩ =
      { start with place := .list } ∧ _ := step_branchKeyword hn hlevel id number
  have hnew : (n.reissued id .any).branch = some (.branch id level.keyword) := by
    rw [Node.reissued, hlevel]
    rfl
  have hback := hbranch _ (number + 1) hin (fun m _ => by rw [hlist]; rfl)
    (by rw [hlist]; exact List.nodup_nil)
  rw [encloseArgs_of_ne_nil hnil, run_cons, hopen, run_append]
  unfold Restores at hback
  rw [hlist] at hback
  have hnames : (Forest.nil.names ++ branch.names) = branch.names := rfl
  rw [hnames] at hback
  split at hback
  · next hnodup =>
      rw [if_pos hnodup, hback, run_cons, run_nil]
      have hforest : withForest { start with place := .list } branch =
          { inBlock { r with fresh := ⟨r.fresh.value + branch.nodes.length⟩ }
            ⟨n.reissued id .any, branch.reissue .any r.fresh.value⟩ line rest with
            place := .list } := by
        rw [withForest, hlist]
        rfl
      rw [hforest]
      change listStep lookup _ _ level.terminator [] = _
      unfold listStep
      have hclose : sameName level.terminator
          (Reading.level { inBlock { r with fresh := ⟨r.fresh.value + branch.nodes.length⟩ }
            ⟨n.reissued id .any, branch.reissue .any r.fresh.value⟩ line rest with
            place := .list }).terminator = true := by
        simp only [Reading.level, inBlock, hnew]
        exact sameName_refl _
      rw [if_pos hclose]
      rfl
  · next hnodup =>
      rw [if_neg hnodup]
      exact problems_run_ne_nil hback _ _

/-- The word that closes a block places the node in the list its block stands in. -/
theorem step_terminator (h : r.InList) {t : Subtree} (number : Nat) :
    (r.inBlock t line r.openNodes).step lookup ⟨number, .ok [t.node.terminator]⟩ =
      match r.placeNode t with
      | .ok r => r
      | .error e => r.report (e.atLine line) := by
  obtain ⟨root, openNodes, place, fresh, problems⟩ := r
  obtain rfl : place = .list := h.place
  have hclose : sameName t.node.terminator t.node.terminator = true := sameName_refl _
  change (if sameName t.node.terminator t.node.terminator then (inBlock _ t line openNodes).close
    else _) = _
  rw [if_pos hclose]
  rfl

/-- **A node whose block closes** stands behind the others, unless one of its names is taken. -/
theorem step_terminator_reissued (hf : (Forest.single ⟨n, branch⟩).IsRestorable P lookup)
    (h : r.InList) (hrelevant : ∀ m ∈ (Forest.single ⟨n, branch⟩).nodes,
      m.type.isRelevantIn r.list.level.context = true)
    (htaken : r.list.nodes.names.Nodup) (hbranch : branch.names.Nodup) (number : Nat) :
    let read := { r with fresh := ⟨r.fresh.value + 1 + branch.nodes.length⟩ }
    let t : Subtree := ⟨n.reissued r.fresh .any, branch.reissue .any (r.fresh.value + 1)⟩
    let after := (read.inBlock t line r.openNodes).step lookup ⟨number, .ok [n.terminator]⟩
    if (r.list.nodes.names ++ (Forest.single ⟨n, branch⟩).names).Nodup then
      after = r.withForest (.single ⟨n, branch⟩)
    else after.problems ≠ [] := by
  intro read t after
  have hsingle : Forest.single t = (Forest.single ⟨n, branch⟩).reissue .any r.fresh.value := rfl
  have hread : read.InList := ⟨h.place, h.owned⟩
  have hlist : read.list = r.list := rfl
  have hplaced := placeNode_named hread (t := t)
    (by rw [hsingle]; exact Forest.forall_nodes_reissue (fun _ _ hm => hm) hf.named _)
    (by rw [hsingle, hlist]; exact Forest.forall_nodes_reissue (fun _ _ hm => hm) hrelevant _)
  have hclash := Sequence.clash?_eq_none_iff (t := t) htaken
    (by rw [Forest.names_reissue]; exact hbranch)
  rw [hsingle, Forest.names_reissue] at hclash
  rw [hsingle, hlist, Forest.reissue_setContext] at hplaced
  have hafter : after = _ := step_terminator hread (t := t) number
  rw [hafter, hplaced]
  -- The block closes if no name clashes, and is told of otherwise.
  cases hcases : Sequence.clash? r.list.nodes.names t with
  | none =>
      rw [if_pos (hclash.1 hcases)]
      have hfresh : r.fresh.value + (Forest.single ⟨n, branch⟩).nodes.length =
          r.fresh.value + 1 + branch.nodes.length := by
        simp only [Forest.nodes_single, List.length_cons]
        omega
      rw [withForest, hfresh, ← withList_fresh]
  | some name =>
      rw [if_neg fun hnodup => by rw [hclash.2 hnodup] at hcases; cases hcases]
      simp [report]

/-- The branch of a node whose block is open comes back, if it has one. -/
theorem run_branch (hf : (Forest.single ⟨n, branch⟩).IsRestorable P lookup)
    (hbranch : ∀ (r : Reading) (number : Nat), r.InList →
      (∀ m ∈ branch.nodes, m.type.isRelevantIn r.list.level.context = true) →
      r.list.nodes.names.Nodup → Restores lookup branch r number) (id : NodeId) (number : Nat) :
    let after := (r.inBlock ⟨n.reissued id .any, .nil⟩ line rest).run lookup
      (n.branchArgs branch.args) number
    if branch.names.Nodup then
      after = inBlock { r with fresh := ⟨r.fresh.value + branch.nodes.length⟩ }
        ⟨n.reissued id .any, branch.reissue .any r.fresh.value⟩ line rest
    else after.problems ≠ [] := by
  intro after
  cases hlevel : n.branch with
  | none =>
      obtain rfl : branch = .nil := hf.shaped.1 (by simp [hlevel])
      have hargs : n.branchArgs Forest.nil.args = [] := by rw [Node.branchArgs, hlevel]
      have hafter : after = _ := congrArg (fun lists => run lookup lists number _) hargs
      have hnodup : Forest.nil.names.Nodup := List.nodup_nil
      rw [if_pos hnodup, hafter]
      rfl
  | some level =>
      have hargs : n.branchArgs branch.args = level.encloseArgs branch.args := by
        rw [Node.branchArgs, hlevel]
      have hafter : after = _ := congrArg (fun lists => run lookup lists number _) hargs
      rw [hafter]
      exact run_encloseArgs hf.of_node hlevel hbranch id number

/-- **The lines of a tree bring the tree back** if those of its branch bring back the branch. -/
theorem run_single (hf : (Forest.single ⟨n, branch⟩).IsRestorable P lookup)
    (hbranch : ∀ (r : Reading) (number : Nat), r.InList →
      (∀ m ∈ branch.nodes, m.type.isRelevantIn r.list.level.context = true) →
      r.list.nodes.names.Nodup → Restores lookup branch r number)
    (r : Reading) (number : Nat) (h : r.InList)
    (hrelevant : ∀ m ∈ (Forest.single ⟨n, branch⟩).nodes,
      m.type.isRelevantIn r.list.level.context = true)
    (htaken : r.list.nodes.names.Nodup) :
    Restores lookup (.single ⟨n, branch⟩) r number := by
  have hadmitted := hf.admitted n (by simp)
  have hinner := @run_branch P lookup { r with fresh := ⟨r.fresh.value + 1⟩ } n branch number
    r.openNodes hf hbranch r.fresh (number + 1 + n.entryArgs.length)
  unfold Restores
  rw [Forest.args_single, run_cons, step_header hadmitted h.place, run_append, run_append,
    run_entries hf.of_node]
  dsimp only at hinner
  split at hinner
  · next hnodup =>
      have hlast := @step_terminator_reissued P lookup r n branch number hf h hrelevant htaken hnodup
        (number + 1 + (n.entryArgs ++ n.branchArgs branch.args).length)
      rw [hinner, run_cons, run_nil]
      exact hlast
  · next hnodup =>
      rw [if_neg fun hall => ?_]
      · exact problems_run_ne_nil hinner _ _
      · rw [Forest.names_single] at hall
        exact hnodup hall.of_append_right.of_append_right

/-- **The lines of a forest bring the forest back** exactly if no name is taken or occurs twice. -/
theorem run_forest {f : Forest} (hf : f.IsRestorable P lookup) (r : Reading) (number : Nat)
    (h : r.InList) (hrelevant : ∀ m ∈ f.nodes, m.type.isRelevantIn r.list.level.context = true)
    (htaken : r.list.nodes.names.Nodup) : Restores lookup f r number := by
  -- The induction follows the forest: the branch in its block, then the nodes behind it.
  induction f generalizing r number with
  | nil =>
      have hback : r.withForest .nil = r := by
        simp [withForest, Forest.reissue, Forest.nodes, withList_list]
      have hnames : r.list.nodes.names ++ Forest.nil.names = r.list.nodes.names :=
        List.append_nil _
      rw [Restores, hnames, if_pos htaken, hback]
      rfl
  | cons n branch rest ihb ihr =>
      have hnodes : ∀ m, m ∈ (Forest.single ⟨n, branch⟩).nodes ∨ m ∈ rest.nodes →
          m ∈ (Forest.cons n branch rest).nodes := fun m hm => by
        simpa [Forest.nodes, or_assoc] using hm
      have hfirst := run_single hf.of_tree (fun r number h hrelevant htaken =>
        ihb hf.of_branch r number h hrelevant htaken) r number h
        (fun m hm => hrelevant m (hnodes m (.inl hm))) htaken
      unfold Restores at hfirst ⊢
      rw [Forest.args_cons, run_append]
      split at hfirst
      · next hnodup =>
          have hlist := list_withForest r (.single ⟨n, branch⟩)
          have hrest := ihr hf.of_rest (r.withForest (.single ⟨n, branch⟩))
            (number + (Forest.single ⟨n, branch⟩).args.length) (h.withForest _)
            (fun m hm => by rw [hlist]; exact hrelevant m (hnodes m (.inr hm)))
            (by rw [hlist, Forest.names_append, Forest.names_reissue]; exact hnodup)
          unfold Restores at hrest
          rw [hlist, Forest.names_append, Forest.names_reissue, withForest_withForest] at hrest
          rw [hfirst]
          split at hrest
          · next hall => rwa [if_pos (Forest.nodup_names_cons.2 ⟨hnodup, hall⟩)]
          · next hnot => rwa [if_neg fun hall => hnot (Forest.nodup_names_cons.1 hall).2]
      · next hnodup =>
          rw [if_neg fun hall => hnodup (Forest.nodup_names_cons.1 hall).1]
          exact problems_run_ne_nil hfirst _ _

end Reading

/-! ## Whole texts -/

theorem Level.isLineOf_terminator {level : Level} (h : ∀ c ∈ level.keyword.toList, isBlank c = false) :
    IsLineOf level.terminator [level.terminator] := by
  have hword : level.terminator = String.ofList ('E' :: 'n' :: 'd' :: level.keyword.toList) := by
    simp [← String.toList_inj, terminator]
  rw [hword]
  refine IsLineOf.word (List.forall_mem_cons.2 ⟨by decide, List.forall_mem_cons.2 ⟨by decide,
    List.forall_mem_cons.2 ⟨by decide, h⟩⟩⟩) (by decide) (by decide)

theorem Sequence.ofText_eq {root : Sequence} {fresh : NodeId} {text : String}
    {lists : List (List String)} (hlines : argumentLines text = numbered lists 1) {r : Reading}
    (hread : ((Reading.start root fresh).run lookup lists 1).finish (linesOf text).length = r) :
    ofText lookup root fresh text = ((readOutcome r.problems).map fun _ => r.root, r.fresh) := by
  subst hread
  rw [ofText, hlines]
  rfl

/-- A problem on any line keeps a text from being read. -/
theorem Sequence.exists_ofText_error {root : Sequence} {fresh : NodeId} {text : String}
    {lists more : List (List String)} (hlines : argumentLines text = numbered (lists ++ more) 1)
    (hproblems : ((Reading.start root fresh).run lookup lists 1).problems ≠ []) :
    ∃ e, (ofText lookup root fresh text).1 = .error e := by
  have hlater : (((Reading.start root fresh).run lookup lists 1).run lookup more
      (1 + lists.length)).problems ≠ [] := Reading.problems_run_ne_nil hproblems _ _
  rw [← Reading.run_append] at hlater
  rw [ofText_eq hlines rfl]
  dsimp only
  cases hcases : readOutcome _ with
  | error e => exact ⟨e, rfl⟩
  | ok u =>
      have hprefix := Reading.problems_prefix_finish
        ((Reading.start root fresh).run lookup (lists ++ more) 1) (linesOf text).length
      rw [readOutcome_eq_ok_iff.1 hcases, List.prefix_nil] at hprefix
      exact absurd hprefix hlater

/-- The lines written of a sequence give these arguments. -/
theorem Sequence.argumentLines_text {s : Sequence} (hf : s.nodes.IsWritable FitsLine lookup)
    (hblank : ∀ c ∈ s.level.keyword.toList, isBlank c = false) :
    argumentLines s.text = numbered (s.nodes.args ++ [[s.level.terminator]]) 1 := by
  obtain ⟨catalogue, registry⟩ := lookup
  exact argumentLines_joinLines
    (hf.areLinesOf.append (.cons (Level.isLineOf_terminator hblank) .nil))

/-- **The text of a sequence gives its nodes back**, with new identities in their order, if no name
occurs twice; and else it cannot be read. -/
theorem Sequence.ofText_text {s : Sequence} (hf : s.nodes.IsRestorable FitsLine lookup)
    (hblank : ∀ c ∈ s.level.keyword.toList, isBlank c = false) {level : Level}
    (hkeyword : level.keyword = s.level.keyword)
    (hrelevant : ∀ n ∈ s.nodes.nodes, n.type.isRelevantIn level.context = true)
    (fresh : NodeId) :
    if s.nodes.names.Nodup then
      ofText lookup ⟨level, .nil⟩ fresh s.text =
        (.ok ⟨level, s.nodes.reissue level.context fresh.value⟩,
          ⟨fresh.value + s.nodes.nodes.length⟩)
    else ∃ e, (ofText lookup ⟨level, .nil⟩ fresh s.text).1 = .error e := by
  have hlines := argumentLines_text hf.isWritable hblank
  have hread := Reading.run_forest hf (.start ⟨level, .nil⟩ fresh) 1 ⟨rfl, by simp [Reading.start]⟩
    hrelevant List.nodup_nil
  have hnames : (Reading.start ⟨level, .nil⟩ fresh).list.nodes.names ++ s.nodes.names =
      s.nodes.names := rfl
  unfold Reading.Restores at hread
  rw [hnames] at hread
  split at hread
  · next hnodup =>
      have hend : sameName s.level.terminator level.terminator = true := by
        rw [Level.terminator, Level.terminator, hkeyword]
        exact sameName_refl _
      have hlast : Reading.run lookup [[s.level.terminator]] (1 + s.nodes.args.length)
          ((Reading.start ⟨level, .nil⟩ fresh).withForest s.nodes) =
          { (Reading.start ⟨level, .nil⟩ fresh).withForest s.nodes with place := .behind } :=
        if_pos hend
      rw [if_pos hnodup]
      exact ofText_eq hlines (by rw [Reading.run_append, hread, hlast])
  · next hnodup =>
      rw [if_neg hnodup]
      exact exists_ofText_error hlines hread

end SiteAnalysis
