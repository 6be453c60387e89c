import SiteAnalysis.Proofs.Tree.Naming
import SiteAnalysis.Proofs.Tree.Steps

set_option autoImplicit false

/-! # Trees that were read from text

The reader keeps what it has read in a form that can be written and read again
(`Reading.IsSound`), as long as it finds no problem. Main statements:

* `Reading.finish_of_problems_eq_nil`: without a problem nothing is open at the end of a text.
* `Reading.IsSound.step`: one line keeps the form.
* `Sequence.ofText_isRead`: what a whole text without problems gives.
-/

namespace SiteAnalysis

/-! ## The end of a text -/

namespace Reading

variable {lookup : Lookup} {r : Reading}

theorem problems_prefix_run (lines : List ArgumentLine) (r : Reading) :
    r.problems <+: (lines.foldl (step lookup) r).problems := by
  induction lines generalizing r with
  | nil => exact List.prefix_rfl
  | cons l lines ih => exact (problems_prefix_step r l).trans (ih _)

theorem problems_prefix_closeAtEnd (line : Nat) (r : Reading) (o : OpenNode) :
    r.problems <+: (r.closeAtEnd line o).problems ∧ (r.closeAtEnd line o).problems ≠ [] := by
  suffices hall : ∀ r' : Reading, r.problems <+: r'.problems →
      r.problems <+: (r'.reportEnd o.subtree.node.terminator line).close.problems ∧
        (r'.reportEnd o.subtree.node.terminator line).close.problems ≠ [] by
    refine hall _ ?_
    split
    · exact List.prefix_rfl
    · exact problems_prefix_report _ _
  intro r' hstays
  have hclose := problems_prefix_close (r'.reportEnd o.subtree.node.terminator line)
  refine ⟨(hstays.trans (problems_prefix_report _ _)).trans hclose, fun hnil => ?_⟩
  rw [hnil, List.prefix_nil] at hclose
  exact problems_report_ne_nil _ _ hclose

theorem problems_prefix_closeAll (line : Nat) (nodes : List OpenNode) (r : Reading) :
    r.problems <+: (nodes.foldl (closeAtEnd line) r).problems := by
  induction nodes generalizing r with
  | nil => exact List.prefix_rfl
  | cons o nodes ih => exact (problems_prefix_closeAtEnd line r o).1.trans (ih _)

theorem problems_prefix_finish (r : Reading) (line : Nat) :
    r.problems <+: (r.finish line).problems := by
  unfold finish
  refine List.IsPrefix.trans ?_ (problems_prefix_closeAll line _ _)
  split
  · rw [closeDynamicSite, problems_mapOpen]
    exact problems_prefix_report _ _
  · exact List.prefix_rfl

/-- At the end of a text without problems nothing is open. -/
theorem finish_of_problems_eq_nil {line : Nat} (h : (r.finish line).problems = []) :
    r.finish line = r ∧ r.openNodes = [] := by
  unfold finish at h ⊢
  dsimp only at h ⊢
  split at h
  · next d hd =>
      have hprefix := problems_prefix_closeAll line
        ((r.reportEnd dynamicSiteEnd line).closeDynamicSite d).openNodes
        ((r.reportEnd dynamicSiteEnd line).closeDynamicSite d)
      rw [h, List.prefix_nil, closeDynamicSite, problems_mapOpen] at hprefix
      exact absurd hprefix (problems_report_ne_nil _ _)
  · cases hopen : r.openNodes with
    | nil => exact ⟨rfl, rfl⟩
    | cons o rest =>
        rw [hopen, List.foldl_cons] at h
        have hprefix := problems_prefix_closeAll line rest (r.closeAtEnd line o)
        rw [h, List.prefix_nil] at hprefix
        exact absurd hprefix (problems_prefix_closeAtEnd line r o).2

end Reading

/-! ## What is read can be written -/

variable {P : String → Prop} {lookup : Lookup}

/-- A node as reading leaves it, of a type that may be made. -/
structure Node.IsReadFrom (P : String → Prop) (lookup : Lookup) (n : Node) : Prop where
  fits : n.Fits (KeywordData.IsReadFrom P lookup.catalogue) P lookup.catalogue
  admitted : lookup.registry.admits n.type = true

theorem Node.IsPlaced.isReadFrom {n m : Node} (h : n.IsPlaced m) (hn : n.IsReadFrom P lookup) :
    m.IsReadFrom P lookup := ⟨h.fits hn.fits, by rw [h.type]; exact hn.admitted⟩

/-- A forest as reading leaves it. -/
structure Forest.IsReadFrom (P : String → Prop) (lookup : Lookup) (f : Forest) : Prop where
  shaped : f.IsShaped
  nodes : ∀ n ∈ f.nodes, n.IsReadFrom P lookup

namespace Forest

variable {f g : Forest}

theorem isReadFrom_nil : nil.IsReadFrom P lookup := ⟨trivial, by simp [nodes]⟩

theorem isReadFrom_append :
    (f.append g).IsReadFrom P lookup ↔ f.IsReadFrom P lookup ∧ g.IsReadFrom P lookup := by
  constructor
  · rintro ⟨hshaped, hnodes⟩
    rw [isShaped_append] at hshaped
    rw [nodes_append, List.forall_mem_append] at hnodes
    exact ⟨⟨hshaped.1, hnodes.1⟩, ⟨hshaped.2, hnodes.2⟩⟩
  · rintro ⟨⟨hf, hfnodes⟩, ⟨hg, hgnodes⟩⟩
    exact ⟨isShaped_append.2 ⟨hf, hg⟩, by
      rw [nodes_append]; exact List.forall_mem_append.2 ⟨hfnodes, hgnodes⟩⟩

theorem isReadFrom_single {t : Subtree} : (single t).IsReadFrom P lookup ↔
    t.node.IsReadFrom P lookup ∧ (t.node.branch = none → t.branch = nil) ∧
      t.branch.IsReadFrom P lookup := by
  constructor
  · rintro ⟨hshaped, hnodes⟩
    rw [isShaped_single] at hshaped
    rw [nodes_single, List.forall_mem_cons] at hnodes
    exact ⟨hnodes.1, hshaped.1, hshaped.2, hnodes.2⟩
  · rintro ⟨hnode, hbranch, hshaped, hnodes⟩
    exact ⟨isShaped_single.2 ⟨hbranch, hshaped⟩, by
      rw [nodes_single]; exact List.forall_mem_cons.2 ⟨hnode, hnodes⟩⟩

theorem Rel.forall_nodes {p q : Node → Prop} {R : Node → Node → Prop}
    (hR : ∀ {n m}, R n m → p n → q m) (h : Rel R f g) (hp : ∀ n ∈ f.nodes, p n) :
    ∀ m ∈ g.nodes, q m := by
  intro m hm
  obtain ⟨i, hi, rfl⟩ := List.mem_iff_getElem.1 hm
  have hnodes := h.nodes
  have hi' : i < f.nodes.length := hnodes.length_eq ▸ hi
  exact hR ((List.forall₂_iff_get.1 hnodes).2 i hi' hi) (hp _ (List.getElem_mem hi'))

theorem Rel.isReadFrom (h : Rel Node.IsPlaced f g) (hf : f.IsReadFrom P lookup) :
    g.IsReadFrom P lookup where
  shaped := h.isShaped Node.IsPlaced.branch_isNone hf.shaped
  nodes := Rel.forall_nodes (p := Node.IsReadFrom P lookup) (q := Node.IsReadFrom P lookup)
    (fun hnm hn => Node.IsPlaced.isReadFrom hnm hn) h hf.nodes

theorem Rel.ids_eq (h : Rel Node.IsPlaced f g) :
    g.nodes.map (fun n => n.id.value) = f.nodes.map fun n => n.id.value := by
  have hnodes := h.nodes
  generalize f.nodes = items at *
  generalize g.nodes = others at *
  induction hnodes with
  | nil => rfl
  | cons hnm _ ih => rw [List.map_cons, List.map_cons, ih, hnm.identity]

end Forest

namespace Reading

/-- All nodes in the order in which their blocks began. -/
def allNodes (r : Reading) : List Node :=
  r.root.nodes.nodes ++ r.openNodes.reverse.flatMap fun o => (Forest.single o.subtree).nodes

/-- What holds where the next line stands. -/
def IsSoundPlace (P : String → Prop) (catalogue : Catalogue) (openNodes : List OpenNode) :
    Place → Prop
  | .list => ∀ o ∈ openNodes.head?, o.subtree.node.branch.isSome = true
  | .dynamicSite d => d.IsReadFrom P catalogue
  | .unreadable _ _ => False
  | .block | .behind => True

/-- **The reader without a problem**, started with an identity in an empty root. -/
structure IsSound (P : String → Prop) (lookup : Lookup) (level : Level) (start : Nat)
    (r : Reading) : Prop where
  outermost : r.root.level = { level with counters := r.root.level.counters }
  root : r.root.nodes.IsReadFrom P lookup
  named : ∀ n ∈ r.root.nodes.nodes, n.lacksName = false
  relevant : ∀ n ∈ r.root.nodes.nodes, n.type.isRelevantIn level.context = true
  opened : ∀ o ∈ r.openNodes, (Forest.single o.subtree).IsReadFrom P lookup
  /-- What encloses an open node has a branch. -/
  enclosing : ∀ o ∈ r.openNodes.tail, o.subtree.node.branch.isSome = true
  place : IsSoundPlace P lookup.catalogue r.openNodes r.place
  /-- Identities were given out in the order of the nodes. -/
  identities : ∃ count, r.allNodes.map (fun n => n.id.value) = List.range' start count ∧
    r.fresh.value = start + count

variable {level : Level} {start : Nat} {r : Reading}

theorem isSound_start (level : Level) (fresh : NodeId) :
    (Reading.start ⟨level, .nil⟩ fresh).IsSound P lookup level fresh.value where
  outermost := rfl
  root := Forest.isReadFrom_nil
  named := by simp [Reading.start, Forest.nodes]
  relevant := by simp [Reading.start, Forest.nodes]
  opened := by simp [Reading.start]
  enclosing := by simp [Reading.start]
  place := by simp [Reading.start, IsSoundPlace]
  identities := ⟨0, rfl, rfl⟩

/-- A node whose block begins. -/
theorem IsSound.open_ (h : r.IsSound P lookup level start)
    (hplace : IsSoundPlace P lookup.catalogue r.openNodes .list) {n : Node}
    (hn : n.IsReadFrom P lookup) (hid : n.id = r.fresh) (line : Nat) :
    IsSound P lookup level start { r with
      openNodes := ⟨⟨n, .nil⟩, line⟩ :: r.openNodes
      place := .block
      fresh := ⟨r.fresh.value + 1⟩ } where
  outermost := h.outermost
  root := h.root
  named := h.named
  relevant := h.relevant
  opened := List.forall_mem_cons.2 ⟨Forest.isReadFrom_single.2
    ⟨hn, fun _ => rfl, Forest.isReadFrom_nil⟩, h.opened⟩
  enclosing := by
    have htail := h.enclosing
    intro o ho
    cases hopen : r.openNodes with
    | nil => rw [hopen] at ho; cases ho
    | cons o' rest =>
        rw [hopen] at ho htail hplace
        rcases List.mem_cons.1 ho with rfl | ho
        · exact hplace o rfl
        · exact htail o ho
  place := trivial
  identities := by
    obtain ⟨count, hids, hfresh⟩ := h.identities
    refine ⟨count + 1, ?_, by rw [hfresh]; rfl⟩
    have hall : allNodes { r with
        openNodes := ⟨⟨n, .nil⟩, line⟩ :: r.openNodes
        place := .block
        fresh := ⟨r.fresh.value + 1⟩ } = r.allNodes ++ [n] := by
      simp [allNodes, Forest.nodes]
    rw [hall, List.map_append, hids, List.range'_concat, List.map_singleton, hid, hfresh,
      Nat.one_mul]

/-- An entry of the innermost open node. -/
theorem IsSound.mapNode (h : r.IsSound P lookup level start) {o : OpenNode} {rest : List OpenNode}
    (hopen : r.openNodes = o :: rest) {m : Node} (hm : m.IsReadFrom P lookup)
    (hid : m.id = o.subtree.node.id) (hbranch : m.branch = o.subtree.node.branch) {place : Place}
    (hplace : place = .block) :
    IsSound P lookup level start { r with
      openNodes := { o with subtree := { o.subtree with node := m } } :: rest
      place } where
  outermost := h.outermost
  root := h.root
  named := h.named
  relevant := h.relevant
  opened := by
    have hopened := h.opened
    rw [hopen, List.forall_mem_cons] at hopened
    obtain ⟨-, hshaped, hforest⟩ := Forest.isReadFrom_single.1 hopened.1
    exact List.forall_mem_cons.2 ⟨Forest.isReadFrom_single.2
      ⟨hm, fun hnone => hshaped (hbranch ▸ hnone), hforest⟩, hopened.2⟩
  enclosing := by
    have htail := h.enclosing
    rwa [hopen] at htail
  place := by rw [hplace]; trivial
  identities := by
    obtain ⟨count, hids, hfresh⟩ := h.identities
    refine ⟨count, ?_, hfresh⟩
    rw [← hids]
    simp [allNodes, hopen, hid]

/-- A node that is placed in the root. -/
theorem IsSound.close_root (h : r.IsSound P lookup level start) {o : OpenNode}
    (hopen : r.openNodes = [o]) {root : Sequence}
    (happend : r.root.append o.subtree none = .ok root) :
    IsSound P lookup level start { r with root, openNodes := [], place := .list } := by
  have hopened := h.opened o (by simp [hopen])
  -- Placing renames nodes and sets their context, and leaves all else.
  obtain ⟨f, hnodes, hplaced, hnamed, hrelevant, hlevel, -⟩ :=
    Sequence.exists_of_place hopened.shaped happend
  have hcontext : r.root.level.context = level.context := by rw [h.outermost]
  have htypes : ∀ n ∈ f.nodes, n.type.isRelevantIn level.context = true :=
    hplaced.forall_nodes (p := fun n => n.type.isRelevantIn level.context = true)
      (fun hnm hn => by rw [hnm.type]; exact hn) (hcontext ▸ hrelevant)
  exact {
    outermost := by
      rw [hlevel, h.outermost]
    root := by
      rw [hnodes]
      exact Forest.isReadFrom_append.2 ⟨h.root, hplaced.isReadFrom hopened⟩
    named := by
      rw [hnodes, Forest.nodes_append]
      exact List.forall_mem_append.2 ⟨h.named, hnamed rfl⟩
    relevant := by
      rw [hnodes, Forest.nodes_append]
      exact List.forall_mem_append.2 ⟨h.relevant, htypes⟩
    opened := by simp
    enclosing := by simp
    place := by simp [IsSoundPlace]
    identities := by
      obtain ⟨count, hids, hfresh⟩ := h.identities
      refine ⟨count, ?_, hfresh⟩
      rw [← hids]
      simp [allNodes, hopen, hnodes, hplaced.ids_eq] }

/-- A node that is placed in the branch it stands in. -/
theorem IsSound.close_branch (h : r.IsSound P lookup level start) {o o' : OpenNode}
    {rest : List OpenNode} (hopen : r.openNodes = o :: o' :: rest) {inner : Level}
    (hinner : o'.subtree.node.branch = some inner) {s : Sequence}
    (hadopt : Sequence.adopt ⟨inner, o'.subtree.branch⟩ o.subtree = .ok s) :
    IsSound P lookup level start { r with
      openNodes := { o' with subtree :=
        ⟨{ o'.subtree.node with branch := some s.level }, s.nodes⟩ } :: rest
      place := .list } := by
  have hopened := h.opened
  rw [hopen, List.forall_mem_cons, List.forall_mem_cons] at hopened
  obtain ⟨ho, ho', hrest⟩ := hopened
  obtain ⟨f, hnodes, hplaced, -, -, -, hlevel⟩ := Sequence.exists_of_place ho.shaped hadopt
  -- No name was given, so no counter of the level has moved.
  have hnode : { o'.subtree.node with branch := some s.level } = o'.subtree.node := by
    rw [hlevel rfl, ← hinner]
  rw [hnode]
  obtain ⟨hnode', -, hbranch⟩ := Forest.isReadFrom_single.1 ho'
  exact {
    outermost := h.outermost
    root := h.root
    named := h.named
    relevant := h.relevant
    opened := by
      refine List.forall_mem_cons.2 ⟨Forest.isReadFrom_single.2
        ⟨hnode', fun hnone => ?_, ?_⟩, hrest⟩
      · rw [hinner] at hnone
        cases hnone
      · rw [hnodes]
        exact Forest.isReadFrom_append.2 ⟨hbranch, hplaced.isReadFrom ho⟩
    enclosing := by
      have htail := h.enclosing
      rw [hopen] at htail
      exact (List.forall_mem_cons.1 htail).2
    place := by
      simp [IsSoundPlace, hinner]
    identities := by
      obtain ⟨count, hids, hfresh⟩ := h.identities
      refine ⟨count, ?_, hfresh⟩
      rw [← hids]
      simp [allNodes, hopen, hnodes, hplaced.ids_eq] }

theorem IsSound.close (h : r.IsSound P lookup level start) (hok : r.close.problems = []) :
    r.close.IsSound P lookup level start := by
  have hcloses := closesBlock_close r
  generalize r.close = r' at hcloses hok ⊢
  cases hcloses with
  | nothing => exact h
  | refused => exact absurd hok (problems_report_ne_nil _ _)
  | outermost hopen happend => exact h.close_root hopen happend
  | @inside o o' rest s hopen hadopt =>
      obtain ⟨inner, hinner⟩ := Option.isSome_iff_exists.1 (h.enclosing o' (by simp [hopen]))
      rw [hinner] at hadopt
      exact h.close_branch hopen hinner hadopt

/-! ### Lines -/

theorem IsSound.listStep (h : r.IsSound P lookup level start)
    (hplace : IsSoundPlace P lookup.catalogue r.openNodes .list) {line : Nat} {keyword : String}
    {values : List String} (hok : (r.listStep lookup line keyword values).problems = []) :
    (r.listStep lookup line keyword values).IsSound P lookup level start := by
  have hacts := actsInList_listStep lookup r line keyword values
  generalize r.listStep lookup line keyword values = r' at hacts hok ⊢
  cases hacts with
  | ends =>
      refine { h with place := ?_, identities := h.identities }
      split <;> trivial
  | unknown => exact absurd hok (problems_report_ne_nil _ _)
  | @opens type _ htype =>
      have hread : (Node.ofHeader r.fresh type values).IsReadFrom P lookup :=
        ⟨Node.fits_ofHeader _ _ _, by simpa using Registry.admits_of_typeOf htype⟩
      exact h.open_ hplace hread (Node.id_ofHeader _ _ _) line

theorem IsSound.blockStep (hP : IsTextClass P) (h : r.IsSound P lookup level start)
    {line : Nat} {keyword : String} {values : List String} (hvalues : ∀ a ∈ values, P a)
    (hplace : r.place = .block)
    (hok : (r.blockStep lookup line keyword values).problems = []) :
    (r.blockStep lookup line keyword values).IsSound P lookup level start := by
  have hacts := actsInBlock_blockStep lookup r line keyword values
  generalize r.blockStep lookup line keyword values = r' at hacts hok ⊢
  cases hacts with
  | nothing => exact h
  | ends => exact h.close hok
  | branch hopen _ hbranch _ =>
      refine { h with place := ?_, identities := h.identities }
      simp [IsSoundPlace, hopen, hbranch]
  | sites => exact { h with place := DynamicSite.isReadFrom_empty, identities := h.identities }
  | @entry o rest outcome m hopen _ _ _ hread =>
      have hnode := (h.opened o (by simp [hopen])).nodes o.subtree.node (by simp)
      have hkeeps := o.subtree.node.keeps_readLine keyword values lookup.catalogue
      have hfits := hnode.fits.readLine hP keyword hvalues
      rw [hread] at hkeeps hfits
      rw [reportOutcome_eq_self hok]
      exact h.mapNode hopen ⟨hfits, hkeeps.type.symm ▸ hnode.admitted⟩ hkeeps.identity
        hkeeps.branch hplace

/-- A block of dynamic sites that ends. -/
theorem IsSound.closeDynamicSite (h : r.IsSound P lookup level start) {d : DynamicSite}
    (hd : d.IsReadFrom P lookup.catalogue) :
    (r.closeDynamicSite d).IsSound P lookup level start := by
  unfold Reading.closeDynamicSite mapOpen
  cases hopen : r.openNodes with
  | nil =>
      refine { h with place := ?_, identities := h.identities }
      trivial
  | cons o rest =>
      have hnode := (h.opened o (by simp [hopen])).nodes o.subtree.node (by simp)
      -- Only a selection takes the block.
      cases hkind : o.subtree.node.kind with
      | select blocks chosen =>
          obtain ⟨rfl, hblocks⟩ := NodeKind.IsReadFrom.blocks (hkind ▸ hnode.fits.kind)
          have htype : o.subtree.node.type = .select := by rw [Node.type, hkind]; rfl
          obtain ⟨⟨hname, hkeywords, -, hparameters, hbranch⟩, hadmitted⟩ := hnode
          unfold Node.HoldsParameters at hparameters
          rw [htype] at hkeywords hparameters hbranch hadmitted
          have hread : Node.IsReadFrom P lookup
              { o.subtree.node with kind := .select (blocks ++ [d]) [] } :=
            ⟨⟨hname, hkeywords, .select (List.forall_mem_append.2 ⟨hblocks, by simpa using hd⟩),
              hparameters, hbranch⟩, hadmitted⟩
          have hadd : addDynamicSite d o.subtree = { o.subtree with
              node := { o.subtree.node with kind := .select (blocks ++ [d]) [] } } := by
            simp [addDynamicSite, hkind]
          dsimp only
          rw [hadd]
          exact h.mapNode hopen hread rfl rfl rfl
      | _ =>
          have hadd : addDynamicSite d o.subtree = o.subtree := by simp [addDynamicSite, hkind]
          dsimp only
          rw [hadd]
          exact h.mapNode hopen hnode rfl rfl rfl

theorem IsSound.dynamicSiteStep (hP : IsTextClass P) (h : r.IsSound P lookup level start)
    {d : DynamicSite} (hd : d.IsReadFrom P lookup.catalogue) {line : Nat} {keyword : String}
    {values : List String} (hvalues : ∀ a ∈ values, P a)
    (hok : (r.dynamicSiteStep lookup d line keyword values).problems = []) :
    (r.dynamicSiteStep lookup d line keyword values).IsSound P lookup level start := by
  have hacts := actsInSites_dynamicSiteStep lookup r d line keyword values
  generalize r.dynamicSiteStep lookup d line keyword values = r' at hacts hok ⊢
  cases hacts with
  | ends => exact h.closeDynamicSite hd
  | @entry outcome d' _ hread =>
      have hd' := hd.readLine hP hvalues keyword
      rw [hread] at hd'
      rw [reportOutcome_eq_self hok]
      exact { h with place := hd', identities := h.identities }

/-- **One line keeps the form**, unless it is a problem. -/
theorem IsSound.step (hP : IsTextClass P) (h : r.IsSound P lookup level start)
    {l : ArgumentLine} (hargs : ∀ args, l.args = .ok args → ∀ a ∈ args, P a)
    (hok : (r.step lookup l).problems = []) :
    (r.step lookup l).IsSound P lookup level start := by
  have hplace := h.place
  have hvalues : ∀ {keyword : String} {values : List String},
      l.args = .ok (keyword :: values) → ∀ a ∈ values, P a := fun heq a ha =>
    hargs _ heq a (by simp [ha])
  have hacts := acts_step lookup r l
  generalize r.step lookup l = r' at hacts hok ⊢
  cases hacts with
  | behind => exact h
  | blank => exact h
  | resumes hskips => rw [hskips] at hplace; exact hplace.elim
  | unsplittable => exact absurd hok (problems_report_ne_nil _ _)
  | inList hlist => exact h.listStep (hlist ▸ hplace) hok
  | inBlock hblock hwords => exact h.blockStep hP (hvalues hwords) hblock hok
  | inSites hsites hwords =>
      rw [hsites] at hplace
      exact h.dynamicSiteStep hP hplace (hvalues hwords) hok
  | passedOver hskips => rw [hskips] at hplace; exact hplace.elim

/-- **So do all lines of a text.** -/
theorem IsSound.run (hP : IsTextClass P) {lines : List ArgumentLine}
    (hlines : ∀ l ∈ lines, ∀ args, l.args = .ok args → ∀ a ∈ args, P a)
    (h : r.IsSound P lookup level start)
    (hok : (lines.foldl (Reading.step lookup) r).problems = []) :
    (lines.foldl (Reading.step lookup) r).IsSound P lookup level start := by
  induction lines generalizing r with
  | nil => exact h
  | cons l lines ih =>
      obtain ⟨hl, hlines⟩ := List.forall_mem_cons.1 hlines
      rw [List.foldl_cons] at hok ⊢
      have hstays : (r.step lookup l).problems <+:
          (lines.foldl (Reading.step lookup) (r.step lookup l)).problems :=
        problems_prefix_run lines _
      rw [hok, List.prefix_nil] at hstays
      exact ih hlines (h.step hP hl hstays) hok

end Reading

/-! ## Whole texts -/

/-- **A root as reading leaves it**: nodes that can be written, that all have the names they need
and may occur in the context, with identities in the order of the nodes. -/
structure Sequence.IsReadFrom (P : String → Prop) (lookup : Lookup) (level : Level) (start : Nat)
    (s : Sequence) : Prop where
  outermost : s.level = { level with counters := s.level.counters }
  forest : s.nodes.IsReadFrom P lookup
  named : ∀ n ∈ s.nodes.nodes, n.lacksName = false
  relevant : ∀ n ∈ s.nodes.nodes, n.type.isRelevantIn level.context = true
  identities : ∃ count, s.nodes.nodes.map (fun n => n.id.value) = List.range' start count

theorem readOutcome_eq_ok_iff {problems : List Error} {u : Unit} :
    readOutcome problems = .ok u ↔ problems = [] := by
  cases problems <;> simp [readOutcome]

/-- The arguments of a text are those of its lines. -/
theorem args_of_mem_argumentLines {text : String}
    (h : ∀ line ∈ linesOf text, ∀ args, tokenise line = .ok args → ∀ a ∈ args, P a) :
    ∀ l ∈ argumentLines text, ∀ args, l.args = .ok args → ∀ a ∈ args, P a := by
  intro l hl args hargs
  obtain ⟨⟨line, number⟩, hmem, hline⟩ := List.mem_filterMap.1 hl
  have hmem' : line ∈ linesOf text := List.fst_mem_of_mem_zipIdx hmem
  dsimp only at hline
  split at hline
  · cases hline
  · next args' heq =>
      obtain rfl := Option.some.inj hline
      obtain rfl := Except.ok.inj hargs
      exact h line hmem' _ heq
  · obtain rfl := Option.some.inj hline
    cases hargs

/-- **What a text without problems gives.** -/
theorem Sequence.ofText_isRead (hP : IsTextClass P) {level : Level} {fresh fresh' : NodeId}
    {text : String} {s : Sequence}
    (hargs : ∀ line ∈ linesOf text, ∀ args, tokenise line = .ok args → ∀ a ∈ args, P a)
    (h : Sequence.ofText lookup ⟨level, .nil⟩ fresh text = (.ok s, fresh')) :
    s.IsReadFrom P lookup level fresh.value := by
  obtain ⟨hread, -⟩ := Prod.mk.inj h
  obtain ⟨u, hok, rfl⟩ := map_eq_ok_iff.1 hread
  obtain ⟨hfinish, hopen⟩ := Reading.finish_of_problems_eq_nil (readOutcome_eq_ok_iff.1 hok)
  rw [hfinish] at hok ⊢
  have hsound := (Reading.isSound_start level fresh).run hP (args_of_mem_argumentLines hargs)
    (readOutcome_eq_ok_iff.1 hok)
  obtain ⟨count, hids, -⟩ := hsound.identities
  exact ⟨hsound.outermost, hsound.root, hsound.named, hsound.relevant, count, by
    rw [← hids]; simp [Reading.allNodes, hopen]⟩

end SiteAnalysis
