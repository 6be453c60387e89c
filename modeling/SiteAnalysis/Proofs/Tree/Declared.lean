import SiteAnalysis.Proofs.Tree.Reading

set_option autoImplicit false

/-! # What a text declares

A line that begins the block of a node declares the node: its type and, if it has an argument, its
name. The nodes of a tree that was read are those that lines declared, in the same order. A name is
put into letters, digits and underscores, and stays with its node if anything is left of it; names of
other nodes are stored as they are spelled. Main statement:

* `Sequence.isDeclaredBy_ofText`: the nodes of a text that was read, as its lines declared them.
-/

namespace SiteAnalysis

open Forest (single)

variable {P : String → Prop}

/-! ## Names that stay -/

/-- **A node that was placed**, and renamed only if it lacked the name it needs. -/
def Node.IsSettled (n m : Node) : Prop :=
  ∃ branch, m = { n with branch } ∨ (n.lacksName = true ∧ ∃ name, m = { n.rename name with branch })

namespace Node.IsSettled

variable {l m n : Node}

theorem refl (n : Node) : n.IsSettled n := ⟨n.branch, .inl rfl⟩

theorem setBranch (h : n.IsSettled m) (branch : Option Level) : n.IsSettled { m with branch } := by
  obtain ⟨branch', rfl | ⟨hlacks, name, rfl⟩⟩ := h
  · exact ⟨branch, .inl rfl⟩
  · exact ⟨branch, .inr ⟨hlacks, name, rfl⟩⟩

theorem type (h : n.IsSettled m) : m.type = n.type := by
  obtain ⟨branch, rfl | ⟨-, name, rfl⟩⟩ := h <;> simp only [Node.type, Node.rename]

theorem keywords (h : n.IsSettled m) : m.keywords = n.keywords := by
  obtain ⟨branch, rfl | ⟨-, name, rfl⟩⟩ := h <;> simp only [Node.rename]

/-- A name that a node has it keeps. -/
theorem name (h : n.IsSettled m) (hname : n.name ≠ "") : m.name = n.name := by
  obtain ⟨branch, rfl | ⟨hlacks, name, rfl⟩⟩ := h
  · rfl
  · have hempty : n.name = "" := by
      rw [Node.lacksName, Bool.and_eq_true, String.isEmpty_iff] at hlacks
      exact hlacks.1
    exact absurd hempty hname

end Node.IsSettled

theorem Level.isSettled_named (level : Level) (reserved : List String) (n : Node) :
    n.IsSettled (level.named reserved n).1 := by
  unfold Level.named
  split
  · next hlacks =>
      exact ⟨n.branch, .inr ⟨hlacks, (level.nextName n.type reserved).1, by simp only [Node.rename]⟩⟩
  · exact .refl n

namespace Forest

/-- **Naming leaves names alone** that are not missing. -/
theorem isSettled_nameAll (f : Forest) (level : Level) (reserved : List String) :
    Rel Node.IsSettled f (f.nameAll level reserved).1 := by
  induction f generalizing level reserved with
  | nil => exact .nil
  | cons n branch rest ihb ihr =>
      rw [nameAll_cons]
      have hnode := level.isSettled_named reserved n
      generalize level.named reserved n = named at hnode
      obtain ⟨m, level', reserved'⟩ := named
      dsimp only at hnode ⊢
      split
      · exact .cons hnode (.refl Node.IsSettled.refl branch) (ihr level' reserved')
      · exact .cons (hnode.setBranch _) (ihb _ _) (ihr _ _)

end Forest

/-- A tree that is placed behind all others keeps the names it has. -/
theorem Sequence.isSettled_place {s s' : Sequence} {t : Subtree} {taken : List String} {naming : Bool}
    (h : s.place t none taken naming = .ok s') :
    ∃ f, s'.nodes = s.nodes.append f ∧ Forest.Rel Node.IsSettled (single t) f := by
  have hnamed : Forest.Rel Node.IsSettled (single t) (s.named t taken naming).1 := by
    unfold named
    split
    · exact Forest.isSettled_nameAll _ _ _
    · exact .refl Node.IsSettled.refl _
  rw [place_eq] at h
  split at h
  · cases h
  · cases h
  · obtain rfl := Except.ok.inj h
    have hcontext := Forest.Rel.map (R := fun n m : Node => ∃ branch, m = { n with branch })
      (fun n => ⟨n.branch.map fun l => { l with context := s.level.context }, rfl⟩)
      (s.named t taken naming).1
    refine ⟨_, rfl, hnamed.trans (fun hlm hmn => ?_) hcontext⟩
    obtain ⟨branch, rfl⟩ := hmn
    exact hlm.setBranch branch

/-! ## References as they are spelled -/

/-- **A reference as readers leave it**: by a name that is spelled like an argument. -/
def NodeRef.IsSpelled (P : String → Prop) (r : NodeRef) : Prop := ∃ a, P a ∧ r = .named a

theorem KeywordData.isSpelled_of_read {data data' : KeywordData} {keyword : String}
    {catalogue : Catalogue} {values : List String} (hvalues : ∀ a ∈ values, P a)
    (h : data.read keyword catalogue values = .ok data') : ∀ r ∈ data'.refs, r.2.IsSpelled P := by
  intro r hr
  cases gives_of_read h with
  | node _ _ s =>
      obtain rfl := List.mem_singleton.1 hr
      exact ⟨s, hvalues s (by simp), rfl⟩
  | first _ _ _ s =>
      obtain rfl := List.mem_singleton.1 hr
      exact ⟨s, hvalues s (by simp), rfl⟩
  | observable _ _ _ s =>
      obtain rfl := List.mem_singleton.1 hr
      exact ⟨s, hvalues s (by simp), rfl⟩
  | nodes =>
      simp only [refs, List.map_map, List.mem_map] at hr
      obtain ⟨a, ha, rfl⟩ := hr
      exact ⟨a, hvalues a ha, rfl⟩
  | _ => cases hr

/-- Whether all references of a store are spelled like arguments. -/
def KeywordStore.IsSpelled (P : String → Prop) (s : KeywordStore) : Prop :=
  ∀ r ∈ s.refs, r.2.2.IsSpelled P

namespace KeywordStore

variable {s s' : KeywordStore} {values : List String} {catalogue : Catalogue}

theorem isSpelled_keywords (t : NodeType) : t.keywords.IsSpelled P := by
  intro r hr
  obtain ⟨k, hk, hr⟩ := List.mem_flatMap.1 hr
  rw [KeywordData.refs_of_isDeclared (t.isDeclared_keywords k hk).1] at hr
  cases hr

theorem mem_updateFirst {α : Type} {p : α → Bool} {f : α → α} {items : List α} {a : α}
    (h : a ∈ updateFirst p f items) : a ∈ items ∨ ∃ b ∈ items, a = f b := by
  induction items with
  | nil => cases h
  | cons b rest ih =>
      rw [updateFirst] at h
      split at h
      · rcases List.mem_cons.1 h with rfl | h
        · exact .inr ⟨b, by simp, rfl⟩
        · exact .inl (by simp [h])
      · rcases List.mem_cons.1 h with rfl | h
        · exact .inl (by simp)
        · rcases ih h with h | ⟨c, hc, heq⟩
          · exact .inl (List.mem_cons_of_mem _ h)
          · exact .inr ⟨c, List.mem_cons_of_mem _ hc, heq⟩

theorem IsSpelled.readKeyword (h : s.IsSpelled P) {name : String} (hvalues : ∀ a ∈ values, P a)
    (hread : s.readKeyword name values catalogue = some (.ok s')) : s'.IsSpelled P := by
  obtain ⟨k, -, hk⟩ := Option.map_eq_some_iff.1 hread
  obtain ⟨data, hdata, rfl⟩ := map_eq_ok_iff.1 hk
  intro r hr
  obtain ⟨k', hk', hr⟩ := List.mem_flatMap.1 hr
  rcases mem_updateFirst hk' with hold | ⟨k'', -, rfl⟩
  · exact h r (List.mem_flatMap.2 ⟨k', hold, hr⟩)
  · obtain ⟨r', hr', rfl⟩ := List.mem_map.1 hr
    exact KeywordData.isSpelled_of_read hvalues hdata r' hr'

/-- **A line adds references as they are spelled.** -/
theorem IsSpelled.read (h : s.IsSpelled P) {keyword : String} (hvalues : ∀ a ∈ values, P a) :
    (s.read keyword values catalogue).2.IsSpelled P := by
  unfold KeywordStore.read
  split
  · next hread => exact h.readKeyword hvalues hread
  · exact h
  · split
    · exact h
    · split
      · next hread => exact h.readKeyword hvalues hread
      · exact h
      · exact h

end KeywordStore

theorem Node.isSpelled_readLine {n : Node} (h : n.keywords.IsSpelled P) {values : List String}
    (hvalues : ∀ a ∈ values, P a) (keyword : String) (catalogue : Catalogue) :
    (n.readLine keyword values catalogue).2.keywords.IsSpelled P := by
  unfold readLine
  split
  · exact h
  · split
    · split
      · next m hread =>
          unfold readParameter at hread
          split at hread
          · obtain ⟨value, -, hdeclare⟩ := bind_eq_ok_iff.1 hread
            unfold declareRead at hdeclare
            split at hdeclare
            · obtain rfl := Except.ok.inj hdeclare
              exact h
            · cases hdeclare
          · cases hread
      · exact h
    · exact h.read hvalues
  · exact h.read hvalues

/-! ## Declarations -/

/-- **What a line says of the node whose block it begins.** -/
structure Declaration where
  type : NodeType
  /-- The name as it is spelled, if there is one. -/
  name : Option String
  deriving DecidableEq

/-- **Whether a node is what was declared.** A name of which nothing is left is none. -/
structure Node.IsDeclaredBy (P : String → Prop) (d : Declaration) (n : Node) : Prop where
  type : n.type = d.type
  name : ∀ t ∈ d.name, niceName t ≠ "" → n.name = niceName t
  spelled : n.keywords.IsSpelled P

theorem Node.IsDeclaredBy.settled {d : Declaration} {n m : Node} (h : n.IsDeclaredBy P d)
    (hm : n.IsSettled m) : m.IsDeclaredBy P d where
  type := hm.type.trans h.type
  name t ht hne := by
    have hname := h.name t ht hne
    rw [hm.name (by rwa [hname]), hname]
  spelled := by
    rw [hm.keywords]
    exact h.spelled

/-- A node whose block begins is what the line declares. -/
theorem Node.isDeclaredBy_ofHeader (fresh : NodeId) (type : NodeType) (values : List String) :
    (ofHeader fresh type values).IsDeclaredBy P ⟨type, values.head?⟩ := by
  have hspelled : type.keywords.IsSpelled P := KeywordStore.isSpelled_keywords type
  cases values with
  | nil => exact ⟨type_ofHeader _ _ _, fun t ht => (by cases ht), hspelled⟩
  | cons name values =>
      refine ⟨type_ofHeader _ _ _, fun t ht _ => ?_, hspelled⟩
      obtain rfl : name = t := by simpa using ht
      rfl

namespace Reading

variable {lookup : Lookup} {r : Reading} {ds : List Declaration}

/-- **What a line declares.** -/
def declaration? (lookup : Lookup) (r : Reading) (l : ArgumentLine) : Option Declaration :=
  match r.place, l.args with
  | .list, .ok (keyword :: values) =>
    if sameName keyword r.level.terminator then none
    else match lookup.registry.typeOf keyword with
      | .error _ => none
      | .ok type => some ⟨type, values.head?⟩
  | _, _ => none

/-- **What lines declare**, read from where the reader stands. -/
def declarations (lookup : Lookup) : Reading → List ArgumentLine → List Declaration
  | _, [] => []
  | r, l :: lines => (r.declaration? lookup l).toList ++ declarations lookup (r.step lookup l) lines

/-- Whether the nodes read so far are those that were declared. -/
def IsDeclaredBy (P : String → Prop) (ds : List Declaration) (r : Reading) : Prop :=
  List.Forall₂ (Node.IsDeclaredBy P) ds r.allNodes

theorem IsDeclaredBy.of_settled {r' : Reading} (h : r.IsDeclaredBy P ds)
    (hsettled : List.Forall₂ Node.IsSettled r.allNodes r'.allNodes) : r'.IsDeclaredBy P ds := by
  unfold IsDeclaredBy at h ⊢
  generalize r.allNodes = before at h hsettled
  generalize r'.allNodes = after at hsettled
  induction h generalizing after with
  | nil =>
      cases hsettled
      exact .nil
  | cons hd _ ih =>
      cases hsettled with
      | cons hnm hrest => exact .cons (hd.settled hnm) (ih _ hrest)

/-- **Closing a block keeps all nodes** in their order. -/
theorem isSettled_close (hok : r.close.problems = []) :
    List.Forall₂ Node.IsSettled r.allNodes r.close.allNodes := by
  have hrefl : ∀ l : List Node, List.Forall₂ Node.IsSettled l l := fun l =>
    List.forall₂_same.2 fun n _ => .refl n
  have hcloses := closesBlock_close r
  generalize r.close = r' at hcloses hok ⊢
  cases hcloses with
  | nothing => exact hrefl _
  | refused => exact absurd hok (problems_report_ne_nil _ _)
  | outermost hopen happend =>
      obtain ⟨f, hnodes, hsettled⟩ := Sequence.isSettled_place happend
      simp only [allNodes, hopen, hnodes, Forest.nodes_append, List.reverse_cons,
        List.reverse_nil, List.nil_append, List.flatMap_cons, List.flatMap_nil, List.append_nil]
      exact List.rel_append (hrefl _) hsettled.nodes
  | inside hopen hadopt =>
      obtain ⟨f, hnodes, hsettled⟩ := Sequence.isSettled_place hadopt
      simp only [allNodes, hopen, hnodes, Forest.nodes_append, Forest.nodes_single,
        List.reverse_cons, List.flatMap_append, List.flatMap_cons, List.flatMap_nil,
        List.append_nil, List.append_assoc, List.cons_append]
      refine List.rel_append (hrefl _) (List.rel_append (hrefl _) (.cons ?_ ?_))
      · exact ⟨_, .inl rfl⟩
      · rw [← Forest.nodes_single]
        exact List.rel_append (hrefl _) hsettled.nodes

theorem forall₂_replace {α β : Type} {R : α → β → Prop} {b b' : β} (hR : ∀ a, R a b → R a b')
    (front back : List β) {items : List α} (h : List.Forall₂ R items (front ++ b :: back)) :
    List.Forall₂ R items (front ++ b' :: back) := by
  induction front generalizing items with
  | nil =>
      cases h with
      | cons hb hback => exact .cons (hR _ hb) hback
  | cons c front ih =>
      cases h with
      | cons hc hrest => exact .cons hc (ih hrest)

/-- A change of the innermost open node. -/
theorem IsDeclaredBy.mapNode (h : r.IsDeclaredBy P ds) {o : OpenNode} {rest : List OpenNode}
    (hopen : r.openNodes = o :: rest) {m : Node}
    (hm : ∀ d, o.subtree.node.IsDeclaredBy P d → m.IsDeclaredBy P d) (place : Place) :
    IsDeclaredBy P ds { r with
      openNodes := { o with subtree := { o.subtree with node := m } } :: rest
      place } := by
  have hall : r.allNodes = (r.root.nodes.nodes ++ rest.reverse.flatMap fun o =>
      (single o.subtree).nodes) ++ o.subtree.node :: o.subtree.branch.nodes := by
    simp [allNodes, hopen]
  have hall' : allNodes { r with
      openNodes := { o with subtree := { o.subtree with node := m } } :: rest
      place } = (r.root.nodes.nodes ++ rest.reverse.flatMap fun o =>
        (single o.subtree).nodes) ++ m :: o.subtree.branch.nodes := by
    simp [allNodes]
  unfold IsDeclaredBy at h ⊢
  rw [hall] at h
  rw [hall']
  exact forall₂_replace hm _ _ h

theorem IsDeclaredBy.listStep (h : r.IsDeclaredBy P ds) (hplace : r.place = .list) (line : Nat)
    {keyword : String} {values : List String} :
    IsDeclaredBy P (ds ++ (r.declaration? lookup ⟨line, .ok (keyword :: values)⟩).toList)
      (r.listStep lookup line keyword values) := by
  have hacts := actsInList_listStep lookup r line keyword values
  generalize r.listStep lookup line keyword values = r' at hacts ⊢
  cases hacts with
  | ends hword =>
      have hnone : r.declaration? lookup ⟨line, .ok (keyword :: values)⟩ = none := by
        simp [declaration?, hplace, hword]
      rw [hnone, Option.toList_none, List.append_nil]
      exact h
  | unknown hword htype =>
      have hnone : r.declaration? lookup ⟨line, .ok (keyword :: values)⟩ = none := by
        simp [declaration?, hplace, hword, htype]
      rw [hnone, Option.toList_none, List.append_nil]
      exact h
  | @opens type hword htype =>
      have hsome : r.declaration? lookup ⟨line, .ok (keyword :: values)⟩ =
          some ⟨type, values.head?⟩ := by
        simp [declaration?, hplace, hword, htype]
      have hopened : allNodes { r with
          openNodes := ⟨⟨.ofHeader r.fresh type values, .nil⟩, line⟩ :: r.openNodes
          place := .block
          fresh := ⟨r.fresh.value + 1⟩ } = r.allNodes ++ [.ofHeader r.fresh type values] := by
        simp [allNodes, Forest.nodes]
      unfold IsDeclaredBy
      rw [hopened, hsome, Option.toList_some]
      exact List.rel_append h (.cons (Node.isDeclaredBy_ofHeader _ _ _) .nil)

theorem IsDeclaredBy.closeDynamicSite (h : r.IsDeclaredBy P ds) (d : DynamicSite) :
    (r.closeDynamicSite d).IsDeclaredBy P ds := by
  unfold Reading.closeDynamicSite mapOpen
  cases hopen : r.openNodes with
  | nil => exact h
  | cons o rest =>
      dsimp only
      unfold addDynamicSite
      split
      next n branch heq =>
      have hnode : o.subtree.node = n := by rw [heq]
      have hbranch : o.subtree.branch = branch := by rw [heq]
      subst hnode hbranch
      split
      · next blocks chosen hkind =>
          have hadd : ∀ d', o.subtree.node.IsDeclaredBy P d' → Node.IsDeclaredBy P d'
              { o.subtree.node with kind := .select (blocks ++ [d]) chosen } := fun d' hd' => by
            refine ⟨?_, hd'.name, hd'.spelled⟩
            rw [← hd'.type, Node.type, Node.type, hkind]
            rfl
          exact h.mapNode hopen hadd _
      · exact h.mapNode hopen (fun _ hd' => hd') _

theorem IsDeclaredBy.blockStep (h : r.IsDeclaredBy P ds) {line : Nat} {keyword : String}
    {values : List String} (hvalues : ∀ a ∈ values, P a)
    (hok : (r.blockStep lookup line keyword values).problems = []) :
    (r.blockStep lookup line keyword values).IsDeclaredBy P ds := by
  have hacts := actsInBlock_blockStep lookup r line keyword values
  generalize r.blockStep lookup line keyword values = r' at hacts hok ⊢
  cases hacts with
  | nothing => exact h
  | ends => exact h.of_settled (isSettled_close hok)
  | branch => exact h
  | sites => exact h
  | @entry o rest outcome m hopen _ _ _ hread =>
      have hkeeps := o.subtree.node.keeps_readLine keyword values lookup.catalogue
      rw [hread] at hkeeps
      have hm : ∀ d, o.subtree.node.IsDeclaredBy P d → m.IsDeclaredBy P d := fun d hd =>
        { type := hkeeps.type.trans hd.type
          name := fun t ht hne => hkeeps.name.trans (hd.name t ht hne)
          spelled := by
            have hspelled := Node.isSpelled_readLine hd.spelled hvalues keyword lookup.catalogue
            rwa [hread] at hspelled }
      rw [reportOutcome_eq_self hok]
      exact h.mapNode hopen hm r.place

theorem IsDeclaredBy.dynamicSiteStep (h : r.IsDeclaredBy P ds) {d : DynamicSite} {line : Nat}
    {keyword : String} {values : List String}
    (hok : (r.dynamicSiteStep lookup d line keyword values).problems = []) :
    (r.dynamicSiteStep lookup d line keyword values).IsDeclaredBy P ds := by
  have hacts := actsInSites_dynamicSiteStep lookup r d line keyword values
  generalize r.dynamicSiteStep lookup d line keyword values = r' at hacts hok ⊢
  cases hacts with
  | ends => exact h.closeDynamicSite d
  | entry =>
      rw [reportOutcome_eq_self hok]
      exact h

theorem IsDeclaredBy.unreadableStep (h : r.IsDeclaredBy P ds) (skipped : String) (depth : Nat)
    (keyword : String) : (r.unreadableStep skipped depth keyword).IsDeclaredBy P ds := by
  have hpasses := passesOver_unreadableStep r skipped depth keyword
  generalize r.unreadableStep skipped depth keyword = r' at hpasses ⊢
  cases hpasses <;> exact h

/-- **One line adds the node it declares**, unless it is a problem. -/
theorem IsDeclaredBy.step (h : r.IsDeclaredBy P ds) {l : ArgumentLine}
    (hargs : ∀ args, l.args = .ok args → ∀ a ∈ args, P a)
    (hok : (r.step lookup l).problems = []) :
    (r.step lookup l).IsDeclaredBy P (ds ++ (r.declaration? lookup l).toList) := by
  obtain ⟨line, args⟩ := l
  have hvalues : ∀ {keyword : String} {values : List String},
      args = .ok (keyword :: values) → ∀ a ∈ values, P a := fun heq a ha =>
    hargs _ heq a (by simp [ha])
  -- Only a line that stands in a list declares a node.
  have hnone : r.declaration? lookup ⟨line, args⟩ = none →
      ds ++ (r.declaration? lookup ⟨line, args⟩).toList = ds := fun hnone => by
    rw [hnone]
    exact List.append_nil ds
  have hacts := acts_step lookup r ⟨line, args⟩
  generalize r.step lookup ⟨line, args⟩ = r' at hacts hok ⊢
  cases hacts with
  | behind hplace =>
      rw [hnone (by simp [declaration?, hplace])]
      exact h
  | blank hblank =>
      obtain rfl : args = _ := hblank
      rw [hnone (by simp [declaration?])]
      exact h
  | resumes hplace =>
      rw [hnone (by simp [declaration?, hplace])]
      exact h
  | unsplittable => exact absurd hok (problems_report_ne_nil _ _)
  | inList hplace hwords =>
      obtain rfl : args = _ := hwords
      exact h.listStep hplace line
  | inBlock hplace hwords =>
      rw [hnone (by simp [declaration?, hplace])]
      exact h.blockStep (hvalues hwords) hok
  | inSites hplace =>
      rw [hnone (by simp [declaration?, hplace])]
      exact h.dynamicSiteStep hok
  | passedOver hplace =>
      rw [hnone (by simp [declaration?, hplace])]
      exact h.unreadableStep _ _ _

/-- **So do all lines of a text.** -/
theorem IsDeclaredBy.run {lines : List ArgumentLine}
    (hlines : ∀ l ∈ lines, ∀ args, l.args = .ok args → ∀ a ∈ args, P a) (h : r.IsDeclaredBy P ds)
    (hok : (lines.foldl (Reading.step lookup) r).problems = []) :
    (lines.foldl (Reading.step lookup) r).IsDeclaredBy P (ds ++ declarations lookup r lines) := by
  induction lines generalizing r ds with
  | nil =>
      rw [declarations, List.append_nil]
      exact h
  | cons l lines ih =>
      obtain ⟨hl, hlines⟩ := List.forall_mem_cons.1 hlines
      rw [List.foldl_cons] at hok ⊢
      have hstays : (r.step lookup l).problems <+:
          (lines.foldl (Reading.step lookup) (r.step lookup l)).problems :=
        problems_prefix_run lines _
      rw [hok, List.prefix_nil] at hstays
      rw [declarations, ← List.append_assoc]
      exact ih hlines (h.step hl hstays) hok

end Reading

/-! ## Whole texts -/

namespace Sequence

/-- **What the lines of a text declare**, one after the other. -/
def declarations (lookup : Lookup) (root : Sequence) (fresh : NodeId) (text : String) :
    List Declaration :=
  Reading.declarations lookup (.start root fresh) (argumentLines text)

/-- The words on a line of a text: its keyword and its arguments. -/
def IsArgument (text a : String) : Prop :=
  ∃ line ∈ linesOf text, ∃ args, tokenise line = .ok args ∧ a ∈ args

/-- **The nodes of a text that was read are those that its lines declared**, in their order, and refer
to others by names as they are spelled in the text. -/
theorem isDeclaredBy_ofText {lookup : Lookup} {level : Level} {fresh fresh' : NodeId} {text : String}
    {s : Sequence} (h : ofText lookup ⟨level, .nil⟩ fresh text = (.ok s, fresh')) :
    List.Forall₂ (Node.IsDeclaredBy (IsArgument text)) (declarations lookup ⟨level, .nil⟩ fresh text)
      s.nodes.nodes := by
  obtain ⟨hread, -⟩ := Prod.mk.inj h
  obtain ⟨u, hok, rfl⟩ := map_eq_ok_iff.1 hread
  obtain ⟨hfinish, hopen⟩ := Reading.finish_of_problems_eq_nil (readOutcome_eq_ok_iff.1 hok)
  rw [hfinish] at hok ⊢
  have hargs := args_of_mem_argumentLines (P := IsArgument text) fun line hline args hargs a ha =>
    ⟨line, hline, args, hargs, ha⟩
  have hstart : (Reading.start ⟨level, .nil⟩ fresh).IsDeclaredBy (IsArgument text) [] := .nil
  have hrun := hstart.run hargs (readOutcome_eq_ok_iff.1 hok)
  rw [List.nil_append] at hrun
  have hall : ∀ r : Reading, r.openNodes = [] → r.allNodes = r.root.nodes.nodes := fun r hr => by
    simp [Reading.allNodes, hr]
  rw [Reading.IsDeclaredBy, hall _ hopen] at hrun
  exact hrun

end Sequence

end SiteAnalysis
