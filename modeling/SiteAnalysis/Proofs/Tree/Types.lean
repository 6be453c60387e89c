import SiteAnalysis.Proofs.Tree.DocumentNames
import SiteAnalysis.Proofs.Tree.Linked

set_option autoImplicit false

/-! # Types and contexts in a tree

A tree that is placed has to be of types that may occur in the context of the list, and takes over
that context. Readers place all that they read, and look up the types of nodes in a registry; the
blocks of dynamic sites that a selection holds are no nodes, and nobody looks at their type. Main
statements:

* `Sequence.IsIn.append`, `Sequence.IsIn.appendToBranch`, `Sequence.IsIn.remove?`: a tree stays in its
  context.
* `Sequence.isIn_ofText`, `Sequence.isIn_ofJson`: so is what readers make in an empty root.
* `Sequence.isAdmitted_ofText`, `Sequence.isAdmitted_ofJson`: the types of nodes that were read.
-/

namespace SiteAnalysis

open Forest (single)

/-! ## Types -/

/-- The blocks of dynamic sites that a node holds; only selections hold any. -/
def Node.blocks (n : Node) : List DynamicSite :=
  match n.kind with
  | .select blocks _ => blocks
  | _ => []

namespace Forest

/-- **The types in a forest**, those of the blocks that selections hold among them. -/
def types (f : Forest) : List NodeType :=
  f.nodes.flatMap fun n => n.type :: n.blocks.map fun _ => .dynamicSite

/-- What holds of the types of all nodes holds of all types if it does of dynamic sites, or if there
are no blocks. -/
theorem forall_types_iff {f : Forest} {p : NodeType → Prop} (h : ∀ n ∈ f.nodes, p n.type) :
    (∀ t ∈ f.types, p t) ↔ p .dynamicSite ∨ ∀ n ∈ f.nodes, n.blocks = [] := by
  simp only [types, List.mem_flatMap, List.mem_cons, List.mem_map]
  constructor
  · intro hall
    refine Classical.or_iff_not_imp_left.2 fun hnot n hn => ?_
    rw [List.eq_nil_iff_forall_not_mem]
    exact fun d hd => hnot (hall _ ⟨n, hn, .inr ⟨d, hd, rfl⟩⟩)
  · rintro hcases t ⟨n, hn, rfl | ⟨d, hd, rfl⟩⟩
    · exact h n hn
    · refine hcases.resolve_right fun hnone => ?_
      rw [hnone n hn] at hd
      cases hd

/-- Whether a registry admits the types of all nodes. -/
def IsAdmitted (registry : Registry) (f : Forest) : Prop :=
  ∀ n ∈ f.nodes, registry.admits n.type = true

end Forest

/-! ## Contexts -/

/-- **A node in a context**: it may occur there, and its branch has that context. -/
structure Node.IsIn (c : Context) (n : Node) : Prop where
  relevant : n.type.isRelevantIn c = true
  branch : ∀ l ∈ n.branch, l.context = c

/-- **A tree in a context**, with all its nodes and lists. -/
structure Sequence.IsIn (c : Context) (s : Sequence) : Prop where
  outermost : s.level.context = c
  nodes : ∀ n ∈ s.nodes.nodes, n.IsIn c

/-- **All lists of nodes in a tree**: the outermost one and the branches. -/
def Sequence.levels (s : Sequence) : List Level := s.level :: s.nodes.nodes.filterMap Node.branch

theorem Sequence.IsIn.levels {c : Context} {s : Sequence} (h : s.IsIn c) :
    ∀ l ∈ s.levels, l.context = c := by
  refine List.forall_mem_cons.2 ⟨h.outermost, fun l hl => ?_⟩
  obtain ⟨n, hn, hbranch⟩ := List.mem_filterMap.1 hl
  exact (h.nodes n hn).branch l hbranch

namespace Forest

variable {f : Forest} {id : NodeId} {t : Subtree}

theorem nodes_subset_of_subtree? (h : f.subtree? id = some t) :
    (single t).nodes ⊆ f.nodes := by
  induction f with
  | nil => cases h
  | cons n branch rest ihb ihr =>
      rw [subtree?] at h
      rw [nodes]
      split at h
      · obtain rfl := Option.some.inj h
        rw [nodes_single]
        exact List.cons_subset_cons _ (List.subset_append_left _ _)
      · refine List.subset_cons_of_subset _ ?_
        split at h
        · next hbranch =>
            exact List.Subset.trans (ihb (hbranch.trans h)) (List.subset_append_left _ _)
        · exact List.Subset.trans (ihr h) (List.subset_append_right _ _)

/-- A node is replaced by those of a tree, wherever nodes of its identity stand. -/
theorem nodes_replace_subset (id : NodeId) (t : Subtree) (f : Forest) :
    (f.replace id t).nodes ⊆ (single t).nodes ++ f.nodes := by
  induction f with
  | nil => exact List.subset_append_right _ _
  | cons n branch rest ihb ihr =>
      have hrest : rest.nodes ⊆ (cons n branch rest).nodes := fun m hm => by simp [nodes, hm]
      have hbranch : branch.nodes ⊆ (cons n branch rest).nodes := fun m hm => by simp [nodes, hm]
      have hmono : ∀ {l : List Node}, l ⊆ (cons n branch rest).nodes →
          (single t).nodes ++ l ⊆ (single t).nodes ++ (cons n branch rest).nodes := fun h =>
        List.append_subset.2 ⟨List.subset_append_left _ _,
          List.Subset.trans h (List.subset_append_right _ _)⟩
      rw [replace]
      split
      · have heq : (cons t.node t.branch rest).nodes = (single t).nodes ++ rest.nodes := by
          simp [nodes]
        rw [heq]
        exact hmono hrest
      · rw [nodes, List.cons_subset, List.append_subset]
        refine ⟨List.mem_append_right _ (by simp [nodes]), ?_, ?_⟩
        · exact List.Subset.trans ihb (hmono hbranch)
        · exact List.Subset.trans ihr (hmono hrest)

end Forest

namespace Sequence

variable {s s' : Sequence} {t : Subtree} {index : Option Nat} {taken : List String} {naming : Bool}
  {c : Context} {registry : Registry}

/-- **Where a tree comes to stand** that is placed: at the index or behind all, with other names and
in the context of the list. -/
theorem exists_inserted (h : s.place t index taken naming = .ok s') :
    (∀ n ∈ (single t).nodes, n.type.isRelevantIn s.level.context = true) ∧
      s'.level.context = s.level.context ∧
      ∃ u f, Forest.Rel Node.IsPlaced (single t) f ∧ single u = f.setContext s.level.context ∧
        s'.nodes = inserted s.nodes u index := by
  obtain ⟨hplaced, -, hlevel, -⟩ := s.named_spec t taken naming
  unfold place at h
  rw [if_naming_eq] at h
  generalize s.named t taken naming = tree at hplaced hlevel h
  obtain ⟨f, level⟩ := tree
  split at h
  · cases h
  · next hrelevant =>
      split at h
      · cases h
      · -- One tree stays one tree.
        cases hplaced with
        | @cons _ m _ branch _ _ hnode hbranch hrest =>
            cases hrest
            obtain rfl := Except.ok.inj h
            have hcontext : level.context = s.level.context := by
              rw [show level = _ from hlevel]
            refine ⟨irrelevant?_eq_none_iff.1 hrelevant, hcontext,
              ⟨m.inContext s.level.context, branch.setContext s.level.context⟩, _,
              .cons hnode hbranch .nil, rfl, ?_⟩
            cases index <;> rfl

/-- What the types of all nodes have in common is kept when a tree with that is placed. -/
theorem forall_type_place {p : NodeType → Prop} (hs : ∀ n ∈ s.nodes.nodes, p n.type)
    (ht : ∀ n ∈ (single t).nodes, p n.type) (h : s.place t index taken naming = .ok s') :
    ∀ n ∈ s'.nodes.nodes, p n.type := by
  obtain ⟨-, -, u, f, hplaced, hu, hnodes⟩ := exists_inserted h
  have hf : ∀ n ∈ f.nodes, p n.type := hplaced.forall_nodes (p := fun n => p n.type)
    (fun hnm hn => by rw [hnm.type]; exact hn) ht
  intro n hn
  rw [hnodes, (inserted_perm s.nodes u index).mem_iff, hu, Forest.setContext, Forest.nodes_map] at hn
  rcases List.mem_append.1 hn with hn | hn
  · obtain ⟨m, hm, rfl⟩ := List.mem_map.1 hn
    exact hf m hm
  · exact hs n hn

/-- Nothing stands in an empty sequence. -/
theorem isIn_nil (level : Level) : IsIn level.context ⟨level, .nil⟩ :=
  ⟨rfl, fun n hn => by cases hn⟩

/-- **A tree that is placed takes over the context**, whatever it is like. -/
theorem IsIn.place (hs : s.IsIn c) (h : s.place t index taken naming = .ok s') : s'.IsIn c := by
  obtain ⟨hrelevant, hlevel, u, f, hplaced, hu, hnodes⟩ := exists_inserted h
  rw [hs.outermost] at hrelevant hlevel hu
  have htypes := forall_type_place (p := fun t => t.isRelevantIn c = true)
    (fun n hn => (hs.nodes n hn).relevant) hrelevant h
  refine ⟨hlevel, fun n hn => ⟨htypes n hn, ?_⟩⟩
  rw [hnodes, (inserted_perm s.nodes u index).mem_iff, hu, Forest.setContext, Forest.nodes_map] at hn
  rcases List.mem_append.1 hn with hn | hn
  · obtain ⟨m, -, rfl⟩ := List.mem_map.1 hn
    intro l hl
    obtain ⟨l', -, rfl⟩ := Option.map_eq_some_iff.1 hl
    rfl
  · exact (hs.nodes n hn).branch

theorem IsIn.append (hs : s.IsIn c) (h : s.append t index = .ok s') : s'.IsIn c := hs.place h

/-- The branch of a node in a context is a list in that context, and stays one. -/
theorem IsIn.appendToBranch {owner : NodeId} (hs : s.IsIn c)
    (h : s.appendToBranch owner t index = .ok s') : s'.IsIn c := by
  unfold Sequence.appendToBranch at h
  split at h
  · cases h
  · next parent hparent =>
      split at h
      · cases h
      · next level hlevel =>
          obtain ⟨inner, hplace, heq⟩ := bind_eq_ok_iff.1 h
          obtain rfl := Except.ok.inj heq
          have hsub := Forest.nodes_subset_of_subtree? hparent
          have hnode := hs.nodes parent.node (hsub (by simp))
          have hinner : inner.IsIn c := IsIn.place
            ⟨hnode.branch level hlevel, fun n hn => hs.nodes n (hsub (by simp [hn]))⟩ hplace
          refine ⟨hs.outermost, fun n hn => ?_⟩
          rcases List.mem_append.1 (Forest.nodes_replace_subset _ _ _ hn) with hn | hn
          · rw [Forest.nodes_single] at hn
            rcases List.mem_cons.1 hn with rfl | hn
            · exact ⟨hnode.relevant, fun l hl => Option.some.inj hl ▸ hinner.outermost⟩
            · exact hinner.nodes n hn
          · exact hs.nodes n hn

theorem IsIn.remove? {id : NodeId} {f : Forest} (hs : s.IsIn c)
    (h : s.nodes.remove? id = some (t, f)) : IsIn c { s with nodes := f } where
  outermost := hs.outermost
  nodes n hn := hs.nodes n ((Forest.remove?_perm h).mem_iff.2 (List.mem_append_right _ hn))

/-- Links that are brought up to date change neither types nor contexts. -/
theorem IsIn.link {g : Forest} (hs : s.IsIn c) (h : s.nodes.link = (g, .ok ())) :
    IsIn c { s with nodes := g } := by
  obtain ⟨rfl, -⟩ := Forest.link_eq_ok_iff.1 h
  refine ⟨hs.outermost, ?_⟩
  rw [Forest.nodes_map]
  exact List.forall_mem_map.2 fun n hn => ⟨(hs.nodes n hn).relevant, (hs.nodes n hn).branch⟩

end Sequence

theorem Forest.IsAdmitted.link {registry : Registry} {f g : Forest} (hf : f.IsAdmitted registry)
    (h : f.link = (g, .ok ())) : g.IsAdmitted registry := by
  obtain ⟨rfl, -⟩ := Forest.link_eq_ok_iff.1 h
  unfold IsAdmitted
  rw [Forest.nodes_map]
  exact List.forall_mem_map.2 hf

/-! ## Texts -/

namespace Reading

variable {lookup : Lookup} {r : Reading} {c : Context}

/-- **The root changes only when a tree is appended to it.** -/
theorem root_close (r : Reading) :
    r.close.root = r.root ∨ ∃ t, r.root.append t none = .ok r.close.root := by
  have hcloses := closesBlock_close r
  generalize r.close = r' at hcloses ⊢
  cases hcloses with
  | nothing => exact .inl rfl
  | refused => exact .inl rfl
  | outermost _ happend => exact .inr ⟨_, happend⟩
  | inside => exact .inl rfl

theorem isIn_root_step {l : ArgumentLine} (hl : ∀ e, l.args = .error e → e.IsLocal)
    (hroot : r.root.IsIn c) : (r.step lookup l).root.IsIn c := by
  rcases step_cases lookup r hl with ⟨hclose, -⟩ | hquiet
  · rw [hclose]
    rcases root_close r with heq | ⟨t, happend⟩
    · rw [heq]
      exact hroot
    · exact hroot.append happend
  · rw [hquiet.root]
    exact hroot

theorem isIn_root_run {lines : List ArgumentLine}
    (hlines : ∀ l ∈ lines, ∀ e, l.args = .error e → e.IsLocal) (hroot : r.root.IsIn c) :
    (lines.foldl (step lookup) r).root.IsIn c := by
  induction lines generalizing r with
  | nil => exact hroot
  | cons l lines ih =>
      obtain ⟨hl, hlines⟩ := List.forall_mem_cons.1 hlines
      exact ih hlines (isIn_root_step hl hroot)

end Reading

namespace Sequence

variable {lookup : Lookup} {s : Sequence} {level : Level} {fresh fresh' : NodeId}

/-- **A text is read into the context of the root.** -/
theorem isIn_ofText {text : String}
    (h : ofText lookup ⟨level, .nil⟩ fresh text = (.ok s, fresh')) : s.IsIn level.context := by
  obtain ⟨hread, -⟩ := Prod.mk.inj h
  obtain ⟨u, hok, rfl⟩ := map_eq_ok_iff.1 hread
  rw [(Reading.finish_of_problems_eq_nil (readOutcome_eq_ok_iff.1 hok)).1]
  exact Reading.isIn_root_run (isLocal_argumentLines text) (isIn_nil level)

/-- **The registry admits all nodes that a text makes.** -/
theorem isAdmitted_ofText {text : String}
    (h : ofText lookup ⟨level, .nil⟩ fresh text = (.ok s, fresh')) :
    s.nodes.IsAdmitted lookup.registry := fun n hn =>
  ((ofText_isRead isTextClass_true (fun _ _ _ _ _ _ => trivial) h).forest.nodes n hn).admitted

end Sequence

/-! ## Documents -/

namespace DocumentReading

variable {lookup : Lookup} {c : Context}

theorem isIn_placeNode {s : Sequence} (r : DocumentReading) (t : Subtree) (hs : s.IsIn c) :
    (r.placeNode s t).1.IsIn c := by
  have hplaced : ∀ s', (if s.level.owner.isSome then s.adopt t else s.append t none) = .ok s' →
      s'.IsIn c := fun s' h => by
    split at h
    · exact hs.place h
    · exact hs.append h
  unfold placeNode
  dsimp only
  split
  · next s' heq => exact hplaced s' heq
  · exact hs

theorem isIn_readItems {s : Sequence} (r : DocumentReading) (hs : s.IsIn c) (items : List Json) :
    (readItems lookup s r items).1.IsIn c := by
  induction items generalizing s r with
  | nil => exact hs
  | cons j items ih =>
      refine ih _ ?_
      have hread : IsRead lookup s r j := isRead s r j
      rcases hread with ⟨e, -, -, heq⟩ | ⟨t, r', heq, -⟩
      · rw [heq]
        exact hs
      · rw [heq]
        exact isIn_placeNode r' t hs

theorem isAdmitted_placeNode {s : Sequence} {registry : Registry} (r : DocumentReading) {t : Subtree}
    (hs : s.nodes.IsAdmitted registry) (ht : (single t).IsAdmitted registry) :
    (r.placeNode s t).1.nodes.IsAdmitted registry := by
  have hplaced : ∀ s', (if s.level.owner.isSome then s.adopt t else s.append t none) = .ok s' →
      s'.nodes.IsAdmitted registry := fun s' h => by
    split at h <;>
      exact Sequence.forall_type_place (p := fun t => registry.admits t = true) hs ht h
  unfold placeNode
  dsimp only
  split
  · next s' heq => exact hplaced s' heq
  · exact hs

theorem type_freshNode (r : DocumentReading) (type : NodeType) (name : Option String) :
    (r.freshNode type name).1.type = type := by
  cases name with
  | none => exact NodeKind.type_ofType type
  | some name => exact (Node.type_rename _ name).trans (NodeKind.type_ofType type)

mutual

/-- **The registry admits every node that a document makes.** -/
theorem isAdmitted_readNode (lookup : Lookup) (s : Sequence) (r : DocumentReading)
    (hs : s.nodes.IsAdmitted lookup.registry) :
    (j : Json) → (readNode lookup s r j).1.nodes.IsAdmitted lookup.registry
  | .object members => by
      rw [readNode]
      split
      · exact hs
      · split
        · exact hs
        · next type htype =>
            have hfresh : ∀ name, lookup.registry.admits (r.freshNode type name).1.type = true :=
              fun name => by rw [type_freshNode]; exact Registry.admits_of_typeOf htype
            refine isAdmitted_placeNode _ hs (isAdmitted_readMembers lookup
              ⟨(r.freshNode type ((members.lookup "name").bind Json.text?)).1, .nil⟩ _ ?_ members)
            rw [Forest.IsAdmitted, Forest.nodes_single, List.forall_mem_cons]
            exact ⟨hfresh _, fun n hn => by cases hn⟩
  | .null | .bool _ | .int _ | .float _ | .text _ | .array _ => by
      rw [readNode]
      · exact hs
      · exact fun _ => nofun

theorem isAdmitted_readMembers (lookup : Lookup) (t : Subtree) (r : DocumentReading)
    (ht : (single t).IsAdmitted lookup.registry) :
    (members : List (String × Json)) →
      (single (readMembers lookup t r members).1).IsAdmitted lookup.registry
  | [] => ht
  | (key, j) :: rest => by
      rw [Forest.IsAdmitted, Forest.nodes_single, List.forall_mem_cons] at ht
      rw [readMembers]
      split
      · exact isAdmitted_readMembers lookup t r (by simpa [Forest.IsAdmitted] using ht) rest
      · split
        · next level _ =>
            have hlist := isAdmitted_readList lookup ⟨level, t.branch⟩ r ht.2 j
            refine isAdmitted_readMembers lookup ⟨_, _⟩ _ ?_ rest
            rw [Forest.IsAdmitted, Forest.nodes_single, List.forall_mem_cons]
            exact ⟨ht.1, hlist⟩
        · have hkeeps := (gathers_readEntry lookup t.node key j [] r).1
          have hnode : lookup.registry.admits (r.readEntry lookup t.node key j).1.type = true := by
            rw [hkeeps.type]
            exact ht.1
          refine isAdmitted_readMembers lookup
            { t with node := (r.readEntry lookup t.node key j).1 } _ ?_ rest
          rw [Forest.IsAdmitted, Forest.nodes_single, List.forall_mem_cons]
          exact ⟨hnode, ht.2⟩

theorem isAdmitted_readList (lookup : Lookup) (s : Sequence) (r : DocumentReading)
    (hs : s.nodes.IsAdmitted lookup.registry) :
    (j : Json) → (readList lookup s r j).1.nodes.IsAdmitted lookup.registry
  | .array items => isAdmitted_readItems lookup s r hs items
  | .null | .bool _ | .int _ | .float _ | .text _ | .object _ => hs

theorem isAdmitted_readItems (lookup : Lookup) (s : Sequence) (r : DocumentReading)
    (hs : s.nodes.IsAdmitted lookup.registry) :
    (items : List Json) → (readItems lookup s r items).1.nodes.IsAdmitted lookup.registry
  | [] => hs
  | j :: rest => isAdmitted_readItems lookup (readNode lookup s r j).1 (readNode lookup s r j).2
      (isAdmitted_readNode lookup s r hs j) rest

end

end DocumentReading

namespace Sequence

variable {lookup : Lookup} {s : Sequence} {level : Level} {fresh fresh' : NodeId} {j : Json}

/-- What a document without problems gives. -/
theorem exists_items_of_ofJson {root : Sequence} (h : ofJson lookup root fresh j = (.ok s, fresh')) :
    ∃ items, s = (DocumentReading.readItems lookup root ⟨fresh, []⟩ items).1 := by
  rcases ofJson_cases lookup root fresh j with ⟨-, e, heq, -⟩ | heq
  · rw [h] at heq
    cases heq
  · rw [h] at heq
    obtain ⟨u, -, hs⟩ := map_eq_ok_iff.1 heq.symm
    exact ⟨j.items, hs.symm⟩

/-- **A document is read into the context of the root.** -/
theorem isIn_ofJson (h : ofJson lookup ⟨level, .nil⟩ fresh j = (.ok s, fresh')) :
    s.IsIn level.context := by
  obtain ⟨items, rfl⟩ := exists_items_of_ofJson h
  exact DocumentReading.isIn_readItems _ (isIn_nil level) items

/-- **The registry admits all nodes that a document makes.** -/
theorem isAdmitted_ofJson (h : ofJson lookup ⟨level, .nil⟩ fresh j = (.ok s, fresh')) :
    s.nodes.IsAdmitted lookup.registry := by
  obtain ⟨items, rfl⟩ := exists_items_of_ofJson h
  have hnone : Forest.IsAdmitted lookup.registry .nil := fun n hn => by cases hn
  exact DocumentReading.isAdmitted_readItems lookup _ _ hnone items

end Sequence

end SiteAnalysis
