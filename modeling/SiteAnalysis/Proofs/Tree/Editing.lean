import Mathlib.Data.List.Perm.Basic
import SiteAnalysis.Proofs.Tree.Generated

set_option autoImplicit false

/-! # Calls that change a tree

What it does to the nodes of a tree when another tree is appended to one of its lists, or when a node
is taken out. The order of nodes plays no part here. Main statements:

* `Forest.remove?_perm`, `Forest.replace_perm`: what is taken out or replaced, and what stays.
* `Sequence.call_spec`: a tree that was appended anywhere leaves names distinct; a name that was
  generated has a number above the counter of its list.
-/

namespace SiteAnalysis

/-! ## Taking apart -/

namespace Forest

variable {f f' : Forest} {id : NodeId} {t u : Subtree}

theorem insertAt_perm (t : Subtree) (i : Nat) (f : Forest) :
    (f.insertAt t i).nodes.Perm ((single t).nodes ++ f.nodes) := by
  induction f generalizing i with
  | nil => cases i <;> simp [insertAt, nodes]
  | cons n branch rest _ ih =>
      cases i with
      | zero => simp [insertAt, nodes]
      | succ i =>
          have happend := (ih i).append_left (n :: branch.nodes)
          refine happend.trans ?_
          simp only [nodes]
          exact List.perm_append_comm_assoc (n :: branch.nodes) _ _

/-- **The node that is taken out** with its branch, and the nodes that stay. -/
theorem remove?_perm (h : f.remove? id = some (t, f')) :
    f.nodes.Perm ((single t).nodes ++ f'.nodes) := by
  induction f generalizing f' with
  | nil => cases h
  | cons n branch rest ihb ihr =>
      rw [remove?] at h
      split at h
      · obtain ⟨rfl, rfl⟩ := Prod.mk.inj (Option.some.inj h)
        simp [nodes]
      · split at h
        · next t' branch' hbranch =>
            obtain ⟨rfl, rfl⟩ := Prod.mk.inj (Option.some.inj h)
            have hperm := (ihb hbranch).append_right rest.nodes
            rw [List.append_assoc] at hperm
            exact (hperm.cons n).trans List.perm_middle.symm
        · rw [Option.map_eq_some_iff] at h
          obtain ⟨⟨t', rest'⟩, hrest, heq⟩ := h
          obtain ⟨rfl, rfl⟩ := Prod.mk.inj heq
          have hperm := (ihr hrest).append_left (n :: branch.nodes)
          exact hperm.trans (List.perm_append_comm_assoc (n :: branch.nodes) _ _)

theorem id_of_subtree? (h : f.subtree? id = some t) : t.node.id = id := by
  induction f with
  | nil => cases h
  | cons n branch rest ihb ihr =>
      rw [subtree?] at h
      split at h
      · next hid => exact Option.some.inj h ▸ hid
      · split at h
        · next hbranch => exact ihb (hbranch.trans h)
        · exact ihr h

theorem mem_of_subtree? (h : f.subtree? id = some t) : t.node ∈ f.nodes := by
  induction f with
  | nil => cases h
  | cons n branch rest ihb ihr =>
      rw [nodes]
      rw [subtree?] at h
      split at h
      · exact Option.some.inj h ▸ List.mem_cons_self
      · split at h
        · next hbranch =>
            exact List.mem_cons_of_mem _ (List.mem_append_left _ (ihb (hbranch.trans h)))
        · exact List.mem_cons_of_mem _ (List.mem_append_right _ (ihr h))

/-- Nothing is replaced where no node has the identity. -/
theorem replace_of_not_mem (h : id ∉ f.nodes.map Node.id) (u : Subtree) : f.replace id u = f := by
  induction f with
  | nil => rfl
  | cons n branch rest ihb ihr =>
      simp only [nodes, List.map_cons, List.map_append, List.mem_cons, List.mem_append,
        not_or] at h
      rw [replace, if_neg (Ne.symm h.1), ihb h.2.1, ihr h.2.2]

/-- **The node that is replaced** with its branch, and the nodes that stay. -/
theorem replace_perm (hids : (f.nodes.map Node.id).Nodup) (h : f.subtree? id = some t) :
    ∃ others, f.nodes.Perm ((single t).nodes ++ others) ∧
      ∀ u, (f.replace id u).nodes.Perm ((single u).nodes ++ others) := by
  induction f with
  | nil => cases h
  | cons n branch rest ihb ihr =>
      obtain ⟨⟨hbranch, hrest⟩, hbranchIds, hrestIds, hapart⟩ := nodup_ids_cons hids
      rw [subtree?] at h
      split at h
      · next hid =>
          obtain rfl := Option.some.inj h
          refine ⟨rest.nodes, by simp [nodes], fun u => ?_⟩
          rw [replace, if_pos hid]
          simp [nodes]
      · next hid =>
          split at h
          -- Where identities are distinct, what is replaced stands in one of the two parts.
          · next t' hfound =>
              obtain rfl := Option.some.inj h
              obtain ⟨others, hperm, hreplace⟩ := ihb hbranchIds hfound
              have hmem : id ∈ branch.nodes.map Node.id :=
                id_of_subtree? hfound ▸ List.mem_map_of_mem (mem_of_subtree? hfound)
              have hstays : ∀ u, rest.replace id u = rest := replace_of_not_mem (hapart id hmem)
              have hmove : ∀ front : List Node, (n :: ((front ++ others) ++ rest.nodes)).Perm
                  (front ++ (n :: (others ++ rest.nodes))) := fun front => by
                rw [List.append_assoc]
                exact List.perm_middle.symm
              refine ⟨n :: (others ++ rest.nodes), ?_, fun u => ?_⟩
              · exact ((hperm.append_right _).cons n).trans (hmove _)
              · rw [replace, if_neg hid, hstays, nodes]
                exact (((hreplace u).append_right _).cons n).trans (hmove _)
          · obtain ⟨others, hperm, hreplace⟩ := ihr hrestIds h
            have hmem : id ∈ rest.nodes.map Node.id :=
              id_of_subtree? h ▸ List.mem_map_of_mem (mem_of_subtree? h)
            have hstays : ∀ u, branch.replace id u = branch :=
              replace_of_not_mem fun hin => hapart id hin hmem
            have hmove : ∀ front : List Node, ((n :: branch.nodes) ++ (front ++ others)).Perm
                (front ++ ((n :: branch.nodes) ++ others)) := fun front =>
              List.perm_append_comm_assoc _ _ _
            refine ⟨(n :: branch.nodes) ++ others, ?_, fun u => ?_⟩
            · exact (hperm.append_left (n :: branch.nodes)).trans (hmove _)
            · rw [replace, if_neg hid, hstays, nodes]
              exact ((hreplace u).append_left (n :: branch.nodes)).trans (hmove _)

/-! ## Names -/

/-- **A forest with distinct names**, in which no name is missing. -/
structure IsNamed (f : Forest) : Prop where
  distinct : f.names.Nodup
  named : ∀ n ∈ f.nodes, n.lacksName = false

theorem isNamed_nil : nil.IsNamed := ⟨List.nodup_nil, by simp [nodes]⟩

/-- The names of some nodes, in lower case. -/
def namesOf (ns : List Node) : List String :=
  (ns.filter fun n => !n.name.isEmpty).map fun n => foldCase n.name

theorem namesOf_cons (n : Node) (ns : List Node) : namesOf (n :: ns) =
    (if n.name.isEmpty then [] else [foldCase n.name]) ++ namesOf ns := by
  rw [namesOf, List.filter_cons]
  cases n.name.isEmpty <;> rfl

theorem namesOf_append (ns ms : List Node) : namesOf (ns ++ ms) = namesOf ns ++ namesOf ms := by
  simp [namesOf]

theorem namesOf_perm {ns ms : List Node} (h : ns.Perm ms) : (namesOf ns).Perm (namesOf ms) :=
  (h.filter _).map _

theorem namesOf_map {change : Node → Node} (h : ∀ n, (change n).name = n.name) (ns : List Node) :
    namesOf (ns.map change) = namesOf ns := by
  simp [namesOf, List.filter_map, Function.comp_def, h]

/-- Where a node is taken out, the names that stay are distinct. -/
theorem IsNamed.of_perm (hf : f.IsNamed) (h : f.nodes.Perm ((single t).nodes ++ f'.nodes)) :
    f'.IsNamed ∧ t.branch.IsNamed := by
  have hnames : f.names.Perm ((single t).names ++ f'.names) := by
    have hperm := namesOf_perm h
    rwa [namesOf_append] at hperm
  have hnodup := (hnames.nodup_iff.1 hf.distinct)
  rw [names_single] at hnodup
  refine ⟨⟨hnodup.of_append_right, fun n hn => hf.named n ?_⟩,
    ⟨hnodup.of_append_left.of_append_right, fun n hn => hf.named n ?_⟩⟩
  · exact h.mem_iff.2 (List.mem_append_right _ hn)
  · exact h.mem_iff.2 (List.mem_append_left _ (by simp [hn]))

end Forest

/-! ## Levels -/

/-- Whether no counter of a list has gone back. -/
def Level.GrowsTo (l l' : Level) : Prop := ∀ t, l.counter t ≤ l'.counter t

theorem Level.GrowsTo.refl (l : Level) : l.GrowsTo l := fun _ => Nat.le_refl _

theorem Level.growsTo_setCounter {l : Level} {t : NodeType} {n : Nat} (h : l.counter t ≤ n) :
    l.GrowsTo (l.setCounter t n) := fun u => by
  rw [Level.counter_setCounter]
  split
  · next heq => exact heq ▸ h
  · exact Nat.le_refl _

/-- The list in the branch of a node, known by the node, and its level. -/
def Node.list? (n : Node) : Option (Option NodeId × Level) := n.branch.map fun l => (some n.id, l)

/-- **Whether lists come from earlier ones**, and no counter has gone back. -/
def Carries (before after : List (Option NodeId × Level)) : Prop :=
  ∀ e ∈ after, ∃ l, (e.1, l) ∈ before ∧ l.GrowsTo e.2

namespace Carries

variable {before after before' after' : List (Option NodeId × Level)}

theorem of_subset (h : after ⊆ before) : Carries before after :=
  fun e he => ⟨e.2, h he, .refl e.2⟩

theorem append (h : Carries before after) (h' : Carries before' after') :
    Carries (before ++ before') (after ++ after') := by
  intro e he
  rcases List.mem_append.1 he with he | he
  · obtain ⟨l, hl, hgrows⟩ := h e he
    exact ⟨l, List.mem_append_left _ hl, hgrows⟩
  · obtain ⟨l, hl, hgrows⟩ := h' e he
    exact ⟨l, List.mem_append_right _ hl, hgrows⟩

theorem mono (h : Carries before after) (hbefore : before ⊆ before') (hafter : after' ⊆ after) :
    Carries before' after' := by
  intro e he
  obtain ⟨l, hl, hgrows⟩ := h e (hafter he)
  exact ⟨l, hbefore hl, hgrows⟩

end Carries

/-! ## Placing a tree -/

/-- The node in a context. -/
def Node.inContext (c : Context) (n : Node) : Node :=
  { n with branch := n.branch.map fun l => { l with context := c } }

theorem Node.list?_inContext (c : Context) (n : Node) :
    (n.inContext c).list? = n.list?.map fun e => (e.1, { e.2 with context := c }) := by
  simp only [list?, inContext, Option.map_map]
  rfl

theorem Forest.carries_setContext (c : Context) (ns : List Node) :
    Carries (ns.filterMap Node.list?) ((ns.map (Node.inContext c)).filterMap Node.list?) := by
  intro e he
  obtain ⟨m, hm, hlist⟩ := List.mem_filterMap.1 he
  obtain ⟨n, hn, rfl⟩ := List.mem_map.1 hm
  rw [Node.list?_inContext, Option.map_eq_some_iff] at hlist
  obtain ⟨⟨o, l⟩, hl, rfl⟩ := hlist
  exact ⟨l, List.mem_filterMap.2 ⟨n, hn, hl⟩, fun _ => Nat.le_refl _⟩

/-- **The name of a node that is placed in a list**: its own, or a new one of a number above the
counter, which the counter has caught up with. -/
def Level.Names (level level' : Level) (n m : Node) : Prop :=
  (n.lacksName = false ∧ m.name = n.name ∧ level' = level) ∨
  (n.lacksName = true ∧ ∃ number, level.counter n.type < number ∧
    m.name = generatedName n.type number ∧ level' = level.setCounter n.type number)

theorem Level.Names.growsTo {level level' : Level} {n m : Node} (h : level.Names level' n m) :
    level.GrowsTo level' := by
  rcases h with ⟨-, -, rfl⟩ | ⟨-, number, hnumber, -, rfl⟩
  · exact .refl level'
  · exact growsTo_setCounter (Nat.le_of_lt hnumber)

namespace Sequence

open Forest (single)

variable {s s' : Sequence} {t : Subtree} {taken : List String} {index : Option Nat}

/-- Nothing but the node itself is named where its branch has been named. -/
theorem named_of_branch (hbranch : ∀ n ∈ t.branch.nodes, n.lacksName = false) :
    s.named t taken true =
      (single ⟨(s.level.named (taken ++ t.branch.names) t.node).1, t.branch⟩,
        (s.level.named (taken ++ t.branch.names) t.node).2.1) := by
  rw [named, if_pos rfl, single, Forest.nameAll_cons]
  generalize s.level.named (taken ++ t.branch.names) t.node = named
  obtain ⟨m, level, reserved⟩ := named
  dsimp only
  split
  · rfl
  · next inner hinner =>
      rw [Forest.nameAll_of_named hbranch]
      dsimp only [Forest.nameAll]
      rw [← hinner]
      rfl

/-- The node that a node becomes in a list whose names are reserved. -/
theorem named_node_spec (level : Level) (reserved : List String) (n : Node) :
    let named := level.named reserved n
    level.Names named.2.1 n named.1 ∧ named.1.id = n.id ∧ named.1.type = n.type ∧
      named.1.list? = n.list? ∧ named.1.lacksName = false ∧
      (n.lacksName = true → foldCase named.1.name ∉ reserved) := by
  intro named
  obtain ⟨number, hnumber, hnext, hfree⟩ := level.nextName_spec n.type reserved
  by_cases hlacks : n.lacksName = true
  · have hnamed : named = (n.rename (generatedName n.type number),
        level.setCounter n.type number, foldCase (generatedName n.type number) :: reserved) := by
      simp only [named, Level.named, if_pos hlacks, hnext]
    have hname : (n.rename (generatedName n.type number)).name = generatedName n.type number :=
      niceName_generatedName n.type number
    rw [hnamed]
    refine ⟨.inr ⟨hlacks, number, hnumber, hname, rfl⟩, ?_, n.type_rename _, ?_, ?_, fun _ => ?_⟩
    · simp only [Node.rename]
    · simp only [Node.list?, Node.rename]
    · dsimp only
      rw [Node.lacksName, hname]
      simp [generatedName_ne]
    · dsimp only
      rw [hname]
      exact hfree
  · have hnamed : named = (n, level, reserved) := if_neg hlacks
    rw [hnamed]
    exact ⟨.inl ⟨by simpa using hlacks, rfl, rfl⟩, rfl, rfl, rfl, by simpa using hlacks,
      fun h => absurd h hlacks⟩

/-- Puts a tree in front of the root of an index, or behind all. -/
def inserted (f : Forest) (t : Subtree) : Option Nat → Forest
  | some i => f.insertAt t i
  | none => f.append (single t)

theorem inserted_perm (f : Forest) (t : Subtree) (index : Option Nat) :
    (inserted f t index).nodes.Perm ((single t).nodes ++ f.nodes) := by
  cases index with
  | none =>
      rw [inserted, Forest.nodes_append]
      exact List.perm_append_comm
  | some i => exact Forest.insertAt_perm t i f

/-- **What it does to place a tree** whose branch has been named. -/
theorem place_spec (hbranch : t.branch.IsNamed) (htaken : taken.Nodup)
    (h : s.place t index taken true = .ok s') :
    ∃ m : Node, s.level.Names s'.level t.node m ∧ m.id = t.node.id ∧ m.type = t.node.type ∧
      m.list? = t.node.list? ∧ m.lacksName = false ∧
      (taken ++ (single ⟨m, t.branch⟩).names).Nodup ∧
      s'.nodes.nodes.Perm
        ((m :: t.branch.nodes).map (Node.inContext s.level.context) ++ s.nodes.nodes) := by
  obtain ⟨hnames, hid, htype, hlist, hlacks, hfree⟩ :=
    named_node_spec s.level (taken ++ t.branch.names) t.node
  have hnamed : s.named t taken true =
      (single ⟨(s.level.named (taken ++ t.branch.names) t.node).1, t.branch⟩,
        (s.level.named (taken ++ t.branch.names) t.node).2.1) := named_of_branch hbranch.named
  rw [named, if_pos rfl] at hnamed
  unfold place at h
  rw [if_pos rfl] at h
  generalize s.level.named (taken ++ t.branch.names) t.node = placed at *
  generalize (single t).nameAll s.level (taken ++ t.branch.names) = all at *
  obtain ⟨m, level, reserved⟩ := placed
  obtain ⟨tree, level', reserved'⟩ := all
  dsimp only at hnamed
  obtain ⟨rfl, rfl⟩ := Prod.mk.inj hnamed
  split at h
  · cases h
  · split at h
    · cases h
    · next hclash =>
        obtain rfl := Except.ok.inj h
        refine ⟨m, hnames, hid, htype, hlist, hlacks, ?_, ?_⟩
        · have hapart := (clash?_eq_none_iff htaken hbranch.distinct).1 hclash
          rw [Forest.names_single] at hapart ⊢
          rcases hnames with ⟨-, hname, -⟩ | ⟨hlacksName, -⟩
          · rw [show (Subtree.mk m t.branch).node.name = t.node.name from hname]
            exact hapart
          · -- the new name is none of those that were reserved
            have hempty : t.node.name.isEmpty = true := by
              simp only [Node.lacksName, Bool.and_eq_true] at hlacksName
              exact hlacksName.1
            rw [if_pos hempty, List.nil_append] at hapart
            have hcons : (foldCase m.name :: (taken ++ t.branch.names)).Nodup :=
              List.nodup_cons.2 ⟨hfree hlacksName, hapart⟩
            split
            · exact hapart
            · exact (List.perm_middle.nodup_iff).2 hcons
        · have hcontext : ((single ⟨m, t.branch⟩).setContext s.level.context).nodes =
              (m :: t.branch.nodes).map (Node.inContext s.level.context) := by
            rw [Forest.setContext, Forest.nodes_map, Forest.nodes_single]
            rfl
          rw [← hcontext]
          exact inserted_perm s.nodes _ index

/-- All lists of a tree, the outermost under a key of its own. -/
def lists (own : Option NodeId) (s : Sequence) : List (Option NodeId × Level) :=
  (own, s.level) :: s.nodes.nodes.filterMap Node.list?

/-- **Appends a tree** to the outermost list or to the branch of a node. -/
def call (s : Sequence) (owner : Option NodeId) (t : Subtree) (index : Option Nat) :
    Except Error Sequence :=
  match owner with
  | none => s.append t index
  | some owner => s.appendToBranch owner t index

/-- **What is left of a call** that appended a tree. -/
structure Appended (s : Sequence) (owner : Option NodeId) (t : Subtree) (s' : Sequence) :
    Prop where
  named : s'.nodes.IsNamed
  ids : (s'.nodes.nodes.map Node.id).Perm
    ((single t).nodes.map Node.id ++ s.nodes.nodes.map Node.id)
  carries (own : Option NodeId) :
    Carries ((single t).nodes.filterMap Node.list? ++ s.lists own) (s'.lists own)
  node : ∃ m ∈ s'.nodes.nodes, m.id = t.node.id ∧ m.lacksName = false ∧ m.type = t.node.type ∧
    ∀ own, ∃ level level', (owner.or own, level) ∈ s.lists own ∧
      (owner.or own, level') ∈ s'.lists own ∧ level.Names level' t.node m
  branch : ∀ n ∈ t.branch.nodes, ∃ m ∈ s'.nodes.nodes, m.id = n.id ∧ m.name = n.name

/-- A tree was appended if its nodes stand beside the others, one list of which has another
level. -/
theorem Appended.of_perm {owner : Option NodeId} {m : Node} {c : Context} {rest rest' : List Node}
    (hs : s.nodes.IsNamed) (ht : t.branch.IsNamed) (hid : m.id = t.node.id)
    (htype : m.type = t.node.type) (hlist : m.list? = t.node.list?) (hlacks : m.lacksName = false)
    (hnames : (s.nodes.names ++ (single ⟨m, t.branch⟩).names).Nodup)
    (hbefore : s.nodes.nodes.Perm rest)
    (hafter : s'.nodes.nodes.Perm ((m :: t.branch.nodes).map (Node.inContext c) ++ rest'))
    (hrestIds : rest'.map Node.id = rest.map Node.id)
    (hrestNames : Forest.namesOf rest' = Forest.namesOf rest)
    (hrestLacks : ∀ n' ∈ rest', ∃ n ∈ rest, n'.lacksName = n.lacksName)
    (hlists : ∀ own, Carries ((own, s.level) :: rest.filterMap Node.list?)
      ((own, s'.level) :: rest'.filterMap Node.list?))
    (hlevels : ∀ own, ∃ level level', (owner.or own, level) ∈ s.lists own ∧
      (owner.or own, level') ∈ s'.lists own ∧ level.Names level' t.node m) :
    s.Appended owner t s' where
  named := by
    -- The names of the tree have come to the others.
    have hperm : s'.nodes.names.Perm ((single ⟨m, t.branch⟩).names ++ s.nodes.names) := by
      have hs' := Forest.namesOf_perm hafter
      have hcontext : Forest.namesOf ((m :: t.branch.nodes).map (Node.inContext c)) =
          Forest.namesOf (m :: t.branch.nodes) := Forest.namesOf_map (fun n => (rfl : (n.inContext c).name = n.name)) _
      rw [Forest.namesOf_append, hcontext, hrestNames] at hs'
      have hsingle : (single ⟨m, t.branch⟩).names = Forest.namesOf (m :: t.branch.nodes) := by
        rw [Forest.names_eq, Forest.nodes_single]
        rfl
      rw [hsingle]
      exact hs'.trans ((Forest.namesOf_perm hbefore).symm.append_left _)
    refine ⟨hperm.nodup_iff.2 (List.nodup_append_comm.1 hnames), fun n hn => ?_⟩
    rcases List.mem_append.1 (hafter.mem_iff.1 hn) with hn | hn
    · obtain ⟨k, hk, rfl⟩ := List.mem_map.1 hn
      rcases List.mem_cons.1 hk with rfl | hk
      · exact hlacks
      · exact ht.named k hk
    · obtain ⟨n', hn', heq⟩ := hrestLacks n hn
      rw [heq]
      exact hs.named n' (hbefore.mem_iff.2 hn')
  ids := by
    have hids := hafter.map Node.id
    rw [List.map_append, List.map_map, hrestIds] at hids
    have hsame : (m :: t.branch.nodes).map (Node.id ∘ Node.inContext c) =
        (single t).nodes.map Node.id := by
      rw [Forest.nodes_single, List.map_cons, List.map_cons]
      exact congrArg (· :: t.branch.nodes.map Node.id) hid
    rw [hsame] at hids
    exact hids.trans ((hbefore.map Node.id).symm.append_left _)
  carries own := by
    have hbranch := Forest.carries_setContext c (m :: t.branch.nodes)
    have hsame : (m :: t.branch.nodes).filterMap Node.list? =
        (single t).nodes.filterMap Node.list? := by
      rw [Forest.nodes_single, List.filterMap_cons, List.filterMap_cons, hlist]
    rw [hsame] at hbranch
    refine (hbranch.append (hlists own)).mono ?_ ?_
    · apply List.append_subset.2 ⟨List.subset_append_left _ _, ?_⟩
      refine (List.Subset.trans ?_ (List.subset_append_right _ _))
      exact (((hbefore.filterMap Node.list?).cons (own, s.level)).symm).subset
    · have hs' := ((hafter.filterMap Node.list?).cons (own, s'.level))
      rw [List.filterMap_append] at hs'
      exact (hs'.trans List.perm_middle.symm).subset
  node := by
    refine ⟨m.inContext c, hafter.mem_iff.2 ?_, hid, hlacks, htype, hlevels⟩
    exact List.mem_append_left _ (List.mem_map_of_mem List.mem_cons_self)
  branch := fun n hn => by
    refine ⟨n.inContext c, hafter.mem_iff.2 ?_, rfl, rfl⟩
    exact List.mem_append_left _ (List.mem_map_of_mem (List.mem_cons_of_mem _ hn))

theorem append_spec (hs : s.nodes.IsNamed) (ht : t.branch.IsNamed)
    (h : s.append t index = .ok s') : s.Appended none t s' := by
  obtain ⟨m, hnames, hid, htype, hlist, hlacks, hnodup, hperm⟩ := place_spec ht hs.distinct h
  refine .of_perm hs ht hid htype hlist hlacks hnodup (.refl _) hperm rfl rfl
    (fun n hn => ⟨n, hn, rfl⟩) (fun own e he => ?_)
    fun own => ⟨s.level, s'.level, List.mem_cons_self, List.mem_cons_self, hnames⟩
  rcases List.mem_cons.1 he with rfl | he
  · exact ⟨s.level, List.mem_cons_self, hnames.growsTo⟩
  · exact ⟨e.2, List.mem_cons_of_mem _ he, .refl e.2⟩

theorem appendToBranch_spec {owner : NodeId} (hids : (s.nodes.nodes.map Node.id).Nodup)
    (hs : s.nodes.IsNamed) (ht : t.branch.IsNamed)
    (h : s.appendToBranch owner t index = .ok s') : s.Appended (some owner) t s' := by
  unfold appendToBranch at h
  split at h
  · cases h
  · next parent hparent =>
      split at h
      · cases h
      · next level hlevel =>
          cases hplace : place ⟨level, parent.branch⟩ t index s.nodes.names true with
          | error e => rw [hplace] at h; cases h
          | ok inner =>
              rw [hplace] at h
              obtain rfl := Except.ok.inj h
              obtain ⟨m, hnames, hid, htype, hlist, hlacks, hnodup, hperm⟩ :=
                place_spec ht hs.distinct hplace
              obtain ⟨others, hbefore, hreplace⟩ := Forest.replace_perm hids hparent
              simp only [Forest.nodes_single, List.cons_append] at hbefore hreplace
              have howner : parent.node.id = owner := Forest.id_of_subtree? hparent
              -- the owner is the only other node that changes
              let owner' : Node := { parent.node with branch := some inner.level }
              have hlist' : owner'.list? = some (some owner, inner.level) := by
                rw [← howner]
                rfl
              have hlistParent : parent.node.list? = some (some owner, level) := by
                rw [Node.list?, hlevel, howner]
                rfl
              have hafter : (s.nodes.replace owner ⟨owner', inner.nodes⟩).nodes.Perm
                  ((m :: t.branch.nodes).map (Node.inContext level.context) ++
                    owner' :: (parent.branch.nodes ++ others)) := by
                have hnew := (hreplace ⟨owner', inner.nodes⟩).trans
                  ((hperm.append_right others).cons owner')
                rw [List.append_assoc] at hnew
                exact hnew.trans List.perm_middle.symm
              refine .of_perm hs ht hid htype hlist hlacks hnodup hbefore hafter
                (by simp [owner']) (by rw [Forest.namesOf_cons, Forest.namesOf_cons]) ?_ (fun own e he => ?_) fun own => ?_
              · intro n hn
                rcases List.mem_cons.1 hn with rfl | hn
                · exact ⟨parent.node, List.mem_cons_self, rfl⟩
                · exact ⟨n, List.mem_cons_of_mem _ hn, rfl⟩
              · simp only [List.mem_cons, List.filterMap_cons, hlist'] at he
                simp only [List.mem_cons, List.filterMap_cons, hlistParent]
                rcases he with rfl | rfl | he
                · exact ⟨s.level, .inl rfl, .refl s.level⟩
                · exact ⟨level, .inr (.inl rfl), hnames.growsTo⟩
                · exact ⟨e.2, .inr (.inr he), .refl e.2⟩
              · refine ⟨level, inner.level, List.mem_cons_of_mem _ (List.mem_filterMap.2 ?_),
                  List.mem_cons_of_mem _ (List.mem_filterMap.2 ?_), hnames⟩
                · exact ⟨parent.node, Forest.mem_of_subtree? hparent, hlistParent⟩
                · exact ⟨owner', hafter.mem_iff.2 (List.mem_append_right _ List.mem_cons_self),
                    hlist'⟩

/-- **A tree that was appended** leaves names distinct and no name missing, and the name that was
generated, if one was missing, has a number above the counter of its list. -/
theorem call_spec {owner : Option NodeId} (hids : (s.nodes.nodes.map Node.id).Nodup)
    (hs : s.nodes.IsNamed) (ht : t.branch.IsNamed) (h : s.call owner t index = .ok s') :
    s.Appended owner t s' := by
  cases owner with
  | none => exact append_spec hs ht h
  | some owner => exact appendToBranch_spec hids hs ht h

end Sequence

end SiteAnalysis
