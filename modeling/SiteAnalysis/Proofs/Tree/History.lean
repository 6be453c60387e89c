import SiteAnalysis.Proofs.Tree.Editing
import SiteAnalysis.Proofs.Tree.Visibility

set_option autoImplicit false

/-! # Histories of a tree

A root and trees beside it, changed by calls: a fresh tree is made, a tree is appended to the root
or to the branch of another tree, a node is taken out again. Main statement:

* `Bench.names_stay_distinct`: after any calls the names in the root are distinct and none is
  missing, names were generated with ever greater numbers, and a call that failed changed nothing.
-/

namespace SiteAnalysis

open Forest (single)

/-! ## Calls -/

/-- **A name that was generated** for the node of a type in a list, which is known by its owner. -/
structure GivenName where
  list : Option NodeId
  type : NodeType
  name : String

/-- The name that a node without one has in a forest, if it has one there. -/
def GivenName.ofNode? (f : Forest) (p : Placed) : Option GivenName :=
  if p.node.name.isEmpty then
    ((f.find? p.node.id).filter fun m => !m.name.isEmpty).map fun m =>
      ⟨p.owners.head?, m.type, m.name⟩
  else none

/-- **The names a tree was given** in a list: those of its nodes that had none. -/
def GivenName.ofPlaced (t : Subtree) (list : Option NodeId) (f : Forest) : List GivenName :=
  ((single t).placed list.toList).filterMap (GivenName.ofNode? f)

/-- Whether a name has a smaller number than another that was given in the same list to a node of
the same type. -/
def GivenName.Precedes (g g' : GivenName) : Prop :=
  g.list = g'.list → g.type = g'.type → ∀ m n, g.name = generatedName g.type m →
    g'.name = generatedName g'.type n → m < n

/-- **A root and trees beside it.** -/
structure Bench where
  root : Sequence
  held : List Subtree
  /-- The identity for the next node. -/
  fresh : NodeId
  /-- All names that were generated, the first one first. -/
  given : List GivenName

/-- What a call works on: the root, or the branch of a tree beside it. -/
inductive Bench.Base where
  | root
  | held (i : Nat)

/-- **A call.** -/
inductive Bench.Call where
  /-- Makes a tree of one node with an empty branch. -/
  | make (n : Node)
  /-- Renames the first node of a tree that is held. -/
  | rename (i : Nat) (name : String)
  /-- Takes up a tree that is held and appends it: to the list itself or to the branch of a node
  in it, behind all or in front of an index. -/
  | append (i : Nat) (base : Bench.Base) (owner : Option NodeId) (index : Option Nat)
  /-- Takes a node out and holds it. -/
  | remove (base : Bench.Base) (id : NodeId)

namespace Bench

/-- A root without nodes. -/
def start (keyword : String) (context : Context) : Bench :=
  ⟨.root keyword context, [], ⟨0⟩, []⟩

/-- The list a call works on. -/
def sequence? (b : Bench) : Base → Option Sequence
  | .root => some b.root
  | .held i => b.held[i]?.bind fun t => t.node.branch.map fun level => ⟨level, t.branch⟩

/-- The node that owns the list a call works on. -/
def owner (b : Bench) : Base → Option NodeId
  | .root => none
  | .held i => b.held[i]?.map fun t => t.node.id

/-- Puts another list in its place. -/
def withSequence (b : Bench) (s : Sequence) : Base → Bench
  | .root => { b with root := s }
  | .held i => { b with held := match b.held[i]? with
      | none => b.held
      | some t => b.held.set i ⟨{ t.node with branch := some s.level }, s.nodes⟩ }

/-- **Makes a call.** A tree that cannot be appended is dropped; what is not there to be called
is passed over. -/
def step (b : Bench) : Call → Except Error Unit × Bench
  | .make n =>
    let n := { n with
      id := b.fresh
      branch := n.branch.map fun l => .branch b.fresh l.keyword }
    (.ok (), { b with held := ⟨n, .nil⟩ :: b.held, fresh := ⟨b.fresh.value + 1⟩ })
  | .rename i name =>
    match b.held[i]? with
    | none => (.ok (), b)
    | some t => (.ok (), { b with held := b.held.set i ⟨t.node.rename name, t.branch⟩ })
  | .append i base owner index =>
    match b.held[i]? with
    | none => (.ok (), b)
    | some t =>
      let b := { b with held := b.held.eraseIdx i }
      match b.sequence? base with
      | none => (.ok (), b)
      | some s =>
        match s.call owner t index with
        | .error e => (.error e, b)
        | .ok s =>
          let names := GivenName.ofPlaced t (owner.or (b.owner base)) s.nodes
          (.ok (), { b.withSequence s base with given := b.given ++ names })
  | .remove base id =>
    match b.sequence? base with
    | none => (.ok (), b)
    | some s =>
      match s.nodes.remove? id with
      | none => (.ok (), b)
      | some (t, nodes) =>
        let b := b.withSequence { s with nodes } base
        (.ok (), { b with held := t :: b.held })

/-- Makes one call after the other. -/
def run (b : Bench) (calls : List Call) : Bench := calls.foldl (fun b call => (b.step call).2) b

/-! ## All nodes -/

/-- All nodes there are, in and beside the root. -/
def nodes (b : Bench) : List Node := b.root.nodes.nodes ++ b.held.flatMap fun t => (single t).nodes

/-- All lists there are, known by their owners. -/
def lists (b : Bench) : List (Option NodeId × Level) :=
  (none, b.root.level) :: b.nodes.filterMap Node.list?

variable {b : Bench} {base : Base} {s s' : Sequence} {t : Subtree} {i : Nat}

/-- The nodes of a tree that is held, and those there are without it. -/
theorem nodes_perm (h : b.held[i]? = some t) :
    b.nodes.Perm ((single t).nodes ++ nodes { b with held := b.held.eraseIdx i }) := by
  obtain ⟨hi, rfl⟩ := List.getElem?_eq_some_iff.1 h
  have hheld := (List.getElem_cons_eraseIdx_perm hi).symm
  have hflat := (hheld.flatMap_right fun t => (single t).nodes).append_left b.root.nodes.nodes
  rw [List.flatMap_cons] at hflat
  exact hflat.trans (List.perm_append_comm_assoc _ _ _)

theorem lists_perm (h : b.held[i]? = some t) :
    b.lists.Perm ((single t).nodes.filterMap Node.list? ++
      lists { b with held := b.held.eraseIdx i }) := by
  have hperm := (nodes_perm h).filterMap Node.list?
  rw [List.filterMap_append] at hperm
  exact (hperm.cons _).trans List.perm_middle.symm

theorem withSequence_self (h : b.sequence? base = some s) : b.withSequence s base = b := by
  cases base with
  | root =>
      obtain rfl := Option.some.inj h
      rfl
  | held i =>
      rw [sequence?, Option.bind_eq_some_iff] at h
      obtain ⟨t, hheld, h⟩ := h
      rw [Option.map_eq_some_iff] at h
      obtain ⟨level, hlevel, rfl⟩ := h
      obtain ⟨hi, ht⟩ := List.getElem?_eq_some_iff.1 hheld
      have hsame : (⟨{ t.node with branch := some level }, t.branch⟩ : Subtree) = t := by
        rw [← hlevel]
      rw [withSequence, hheld]
      dsimp only
      rw [hsame, ← ht, List.set_getElem_self]

/-- **What a call does not work on**, whatever it does to the list it works on. -/
theorem exists_others (h : b.sequence? base = some s) : ∃ ids lists,
    ∀ s', ((b.withSequence s' base).nodes.map Node.id).Perm (s'.nodes.nodes.map Node.id ++ ids) ∧
      (b.withSequence s' base).lists.Perm (s'.lists (b.owner base) ++ lists) := by
  cases base with
  | root =>
      refine ⟨(b.held.flatMap fun t => (single t).nodes).map Node.id,
        (b.held.flatMap fun t => (single t).nodes).filterMap Node.list?, fun s' => ⟨?_, ?_⟩⟩
      · rw [nodes, List.map_append]
        rfl
      · rw [lists, nodes, List.filterMap_append]
        rfl
  | held i =>
      rw [sequence?, Option.bind_eq_some_iff] at h
      obtain ⟨t, hheld, h⟩ := h
      obtain ⟨hi, ht⟩ := List.getElem?_eq_some_iff.1 hheld
      -- The list is the branch of a held tree: its node and the other held trees stay.
      let others := nodes { b with held := b.held.eraseIdx i }
      refine ⟨t.node.id :: others.map Node.id,
        (none, b.root.level) :: others.filterMap Node.list?, fun s' => ?_⟩
      let n : Node := { t.node with branch := some s'.level }
      have howner : b.owner (.held i) = some t.node.id := by rw [owner, hheld]; rfl
      have hset : b.withSequence s' (.held i) = { b with held := b.held.set i ⟨n, s'.nodes⟩ } := by
        rw [withSequence, hheld]
      have hperm : (b.withSequence s' (.held i)).nodes.Perm
          (n :: (s'.nodes.nodes ++ others)) := by
        have hget : (b.withSequence s' (.held i)).held[i]? = some ⟨n, s'.nodes⟩ := by
          rw [hset]
          exact List.getElem?_set_self hi
        have hnodes := nodes_perm hget
        rw [hset] at hnodes ⊢
        simpa [others, List.eraseIdx_set_eq] using hnodes
      refine ⟨?_, ?_⟩
      · have hids := hperm.map Node.id
        rw [List.map_cons, List.map_append] at hids
        exact hids.trans List.perm_middle.symm
      · have hlists := (hperm.filterMap Node.list?).cons (none, b.root.level)
        have hn : n.list? = some (some t.node.id, s'.level) := rfl
        rw [List.filterMap_cons, hn, List.filterMap_append] at hlists
        rw [howner]
        have hroot : (b.withSequence s' (.held i)).root = b.root := by rw [hset]
        rw [lists, hroot]
        refine hlists.trans ?_
        exact (List.Perm.swap _ _ _).trans (List.perm_middle.symm.cons _)

/-! ## What calls preserve -/

/-- **What holds of a root and the trees beside it after any calls.** -/
structure IsSound (b : Bench) : Prop where
  ids : (b.nodes.map Node.id).Nodup
  old : ∀ id ∈ b.nodes.map Node.id, id.value < b.fresh.value
  root : b.root.nodes.IsNamed
  held : ∀ t ∈ b.held, t.branch.IsNamed
  owners : ∀ g ∈ b.given, ∀ id, g.list = some id → id.value < b.fresh.value
  /-- The counter of a list has caught up with all numbers it has given out. -/
  given : ∀ g ∈ b.given, ∃ number, g.name = generatedName g.type number ∧
    ∀ l, (g.list, l) ∈ b.lists → number ≤ l.counter g.type
  ordered : b.given.Pairwise GivenName.Precedes

theorem isSound_start (keyword : String) (context : Context) :
    (start keyword context).IsSound where
  ids := List.nodup_nil
  old := by simp [start, nodes, Sequence.root, Forest.nodes]
  root := Forest.isNamed_nil
  held := by simp [start]
  owners := by simp [start]
  given := by simp [start]
  ordered := List.Pairwise.nil

/-- A list of a node is known by the identity of the node. -/
theorem id_mem_of_mem_lists {id : NodeId} {l : Level} (h : (some id, l) ∈ b.lists) :
    id ∈ b.nodes.map Node.id := by
  rcases List.mem_cons.1 h with h | h
  · cases h
  · obtain ⟨n, hn, hlist⟩ := List.mem_filterMap.1 h
    rw [Node.list?, Option.map_eq_some_iff] at hlist
    obtain ⟨l', -, heq⟩ := hlist
    exact Option.some.inj (Prod.mk.inj heq).1 ▸ List.mem_map_of_mem hn

/-- Where identities are distinct, every list has one level. -/
theorem level_unique (hids : (b.nodes.map Node.id).Nodup) {o : Option NodeId} {l l' : Level}
    (h : (o, l) ∈ b.lists) (h' : (o, l') ∈ b.lists) : l = l' := by
  have hcases : ∀ {l : Level}, (o, l) ∈ b.lists → (o = none ∧ l = b.root.level) ∨
      ∃ n ∈ b.nodes, o = some n.id ∧ n.branch = some l := fun {l} hl => by
    rcases List.mem_cons.1 hl with hl | hl
    · exact .inl (Prod.mk.inj hl)
    · obtain ⟨n, hn, hlist⟩ := List.mem_filterMap.1 hl
      rw [Node.list?, Option.map_eq_some_iff] at hlist
      obtain ⟨l', hbranch, heq⟩ := hlist
      obtain ⟨rfl, rfl⟩ := Prod.mk.inj heq
      exact .inr ⟨n, hn, rfl, hbranch⟩
  rcases hcases h with ⟨rfl, rfl⟩ | ⟨n, hn, rfl, hbranch⟩
  · rcases hcases h' with ⟨-, rfl⟩ | ⟨n, -, hnone, -⟩
    · rfl
    · cases hnone
  · rcases hcases h' with ⟨hnone, -⟩ | ⟨m, hm, hid, hbranch'⟩
    · cases hnone
    · have hsame : n = m := List.inj_on_of_nodup_map hids hn hm (Option.some.inj hid)
      rw [← hsame, hbranch] at hbranch'
      exact Option.some.inj hbranch'

/-- **What keeps a bench sound**: nodes stay or come with new identities, names stay distinct, and
no counter goes back. -/
theorem IsSound.of_carries {b' : Bench} (h : b.IsSound) (hids : (b'.nodes.map Node.id).Nodup)
    (hold : ∀ id ∈ b'.nodes.map Node.id, id.value < b'.fresh.value)
    (hroot : b'.root.nodes.IsNamed) (hheld : ∀ t ∈ b'.held, t.branch.IsNamed)
    (hfresh : b.fresh.value ≤ b'.fresh.value) (hgiven : b'.given = b.given)
    (hcarries : ∀ e ∈ b'.lists, (∃ l, (e.1, l) ∈ b.lists ∧ l.GrowsTo e.2) ∨
      ∃ id, e.1 = some id ∧ b.fresh.value ≤ id.value) : b'.IsSound where
  ids := hids
  old := hold
  root := hroot
  held := hheld
  owners := by
    rw [hgiven]
    exact fun g hg id hid => (h.owners g hg id hid).trans_le hfresh
  given := by
    rw [hgiven]
    intro g hg
    obtain ⟨number, hname, hcounter⟩ := h.given g hg
    refine ⟨number, hname, fun l' hl' => ?_⟩
    rcases hcarries _ hl' with ⟨l, hl, hgrows⟩ | ⟨id, hid, hnew⟩
    · exact (hcounter l hl).trans (hgrows g.type)
    · exact absurd (h.owners g hg id hid) (Nat.not_lt.2 hnew)
  ordered := by
    rw [hgiven]
    exact h.ordered

/-- A bench stays sound if its nodes stay and no counter goes back. -/
theorem IsSound.of_moved {b' : Bench} (h : b.IsSound)
    (hids : (b'.nodes.map Node.id).Perm (b.nodes.map Node.id)) (hroot : b'.root.nodes.IsNamed)
    (hheld : ∀ t ∈ b'.held, t.branch.IsNamed) (hfresh : b'.fresh = b.fresh)
    (hgiven : b'.given = b.given) (hcarries : Carries b.lists b'.lists) : b'.IsSound := by
  refine h.of_carries (hids.nodup_iff.2 h.ids) (fun id hid => ?_) hroot hheld
    (Nat.le_of_eq (congrArg NodeId.value hfresh.symm)) hgiven fun e he => .inl (hcarries e he)
  rw [hfresh]
  exact h.old id (hids.mem_iff.1 hid)

/-- A tree that is held may be dropped. -/
theorem IsSound.eraseIdx (h : b.IsSound) (hheld : b.held[i]? = some t) :
    IsSound { b with held := b.held.eraseIdx i } := by
  have hids := (nodes_perm hheld).map Node.id
  rw [List.map_append] at hids
  refine h.of_carries (hids.nodup_iff.1 h.ids).of_append_right (fun id hid => ?_) h.root
    (fun u hu => h.held u ((List.eraseIdx_sublist b.held i).mem hu)) (Nat.le_refl _) rfl
    fun e he => .inl ⟨e.2, ?_, .refl e.2⟩
  · exact h.old id (hids.mem_iff.2 (List.mem_append_right _ hid))
  · exact (lists_perm hheld).mem_iff.2 (List.mem_append_right _ he)

theorem IsSound.sequence (h : b.IsSound) (hs : b.sequence? base = some s) :
    s.nodes.IsNamed ∧ (s.nodes.nodes.map Node.id).Nodup := by
  obtain ⟨ids, lists, hperm⟩ := exists_others hs
  have hids := (hperm s).1
  rw [withSequence_self hs] at hids
  refine ⟨?_, (hids.nodup_iff.1 h.ids).of_append_left⟩
  cases base with
  | root => exact Option.some.inj hs ▸ h.root
  | held i =>
      rw [sequence?, Option.bind_eq_some_iff] at hs
      obtain ⟨t, hheld, hs⟩ := hs
      rw [Option.map_eq_some_iff] at hs
      obtain ⟨level, -, rfl⟩ := hs
      exact h.held t (List.mem_of_getElem? hheld)

/-- The names of the root and of all branches that are held, once a list has been changed. -/
theorem IsSound.isNamed_withSequence (h : b.IsSound) (hs' : s'.nodes.IsNamed) (base : Base) :
    (b.withSequence s' base).root.nodes.IsNamed ∧
      ∀ t ∈ (b.withSequence s' base).held, t.branch.IsNamed := by
  cases base with
  | root => exact ⟨hs', h.held⟩
  | held i =>
      refine ⟨h.root, fun u hu => ?_⟩
      rw [withSequence] at hu
      dsimp only at hu
      split at hu
      · exact h.held u hu
      · rcases List.mem_or_eq_of_mem_set hu with hu | rfl
        · exact h.held u hu
        · exact hs'

theorem withSequence_fresh (b : Bench) (s : Sequence) (base : Base) :
    (b.withSequence s base).fresh = b.fresh ∧ (b.withSequence s base).given = b.given := by
  cases base <;> exact ⟨rfl, rfl⟩

theorem find?_of_mem {f : Forest} (hids : (f.nodes.map Node.id).Nodup) {m : Node}
    (hm : m ∈ f.nodes) : f.find? m.id = some m := by
  rw [Forest.find?, List.find?_eq_some_iff_append]
  obtain ⟨before, after, heq⟩ := List.append_of_mem hm
  refine ⟨by simp, before, after, heq, fun n hn => ?_⟩
  rw [heq, List.map_append, List.map_cons] at hids
  have hnot := (List.nodup_middle.1 hids).notMem
  simp only [List.mem_append, List.mem_map, not_or] at hnot
  simpa using fun heq => hnot.1 ⟨n, hn, heq⟩

/-- A node that keeps its name is given none. -/
theorem ofNode?_of_name {f : Forest} (hids : (f.nodes.map Node.id).Nodup) {p : Placed} {m : Node}
    (hm : m ∈ f.nodes) (hid : m.id = p.node.id) (hname : m.name = p.node.name) :
    GivenName.ofNode? f p = none := by
  unfold GivenName.ofNode?
  split
  · next hempty =>
      rw [← hid, find?_of_mem hids hm, Option.filter_some, hname, hempty]
      rfl
  · rfl

/-- **The names a call generates**: at most one, that of the node itself. -/
theorem ofPlaced_spec (own : Option NodeId) {o : Option NodeId} (h : s.Appended o t s')
    (hids : (s'.nodes.nodes.map Node.id).Nodup) :
    GivenName.ofPlaced t (o.or own) s'.nodes = [] ∨
    ∃ number level level', GivenName.ofPlaced t (o.or own) s'.nodes =
        [⟨o.or own, t.node.type, generatedName t.node.type number⟩] ∧
      (o.or own, level) ∈ s.lists own ∧ level.counter t.node.type < number ∧
      (o.or own, level') ∈ s'.lists own ∧ number ≤ level'.counter t.node.type := by
  obtain ⟨m, hm, hid, -, htype, hlevels⟩ := h.node
  obtain ⟨level, level', hlevel, hlevel', hnames⟩ := hlevels own
  have hbranch : (t.branch.placed (t.node.id :: (o.or own).toList)).filterMap
      (GivenName.ofNode? s'.nodes) = [] := by
    rw [List.filterMap_eq_nil_iff]
    intro p hp
    obtain ⟨n, hn, hnid, hname⟩ := h.branch p.node (Forest.node_mem_of_mem_placed hp)
    exact ofNode?_of_name hids hn hnid hname
  have hplaced : (single t).placed (o.or own).toList =
      ⟨t.node, (o.or own).toList⟩ :: t.branch.placed (t.node.id :: (o.or own).toList) := by
    simp [single, Forest.placed]
  rw [GivenName.ofPlaced, hplaced, List.filterMap_cons, hbranch]
  rcases hnames with ⟨-, hname, -⟩ | ⟨hlacks, number, hnumber, hname, rfl⟩
  · rw [ofNode?_of_name (p := ⟨t.node, (o.or own).toList⟩) hids hm hid hname]
    exact .inl rfl
  · refine .inr ⟨number, level, _, ?_, hlevel, hnumber, hlevel', ?_⟩
    · have hempty : t.node.name.isEmpty = true := by
        simp only [Node.lacksName, Bool.and_eq_true] at hlacks
        exact hlacks.1
      have hown : (o.or own).toList.head? = o.or own := by cases o.or own <;> rfl
      have hne : (!(generatedName t.node.type number).isEmpty) = true := by
        simp [generatedName_ne]
      unfold GivenName.ofNode?
      rw [if_pos hempty, ← hid, find?_of_mem hids hm, Option.filter_some, hname, if_pos hne,
        Option.map_some, hown, htype, hname]
    · rw [Level.counter_setCounter, if_pos rfl]

/-- A bench stays sound if a name is noted that was generated with a number above the counter. -/
theorem IsSound.note {b' : Bench} (h : b.IsSound) (h' : b'.IsSound) (hgiven : b'.given = b.given)
    {g : GivenName} {number : Nat} {level level' : Level}
    (hname : g.name = generatedName g.type number) (hlevel : (g.list, level) ∈ b.lists)
    (hnumber : level.counter g.type < number) (hlevel' : (g.list, level') ∈ b'.lists)
    (hcounter : number ≤ level'.counter g.type) :
    IsSound { b' with given := b'.given ++ [g] } where
  ids := h'.ids
  old := h'.old
  root := h'.root
  held := h'.held
  owners := by
    rintro k hk id hid
    rcases List.mem_append.1 hk with hk | hk
    · exact h'.owners k hk id hid
    · obtain rfl := List.mem_singleton.1 hk
      rw [hid] at hlevel'
      exact h'.old id (id_mem_of_mem_lists hlevel')
  given := by
    intro k hk
    rcases List.mem_append.1 hk with hk | hk
    · exact h'.given k hk
    · obtain rfl := List.mem_singleton.1 hk
      refine ⟨number, hname, fun l hl => ?_⟩
      rw [level_unique h'.ids hl hlevel']
      exact hcounter
  ordered := by
    rw [List.pairwise_append]
    refine ⟨h'.ordered, List.pairwise_singleton _ _, fun k hk g' hg' => ?_⟩
    obtain rfl := List.mem_singleton.1 hg'
    intro hlist htype m n hm hn
    rw [hgiven] at hk
    obtain ⟨earlier, hearlier, hbound⟩ := h.given k hk
    have hm' : m = earlier := generatedName_inj (congrArg foldCase (hm.symm.trans hearlier))
    have hn' : n = number := generatedName_inj (congrArg foldCase (hn.symm.trans hname))
    have hle := hbound level (hlist ▸ hlevel)
    rw [htype] at hle
    omega

/-! ## Steps -/

theorem IsSound.step_make (h : b.IsSound) (n : Node) : (b.step (.make n)).2.IsSound := by
  have hnodes : (b.step (.make n)).2.nodes.Perm ({ n with
      id := b.fresh
      branch := n.branch.map fun l => .branch b.fresh l.keyword } :: b.nodes) := by
    rw [step, nodes, nodes, List.flatMap_cons, Forest.nodes_single]
    exact List.perm_middle
  have hids := hnodes.map Node.id
  rw [List.map_cons] at hids
  -- The identity is fresh, and so is the list that the node owns.
  have hnew : b.fresh ∉ b.nodes.map Node.id := fun hin => Nat.lt_irrefl _ (h.old _ hin)
  refine h.of_carries (hids.nodup_iff.2 (List.nodup_cons.2 ⟨hnew, h.ids⟩)) (fun id hid => ?_)
    h.root (fun t ht => ?_) (Nat.le_succ _) rfl fun e he => ?_
  · rcases List.mem_cons.1 (hids.mem_iff.1 hid) with rfl | hid
    · exact Nat.lt_succ_self _
    · exact (h.old id hid).trans (Nat.lt_succ_self _)
  · rcases List.mem_cons.1 ht with rfl | ht
    · exact Forest.isNamed_nil
    · exact h.held t ht
  · have hlists := ((hnodes.filterMap Node.list?).cons (none, b.root.level)).mem_iff.1 he
    rcases List.mem_cons.1 hlists with rfl | hlists
    · exact .inl ⟨_, List.mem_cons_self, .refl _⟩
    · obtain ⟨m, hm, hlist⟩ := List.mem_filterMap.1 hlists
      rcases List.mem_cons.1 hm with rfl | hm
      · rw [Node.list?, Option.map_eq_some_iff] at hlist
        obtain ⟨l, -, rfl⟩ := hlist
        exact .inr ⟨b.fresh, rfl, Nat.le_refl _⟩
      · exact .inl ⟨e.2, List.mem_cons_of_mem _ (List.mem_filterMap.2 ⟨m, hm, hlist⟩), .refl _⟩

theorem IsSound.step_rename (h : b.IsSound) (i : Nat) (name : String) :
    (b.step (.rename i name)).2.IsSound := by
  rw [step]
  split
  · exact h
  · next t hheld =>
      obtain ⟨hi, -⟩ := List.getElem?_eq_some_iff.1 hheld
      let b' : Bench := { b with held := b.held.set i ⟨t.node.rename name, t.branch⟩ }
      have hget : b'.held[i]? = some ⟨t.node.rename name, t.branch⟩ := List.getElem?_set_self hi
      have herase : b'.held.eraseIdx i = b.held.eraseIdx i := List.eraseIdx_set_eq
      -- Neither identities nor lists depend on names.
      have hids : (b'.nodes.map Node.id).Perm (b.nodes.map Node.id) := by
        have hnew := (nodes_perm hget).map Node.id
        have hbefore := (nodes_perm hheld).map Node.id
        rw [herase] at hnew
        simp only [Forest.nodes_single, List.map_append, List.map_cons] at hnew hbefore
        exact hnew.trans hbefore.symm
      have hlists : b'.lists.Perm b.lists := by
        have hnew := lists_perm hget
        have hbefore := lists_perm hheld
        have hsame : (t.node.rename name).list? = t.node.list? := rfl
        rw [herase] at hnew
        simp only [Forest.nodes_single, List.filterMap_cons, hsame] at hnew hbefore
        exact hnew.trans hbefore.symm
      refine h.of_moved hids h.root (fun u hu => ?_) rfl rfl (.of_subset hlists.subset)
      rcases List.mem_or_eq_of_mem_set hu with hu | rfl
      · exact h.held u hu
      · exact h.held t (List.mem_of_getElem? hheld)

theorem IsSound.step_remove (h : b.IsSound) (base : Base) (id : NodeId) :
    (b.step (.remove base id)).2.IsSound := by
  rw [step]
  split
  · exact h
  · next s hs =>
      split
      · exact h
      · next t nodes' hremove =>
          obtain ⟨hnamed, -⟩ := h.sequence hs
          have hperm := Forest.remove?_perm hremove
          obtain ⟨hstays, hbranch⟩ := hnamed.of_perm hperm
          obtain ⟨ids, lists', hothers⟩ := exists_others hs
          have hbefore := hothers s
          have hafter := hothers { s with nodes := nodes' }
          rw [withSequence_self hs] at hbefore
          have hchanged : (Sequence.mk s.level nodes').nodes.IsNamed := hstays
          obtain ⟨hroot, hheld⟩ := h.isNamed_withSequence hchanged base
          obtain ⟨hfresh, hgiven⟩ := withSequence_fresh b { s with nodes := nodes' } base
          generalize b.withSequence { s with nodes := nodes' } base = b' at *
          let b'' : Bench := { b' with held := t :: b'.held }
          have hfirst : b''.held[0]? = some t := rfl
          -- What left the list is held.
          have hids : (b''.nodes.map Node.id).Perm (b.nodes.map Node.id) := by
            have hnew := (nodes_perm hfirst).map Node.id
            have hs := (hperm.map Node.id).append_right ids
            rw [List.map_append] at hnew hs
            rw [List.append_assoc] at hs
            exact (hnew.trans (hafter.1.append_left _)).trans (hs.symm.trans hbefore.1.symm)
          have hlists : b''.lists.Perm b.lists := by
            have hnew := lists_perm hfirst
            have hs := ((hperm.filterMap Node.list?).cons (b.owner base, s.level)).append_right
              lists'
            rw [List.filterMap_append] at hs
            refine (hnew.trans (hafter.2.append_left _)).trans
              (List.Perm.trans ?_ (hs.symm.trans hbefore.2.symm))
            rw [← List.append_assoc]
            exact List.perm_middle.append_right lists'
          refine h.of_moved hids hroot (fun u hu => ?_) hfresh hgiven (.of_subset hlists.subset)
          rcases List.mem_cons.1 hu with rfl | hu
          · exact hbranch
          · exact hheld u hu

/-- A tree that was held comes to stand in a list. -/
theorem IsSound.appended {o : Option NodeId} (h : b.IsSound) (hheld : b.held[i]? = some t)
    (hs : sequence? { b with held := b.held.eraseIdx i } base = some s)
    (happended : s.Appended o t s') :
    let before := { b with held := b.held.eraseIdx i }
    let after := before.withSequence s' base
    after.IsSound ∧ (s'.nodes.nodes.map Node.id).Nodup ∧
      s.lists (before.owner base) ⊆ b.lists ∧ s'.lists (before.owner base) ⊆ after.lists := by
  intro before after
  have hdropped : before.IsSound := h.eraseIdx hheld
  have hnodes := (nodes_perm hheld).map Node.id
  rw [List.map_append] at hnodes
  obtain ⟨ids, lists', hothers⟩ := exists_others hs
  have hbefore := hothers s
  rw [withSequence_self hs] at hbefore
  have hafter := hothers s'
  have hids : (after.nodes.map Node.id).Perm (b.nodes.map Node.id) := by
    have hmoved := happended.ids.append_right ids
    rw [List.append_assoc] at hmoved
    exact hafter.1.trans (hmoved.trans ((hbefore.1.symm.append_left _).trans hnodes.symm))
  have hsub : (single t).nodes.filterMap Node.list? ++ s.lists (before.owner base) ++ lists' ⊆
      b.lists := by
    rw [List.append_assoc]
    exact ((hbefore.2.symm.append_left _).trans (lists_perm hheld).symm).subset
  have hcarries := ((happended.carries (before.owner base)).append
    (.of_subset (List.Subset.refl lists'))).mono hsub hafter.2.subset
  obtain ⟨hroot, hbranches⟩ := hdropped.isNamed_withSequence happended.named base
  obtain ⟨hfresh, hgiven⟩ := withSequence_fresh before s' base
  have hsound := h.of_moved hids hroot hbranches hfresh hgiven hcarries
  exact ⟨hsound, (hafter.1.nodup_iff.1 hsound.ids).of_append_left,
    fun e he => hsub (List.mem_append_left _ (List.mem_append_right _ he)),
    fun e he => hafter.2.symm.subset (List.mem_append_left _ he)⟩

theorem IsSound.step_append (h : b.IsSound) (i : Nat) (base : Base) (o : Option NodeId)
    (index : Option Nat) : (b.step (.append i base o index)).2.IsSound := by
  rw [step]
  split
  · exact h
  · next t hheld =>
      have hdropped := h.eraseIdx hheld
      dsimp only
      split
      · exact hdropped
      · next s hs =>
          split
          · exact hdropped
          · next s' hs' =>
              obtain ⟨hnamed, hids⟩ := hdropped.sequence hs
              have happended := Sequence.call_spec hids hnamed
                (h.held t (List.mem_of_getElem? hheld)) hs'
              obtain ⟨hsound, hids', hlists, hlists'⟩ := h.appended hheld hs happended
              have hgiven : (withSequence { b with held := b.held.eraseIdx i } s' base).given =
                  b.given := (withSequence_fresh _ s' base).2
              generalize ({ b with held := b.held.eraseIdx i } : Bench) = before at *
              generalize before.withSequence s' base = after at *
              rw [← hgiven]
              rcases ofPlaced_spec (before.owner base) happended hids' with hnone |
                ⟨number, level, level', hone, hlevel, hnumber, hlevel', hcounter⟩
              · rw [hnone, List.append_nil]
                exact hsound
              · rw [hone]
                exact h.note hsound hgiven rfl (hlists hlevel) hnumber (hlists' hlevel') hcounter

/-- **Every call keeps a bench sound.** -/
theorem IsSound.step (h : b.IsSound) (call : Call) : (b.step call).2.IsSound := by
  cases call with
  | make n => exact h.step_make n
  | rename i name => exact h.step_rename i name
  | append i base o index => exact h.step_append i base o index
  | remove base id => exact h.step_remove base id

theorem IsSound.run (h : b.IsSound) (calls : List Call) : (b.run calls).IsSound := by
  induction calls generalizing b with
  | nil => exact h
  | cons call calls ih => exact ih (h.step call)

/-! ## Main result -/

/-- **A call that fails** drops the tree it was to append and changes nothing else. -/
theorem step_error {call : Call} {e : Error} (h : (b.step call).1 = .error e) :
    ∃ i, (b.step call).2 = { b with held := b.held.eraseIdx i } := by
  -- Only appending can fail.
  cases call with
  | make n => cases h
  | rename i name =>
      rw [step] at h
      split at h <;> cases h
  | append i base o index =>
      refine ⟨i, ?_⟩
      rw [step] at h ⊢
      cases hheld : b.held[i]? with
      | none => rw [hheld] at h; cases h
      | some t =>
          rw [hheld] at h
          dsimp only at h ⊢
          split at h
          · cases h
          · next s hs =>
              cases hcall : s.call o t index with
              | ok s' => rw [hcall] at h; cases h
              | error e => rfl
  | remove base id =>
      rw [step] at h
      split at h
      · cases h
      · split at h <;> cases h

/-- **Names stay distinct and complete.** After any calls the names in the root are distinct, also
if case does not count, and every node that needs a name has one. Every name that was generated is
that of a type and a number, greater than all numbers given in the same list to the type before. A
call that fails leaves all as it was, but for the tree it was to append. -/
theorem names_stay_distinct (keyword : String) (context : Context) (calls : List Call) :
    let b := (start keyword context).run calls
    b.root.nodes.names.Nodup ∧ (∀ n ∈ b.root.nodes.nodes, n.lacksName = false) ∧
    (∀ g ∈ b.given, ∃ number, g.name = generatedName g.type number) ∧
    b.given.Pairwise GivenName.Precedes ∧
    ∀ call e, (b.step call).1 = .error e →
      ∃ i, (b.step call).2 = { b with held := b.held.eraseIdx i } := by
  intro b
  have hsound : b.IsSound := (isSound_start keyword context).run calls
  refine ⟨hsound.root.distinct, hsound.root.named, fun g hg => ?_, hsound.ordered,
    fun call e h => step_error h⟩
  obtain ⟨number, hname, -⟩ := hsound.given g hg
  exact ⟨number, hname⟩

/-- A number is not given again after its node was taken out. -/
example :
    let select : Call := .make (.ofType .invalid .select)
    let place : Call := .append 0 .root none none
    ((start "Analysis" .analysis).run [select, place, select, place, .remove .root ⟨1⟩, select,
      place]).given.map GivenName.name = ["Select01", "Select02", "Select03"] := by
  rfl

end Bench

end SiteAnalysis
