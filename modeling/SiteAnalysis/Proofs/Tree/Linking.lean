import SiteAnalysis.Proofs.Tree.Updates

set_option autoImplicit false

/-! # Linking

Every reference of a tree stands in a slot: that of a keyword of the node that refers
(`Forest.slots`). A slot resolves if its reference means a node that the filter admits. Main
statement:

* `Forest.link_resolves_slots`: linking succeeds if all slots resolve; it brings up to date those
  that do, reports the others, and leaves nothing to be done by linking again.
-/

namespace SiteAnalysis

/-! ## Slots -/

/-- **A reference and where it stands.** -/
structure Slot where
  /-- The node that refers. -/
  node : NodeId
  /-- The name of this node. -/
  name : String
  keyword : String
  treeWide : Bool
  filter : NodeFilter
  ref : NodeRef

/-- The references of a node. -/
def Node.slots (n : Node) : List Slot :=
  n.keywords.refs.map fun (keyword, filter, r) =>
    ⟨n.id, n.name, keyword, n.keywords.isTreeWide keyword, filter, r⟩

/-- **All references of a tree**, in the order of their nodes. -/
def Forest.slots (f : Forest) : List Slot := f.nodes.flatMap Node.slots

namespace Slot

open Forest

variable {f : Forest} {s s' : Slot} {m n : Node}

/-- **Whether a reference resolves to a node**: it means the node, and the filter admits it. -/
def ResolvesTo (f : Forest) (s : Slot) (n : Node) : Prop :=
  f.Means s.node s.treeWide s.ref n ∧ s.filter.admits n.type = true

/-- Whether a reference resolves. -/
def Resolves (f : Forest) (s : Slot) : Prop := ∃ n, s.ResolvesTo f n

/-- The slot with the name and the identity of a node. -/
def pointTo (s : Slot) (n : Node) : Slot := { s with ref := ⟨n.name, some n.id⟩ }

/-- **What linking makes of a slot.** -/
inductive Linked (f : Forest) (s : Slot) : Slot → Prop
  | resolved {n : Node} (h : s.ResolvesTo f n) : Linked f s (s.pointTo n)
  | dangling (h : ¬ s.Resolves f) : Linked f s s

/-- What is reported of a slot that does not resolve. -/
def problem (s : Slot) : Error := .danglingReference s.name s.keyword s.ref.name

/-- What the reference of a slot should be. -/
def now? (f : Forest) (s : Slot) : Option NodeRef := f.resolve? s.node s.treeWide s.filter s.ref

/-- The slot with its reference brought up to date. -/
def refreshed (f : Forest) (s : Slot) : Slot := { s with ref := (s.now? f).getD s.ref }

/-- A slot as a reference that means no node. -/
def stale (s : Slot) : Stale := ⟨s.node, s.name, s.keyword, s.ref⟩

section Identities

variable (hids : (f.nodes.map Node.id).Nodup)
include hids

theorem now?_eq_some_iff {r : NodeRef} :
    s.now? f = some r ↔ ∃ n, s.ResolvesTo f n ∧ r = ⟨n.name, some n.id⟩ := by
  simp only [now?, resolve?_eq_some_iff hids, ResolvesTo, and_assoc]

theorem isSome_now?_iff : (s.now? f).isSome = true ↔ s.Resolves f := by
  rw [Option.isSome_iff_exists]
  constructor
  · rintro ⟨r, hr⟩
    obtain ⟨n, hn, -⟩ := (now?_eq_some_iff hids).1 hr
    exact ⟨n, hn⟩
  · rintro ⟨n, hn⟩
    exact ⟨_, (now?_eq_some_iff hids).2 ⟨n, hn, rfl⟩⟩

/-- A reference resolves to one node. -/
theorem ResolvesTo.unique (hm : s.ResolvesTo f m) (hn : s.ResolvesTo f n) : m = n :=
  hm.1.unique hids hn.1

theorem refreshed_eq (hn : s.ResolvesTo f n) : s.refreshed f = s.pointTo n := by
  rw [refreshed, (now?_eq_some_iff hids).2 ⟨n, hn, rfl⟩]
  rfl

theorem linked_refreshed (s : Slot) : s.Linked f (s.refreshed f) := by
  by_cases h : s.Resolves f
  · obtain ⟨n, hn⟩ := h
    rw [refreshed_eq hids hn]
    exact .resolved hn
  · have hnone : s.now? f = none := by
      rwa [← isSome_now?_iff hids, Bool.not_eq_true, Option.isSome_eq_false_iff,
        Option.isNone_iff_eq_none] at h
    have hsame : s.refreshed f = s := by
      rw [refreshed, hnone]
      rfl
    rw [hsame]
    exact .dangling h

/-- **A reference that was brought up to date should be what it is.** -/
theorem now?_refreshed (s : Slot) : (s.refreshed f).now? f = s.now? f := by
  cases hnow : s.now? f with
  | none =>
      have hsame : s.refreshed f = s := by
        rw [refreshed, hnow]
        rfl
      rw [hsame, hnow]
  | some r =>
      rw [refreshed, hnow]
      exact resolve?_idem hids hnow

end Identities

end Slot

namespace Forest

variable {f : Forest} {n : Node}

/-! ## The slots of a linked tree -/

theorem slots_mapRefs (n : Node) (change : String → NodeFilter → NodeRef → NodeRef) :
    Node.slots { n with keywords := n.keywords.mapRefs change } =
      n.slots.map fun s => { s with ref := change s.keyword s.filter s.ref } := by
  simp [Node.slots, KeywordStore.refs_mapRefs, Function.comp_def]

theorem slots_refreshed (f : Forest) (n : Node) :
    (f.refreshed n).slots = n.slots.map (Slot.refreshed f) := by
  rw [refreshed, slots_mapRefs]
  refine List.map_congr_left fun s hs => ?_
  obtain ⟨r, -, rfl⟩ := List.mem_map.1 hs
  rfl

/-- **Linking brings every slot up to date.** -/
theorem slots_link (f : Forest) : f.link.1.slots = f.slots.map (Slot.refreshed f) := by
  simp only [link, relink, slots, nodes_map, List.flatMap_map, List.map_flatMap, slots_refreshed]

theorem now?_link (f : Forest) (s : Slot) : s.now? f.link.1 = s.now? f :=
  resolve?_map (fun n => (rfl : (f.refreshed n).id = n.id)) (fun _ => rfl) (fun _ => rfl) f _ _ _ _

theorem staleRefs_eq (f : Forest) (n : Node) :
    f.staleRefs n = (n.slots.filter fun s => (s.now? f).isNone).map Slot.stale := by
  rw [staleRefs, Node.slots, List.filter_map, List.map_map, ← List.filterMap_eq_map,
    ← List.filterMap_eq_filter, List.filterMap_filterMap]
  refine List.filterMap_congr fun r _ => ?_
  simp only [Function.comp_apply, Slot.now?, Option.guard]
  split
  · next r' hr => simp [hr]
  · next hnone => simp [hnone, Slot.stale]

/-- The slots that linking reports. -/
theorem stale_relink (f : Forest) :
    f.relink.2 = (f.slots.filter fun s => (s.now? f).isNone).map Slot.stale := by
  simp only [relink, slots, List.filter_flatMap, List.map_flatMap]
  exact List.flatMap_congr fun n _ => staleRefs_eq f n

theorem link_snd (f : Forest) : f.link.2 =
    if (f.slots.filter fun s => (s.now? f).isNone).isEmpty then .ok ()
    else .error (.readFailed ((f.slots.filter fun s => (s.now? f).isNone).map Slot.problem)) := by
  have hstale : f.link.2 = if f.relink.2.isEmpty then .ok ()
      else .error (.readFailed (f.relink.2.map Stale.toError)) := rfl
  rw [hstale, stale_relink, List.isEmpty_map, List.map_map]
  rfl

/-! ## Linking again -/

section Identities

variable (hids : (f.nodes.map Node.id).Nodup)
include hids

theorem resolved_link (n : Node) (keyword : String) (filter : NodeFilter) (r : NodeRef) :
    f.link.1.resolved (f.refreshed n) keyword filter (f.resolved n keyword filter r) =
      f.resolved n keyword filter r := by
  have hsame : f.link.1.resolved (f.refreshed n) keyword filter (f.resolved n keyword filter r) =
      f.resolved n keyword filter (f.resolved n keyword filter r) := by
    rw [resolved, keywords_refreshed, KeywordStore.isTreeWide_mapRefs]
    exact congrArg (Option.getD · _) (now?_link f ⟨n.id, n.name, keyword, _, filter, _⟩)
  rw [hsame, resolved_resolved hids]

/-- **Linking again changes nothing** and reports the same. -/
theorem link_link : f.link.1.link = f.link := by
  have hfst : f.link.1.link.1 = f.link.1 := by
    have hlink : f.link.1.link.1 = (f.map f.refreshed).map f.link.1.refreshed := rfl
    rw [hlink, map_map]
    refine map_congr fun n _ => ?_
    have hkeywords : (f.link.1.refreshed (f.refreshed n)).keywords = (f.refreshed n).keywords := by
      rw [keywords_refreshed, keywords_refreshed, KeywordStore.mapRefs_mapRefs]
      refine KeywordStore.mapRefs_congr fun r _ => ?_
      exact resolved_link hids n r.1 r.2.1 r.2.2
    exact congrArg (fun keywords => { f.refreshed n with keywords }) hkeywords
  have hslots : (f.link.1.slots.filter fun s => (s.now? f.link.1).isNone) =
      f.slots.filter fun s => (s.now? f).isNone := by
    simp only [slots_link, now?_link, List.filter_map, Function.comp_def,
      Slot.now?_refreshed hids]
    refine (List.map_congr_left fun s hs => ?_).trans (List.map_id _)
    have hnone : s.now? f = none := by simpa using (List.mem_filter.1 hs).2
    rw [Slot.refreshed, hnone]
    rfl
  refine Prod.ext hfst ?_
  rw [link_snd, link_snd, hslots]

omit hids in
/-- **Where names are distinct, a name means the node that has it**, if this is seen or may be
anywhere. -/
theorem means_named_iff (hnames : f.names.Nodup) {from_ : NodeId} {treeWide : Bool} {name : String}
    (hne : name ≠ "") : f.Means from_ treeWide (.named name) n ↔
      n ∈ f.nodes ∧ n.isNamed name = true ∧ n.id ≠ from_ ∧
        (n ∈ f.visible from_ ∨ treeWide = true) := by
  constructor
  · intro h
    exact ⟨h.mem, h.isNamed, h.ne, h.seen⟩
  · rintro ⟨hn, hname, hother, hseen⟩
    -- In front of the node no other has its name.
    have hfirst : ∀ front : List Node, n ∉ front → (∀ m ∈ front, m ∈ f.nodes) →
        ∀ m ∈ front, m.id ≠ from_ → m.isNamed name = false := by
      intro front hnot hfront m hm _
      rw [← Bool.not_eq_true]
      intro hmname
      exact hnot (eq_of_isNamed hnames hne (hfront m hm) hn hmname hname ▸ hm)
    by_cases hvisible : n ∈ f.visible from_
    · obtain ⟨nearer, farther, hsplit, hnot⟩ := List.eq_append_cons_of_mem hvisible
      refine .nearest hsplit hother hname (hfirst nearer hnot fun m hm => ?_)
      have hmem : m ∈ f.visible from_ := by simp [hsplit, hm]
      exact Relocates.mem_of_mem_visible hmem
    · obtain ⟨front, back, hsplit, hnot⟩ := List.eq_append_cons_of_mem hn
      refine .first (hseen.resolve_left hvisible) ?_ hsplit hother hname
        (hfirst front hnot fun m hm => by simp [hsplit, hm])
      exact hfirst _ hvisible fun m hm => Relocates.mem_of_mem_visible hm

/-- **Linking brings up to date what resolves and reports what does not.** Changes applied one after
the other lead to the same tree, and linking again leaves it as it is. -/
theorem link_resolves_slots (hnames : f.names.Nodup) :
    (f.link.2 = .ok () ↔ ∀ s ∈ f.slots, s.Resolves f) ∧
    (∃ now : Node → String → NodeFilter → NodeRef → NodeRef,
      f.link.1 = f.map fun n => { n with keywords := n.keywords.mapRefs (now n) }) ∧
    List.Forall₂ (Slot.Linked f) f.slots f.link.1.slots ∧
    (∃ dangles : Slot → Bool, (∀ s, dangles s = true ↔ ¬ s.Resolves f) ∧
      f.link.2 = if (f.slots.filter dangles).isEmpty then .ok ()
        else .error (.readFailed ((f.slots.filter dangles).map Slot.problem))) ∧
    (∀ from_ treeWide name n, name ≠ "" → (f.Means from_ treeWide (.named name) n ↔
      n ∈ f.nodes ∧ n.isNamed name = true ∧ n.id ≠ from_ ∧
        (n ∈ f.visible from_ ∨ treeWide = true))) ∧
    ((∀ n ∈ f.nodes, n.keywords.HasDistinctNames) → f.updates.foldl applyUpdate f = f.link.1) ∧
    f.link.1.link = f.link := by
  -- What does not resolve is what has no node now.
  have hdangles : ∀ s : Slot, (s.now? f).isNone = true ↔ ¬ s.Resolves f := by
    intro s
    rw [← Slot.isSome_now?_iff hids, ← Option.not_isSome, Bool.not_eq_true', Bool.not_eq_true]
  refine ⟨?_, ⟨f.resolved, rfl⟩, ?_, ⟨_, hdangles, link_snd f⟩, ?_, ?_, link_link hids⟩
  · rw [link_snd]
    by_cases hempty : (f.slots.filter fun s => (s.now? f).isNone) = []
    · simp only [hempty, List.isEmpty_nil, if_true, true_iff]
      intro s hs
      have hkept := List.filter_eq_nil_iff.1 hempty s hs
      rwa [hdangles, not_not] at hkept
    · rw [if_neg (by simpa using hempty)]
      simp only [reduceCtorEq, false_iff]
      intro hall
      refine hempty (List.filter_eq_nil_iff.2 fun s hs => ?_)
      rw [hdangles, not_not]
      exact hall s hs
  · rw [slots_link, List.forall₂_map_right_iff]
    exact List.forall₂_same.2 fun s _ => Slot.linked_refreshed hids s
  · exact fun from_ treeWide name n hne => means_named_iff hnames hne
  · exact foldl_applyUpdate hids

end Identities

/-- Two references to one selection in different case, and one to a selection that is not there. -/
def waters : Forest :=
  cons { Node.ofType ⟨0⟩ .select with name := "Water" } nil <|
  cons { Node.ofType ⟨1⟩ .exclude with
    name := "Pairs"
    keywords := ⟨[⟨"SameSite", .nodes [.named "water", .named "WATER", .named "Ice"] .selection 2
      (some 3), true, false⟩], []⟩ } nil nil

/-- The selection that is there is found twice; the other is reported. -/
theorem link_waters :
    (waters.nodes.map Node.id).Nodup ∧ waters.names.Nodup ∧
    ¬ (∀ s ∈ waters.slots, s.Resolves waters) ∧
    waters.updates.foldl applyUpdate waters = waters.link.1 ∧
    waters.link.1.link = waters.link ∧
    waters.link.1.slots.map Slot.ref = [⟨"Water", some ⟨0⟩⟩, ⟨"Water", some ⟨0⟩⟩, .named "Ice"] := by
  have hids : (waters.nodes.map Node.id).Nodup := by decide
  have hnames : waters.names.Nodup := by decide +kernel
  have hstores : ∀ n ∈ waters.nodes, n.keywords.HasDistinctNames := by decide +kernel
  obtain ⟨hok, -, -, -, -, hupdates, hagain⟩ := link_resolves_slots hids hnames
  have hrefs : waters.link.1.slots.map Slot.ref =
      [⟨"Water", some ⟨0⟩⟩, ⟨"Water", some ⟨0⟩⟩, .named "Ice"] := by decide +kernel
  have hfails : waters.link.2.isOk = false := by decide +kernel
  refine ⟨hids, hnames, fun hall => ?_, hupdates hstores, hagain, hrefs⟩
  rw [hok.2 hall] at hfails
  cases hfails

end Forest

end SiteAnalysis
