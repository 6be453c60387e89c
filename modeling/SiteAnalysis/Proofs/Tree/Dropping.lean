import SiteAnalysis.Proofs.Keyword.Pruned
import SiteAnalysis.Proofs.Tree.Linking

set_option autoImplicit false

/-! # Dropping references

References that do not resolve are dropped one by one, after the others were brought up to date
(`Forest.dropStale`). Main statements:

* `Forest.dropAll_spec`: what is left of a tree when references are dropped,
  and which are told to be dropped.
* `Forest.dropStale_clears`: all references that are left resolve and are up to date, the others were
  told, and nothing else was changed.
-/

namespace SiteAnalysis

/-- A node with every reference changed or dropped. -/
def Node.prune (now : String → NodeFilter → NodeRef → Option NodeRef) (n : Node) : Node :=
  { n with keywords := n.keywords.prune now }

theorem Node.slots_prune (now : String → NodeFilter → NodeRef → Option NodeRef) (n : Node) :
    (n.prune now).slots = n.slots.filterMap fun s =>
      (now s.keyword s.filter s.ref).map fun r => { s with ref := r } := by
  simp [Node.slots, Node.prune, KeywordStore.refs_prune, List.map_filterMap, List.filterMap_map,
    Function.comp_def]

namespace Forest

variable {f : Forest} {n : Node} {s : Stale} {l : List Stale}

/-! ## References that are dropped one by one -/

/-- Whether a reference is the one that is to be dropped. -/
def Stale.marks (s : Stale) (id : NodeId) (keyword : String) (r : NodeRef) : Bool :=
  s.node = id && s.keyword = keyword && s.target = r

theorem Stale.marks_iff {s : Stale} {id : NodeId} {keyword : String} {r : NodeRef} :
    s.marks id keyword r = true ↔ s.node = id ∧ s.keyword = keyword ∧ s.target = r := by
  simp [marks, and_assoc]

/-- What is left of the references of a node when some are dropped. -/
def kept (l : List Stale) (n : Node) (keyword : String) (_ : NodeFilter) (r : NodeRef) :
    Option NodeRef :=
  if l.any (·.marks n.id keyword r) then none else some r

/-- A tree without some references. -/
def without (f : Forest) (l : List Stale) : Forest := f.map fun n => n.prune (kept l n)

/-- Whether a reference is there. -/
def Holds (f : Forest) (s : Stale) : Prop :=
  ∃ n ∈ f.nodes, n.id = s.node ∧ ∃ filter, (s.keyword, filter, s.target) ∈ n.keywords.refs

theorem keywords_without_of_not_marked (h : ∀ s ∈ l, s.node ≠ n.id) : n.prune (kept l n) = n := by
  refine congrArg (fun keywords => { n with keywords }) (KeywordStore.prune_eq_self fun r _ => ?_)
  unfold kept
  rw [if_neg]
  rw [Bool.not_eq_true, List.any_eq_false]
  intro s hs hmarks
  exact h s hs (Stale.marks_iff.1 hmarks).1

theorem without_nil (f : Forest) : f.without [] = f := by
  have hmap : f.without [] = f.map id :=
    map_congr fun n _ => keywords_without_of_not_marked (by simp)
  rw [hmap, map_id]

theorem without_without (f : Forest) (l l' : List Stale) :
    (f.without l).without l' = f.without (l ++ l') := by
  rw [without, without, map_map]
  refine map_congr fun n _ => ?_
  have hkept : ∀ keyword filter r, (kept l n keyword filter r).bind (kept l' n keyword filter) =
      kept (l ++ l') n keyword filter r := by
    intro keyword filter r
    unfold kept
    rw [List.any_append]
    cases l.any (·.marks n.id keyword r) <;> simp
  have hkeywords : (n.keywords.prune (kept l n)).prune (kept l' n) =
      n.keywords.prune (kept (l ++ l') n) := by
    rw [KeywordStore.prune_prune]
    exact KeywordStore.prune_congr fun r _ => hkept _ _ _
  exact congrArg (fun keywords => { n with keywords }) hkeywords

theorem ids_without (f : Forest) (l : List Stale) :
    (f.without l).nodes.map Node.id = f.nodes.map Node.id := by
  rw [without, nodes_map, List.map_map]
  rfl

/-- A reference is still there if it was not dropped. -/
theorem holds_without_iff {x : Stale} : (f.without l).Holds x ↔
    f.Holds x ∧ ∀ s ∈ l, s.marks x.node x.keyword x.target = false := by
  simp only [Holds, without, nodes_map, List.mem_map, exists_exists_and_eq_and, Node.prune,
    KeywordStore.refs_prune, List.mem_filterMap, Option.map_eq_some_iff]
  constructor
  · rintro ⟨n, hn, hid, filter, ⟨keyword, filter', r⟩, hr, r', hkept, heq⟩
    obtain ⟨rfl, rfl, rfl⟩ : x.keyword = keyword ∧ filter = filter' ∧ x.target = r' := by
      simp only [Prod.mk.injEq] at heq
      exact ⟨heq.1.symm, heq.2.1.symm, heq.2.2.symm⟩
    unfold kept at hkept
    split at hkept
    · cases hkept
    · next hnone =>
        obtain rfl := Option.some.inj hkept
        refine ⟨⟨n, hn, hid, filter, hr⟩, fun s hs => ?_⟩
        have hmarks := List.any_eq_false.1 (Bool.not_eq_true _ ▸ hnone) s hs
        simpa [hid] using hmarks
  · rintro ⟨⟨n, hn, hid, filter, hr⟩, hmarks⟩
    refine ⟨n, hn, hid, filter, _, hr, x.target, ?_, rfl⟩
    unfold kept
    rw [if_neg]
    rw [Bool.not_eq_true, List.any_eq_false]
    intro s hs
    dsimp only
    rw [hid, hmarks s hs]
    exact Bool.false_ne_true

section Dropping

variable (hids : (f.nodes.map Node.id).Nodup)
  (hstores : ∀ n ∈ f.nodes, n.keywords.HasDistinctNames)

/-- A reference that may be dropped: that of a keyword of a node. -/
def Names (f : Forest) (s : Stale) : Prop :=
  ∃ n ∈ f.nodes, n.id = s.node ∧ ∃ k ∈ n.keywords.keywords, k.name = s.keyword

omit hids hstores in
theorem names_without {f : Forest} {l : List Stale} (h : f.Names s) : (f.without l).Names s := by
  obtain ⟨n, hn, hid, k, hk, hname⟩ := h
  refine ⟨n.prune (kept l n), ?_, hid, _, List.mem_map.2 ⟨k, hk, rfl⟩, hname⟩
  rw [without, nodes_map]
  exact List.mem_map.2 ⟨n, hn, rfl⟩

include hids hstores

/-- **One reference is dropped.** -/
theorem dropAll_cons (hs : f.Names s) (rest : List Stale) :
    ∃ dropped : Bool, (dropped = true ↔ f.Holds s) ∧
      dropAll (s :: rest) f = ((dropAll rest (f.without [s])).1,
        if dropped then s :: (dropAll rest (f.without [s])).2
        else (dropAll rest (f.without [s])).2) := by
  obtain ⟨n, hn, hid, k, hk, hname⟩ := hs
  have hfind : f.find? s.node = some n := hid ▸ (find?_eq_some_iff hids).2 hn
  refine ⟨k.data.refs.any fun r => r.2 = s.target, ?_, ?_⟩
  · rw [List.any_eq_true]
    constructor
    · rintro ⟨⟨filter, r⟩, hr, heq⟩
      have heq : r = s.target := by simpa using heq
      refine ⟨n, hn, hid, filter, List.mem_flatMap.2 ⟨k, hk, List.mem_map.2 ⟨_, hr, ?_⟩⟩⟩
      rw [hname, heq]
    · rintro ⟨m, hm, hmid, filter, hr⟩
      obtain rfl := eq_of_id_eq hids hm hn (hmid.trans hid.symm)
      obtain ⟨k', hk', hr⟩ := List.mem_flatMap.1 hr
      obtain ⟨⟨filter', r⟩, hr, heq⟩ := List.mem_map.1 hr
      simp only [Prod.mk.injEq] at heq
      obtain ⟨hname', rfl, rfl⟩ := heq
      have hsame : k' = k := by
        have hk'' := KeywordStore.find?_name (hstores m hm) hk'
        rw [hname', ← hname, KeywordStore.find?_name (hstores m hm) hk] at hk''
        exact (Option.some.inj hk'').symm
      exact ⟨_, hsame ▸ hr, by simp⟩
  -- The same tree, whether one keyword of one node is emptied or all nodes are pruned of the
  -- reference.
  · let keywords := n.keywords.prune fun name _ r =>
      if name = k.name then KeywordData.without s.target r else some r
    have hupdate : (f.update s.node fun m => { m with keywords }) = f.without [s] := by
      refine map_congr fun m hm => ?_
      by_cases hmid : m.id = s.node
      · obtain rfl := eq_of_id_eq hids hm hn (hmid.trans hid.symm)
        rw [if_pos hmid]
        refine congrArg (fun keywords => { m with keywords }) ?_
        refine KeywordStore.prune_congr fun r _ => ?_
        simp only [kept, List.any_cons, List.any_nil, Bool.or_false, Stale.marks_iff, hname,
          KeywordData.without, hmid, true_and, eq_comm (a := s.keyword), eq_comm (a := s.target)]
        by_cases hkeyword : r.1 = s.keyword <;> simp [hkeyword]
      · rw [if_neg hmid]
        refine (keywords_without_of_not_marked ?_).symm
        simpa using Ne.symm hmid
    rw [dropAll, hfind]
    dsimp only
    rw [← hname, KeywordStore.dropRef_eq (hstores n hn) hk]
    dsimp only
    rw [hupdate]

/-- **What is left of a tree when references are dropped**, and which are told to be dropped: each
that was there, once. -/
theorem dropAll_spec (hnames : ∀ s ∈ l, f.Names s)
    (hdistinct : ∀ s ∈ l, ∀ x ∈ l, s.marks x.node x.keyword x.target = true → s = x) :
    (dropAll l f).1 = f.without l ∧ (dropAll l f).2.Nodup ∧
      ∀ x, x ∈ (dropAll l f).2 ↔ x ∈ l ∧ f.Holds x := by
  induction l generalizing f with
  | nil => exact ⟨(without_nil f).symm, List.nodup_nil, by simp [dropAll]⟩
  | cons s rest ih =>
      obtain ⟨hs, hrest⟩ := List.forall_mem_cons.1 hnames
      have hids' : ((f.without [s]).nodes.map Node.id).Nodup := by rwa [ids_without]
      have hstores' : ∀ n ∈ (f.without [s]).nodes, n.keywords.HasDistinctNames := by
        rw [without, nodes_map]
        exact List.forall_mem_map.2 fun n hn => KeywordStore.hasDistinctNames_prune _ (hstores n hn)
      obtain ⟨htree, hnodup, hmem⟩ := ih hids' hstores' (fun x hx => names_without (hrest x hx))
        fun x hx y hy => hdistinct x (by simp [hx]) y (by simp [hy])
      obtain ⟨dropped, hdropped, hcons⟩ := dropAll_cons hids hstores hs rest
      have hagain : ∀ x, x ∈ (dropAll rest (f.without [s])).2 ↔
          x ∈ rest ∧ f.Holds x ∧ s.marks x.node x.keyword x.target = false := by
        intro x
        rw [hmem, holds_without_iff, List.forall_mem_singleton]
      have hself : s ∉ (dropAll rest (f.without [s])).2 := by
        rw [hagain]
        rintro ⟨-, -, hmarks⟩
        exact absurd (Stale.marks_iff.2 ⟨rfl, rfl, rfl⟩) (by rw [hmarks]; exact Bool.false_ne_true)
      rw [hcons]
      refine ⟨?_, ?_, fun x => ?_⟩
      · rw [htree, without_without, List.singleton_append]
      · dsimp only
        split
        · exact List.nodup_cons.2 ⟨hself, hnodup⟩
        · exact hnodup
      -- A reference that was dropped before is the same one.
      · have hother : x ∈ rest → f.Holds x → x ≠ s →
            s.marks x.node x.keyword x.target = false := by
          intro hx _ hne
          rw [← Bool.not_eq_true]
          exact fun hmarks => hne (hdistinct s (by simp) x (by simp [hx]) hmarks).symm
        dsimp only
        by_cases hx : x = s
        · subst hx
          cases hd : dropped with
          | true => simp [hdropped.1 hd]
          | false =>
              have hnot : ¬ f.Holds x := fun hholds => by
                rw [hdropped.2 hholds] at hd
                cases hd
              simp [hnot, hself]
        · have hiff : x ∈ (dropAll rest (f.without [s])).2 ↔ x ∈ rest ∧ f.Holds x := by
            rw [hagain]
            exact ⟨fun h => ⟨h.1, h.2.1⟩, fun h => ⟨h.1, h.2, hother h.1 h.2 hx⟩⟩
          cases dropped <;> simp [hiff, hx]

end Dropping

/-! ## References that do not resolve -/

theorem mem_slots_iff {s : Slot} : s ∈ f.slots ↔ ∃ n ∈ f.nodes, ∃ k ∈ n.keywords.keywords,
    ∃ r ∈ k.data.refs, s = ⟨n.id, n.name, k.name, n.keywords.isTreeWide k.name, r.1, r.2⟩ := by
  simp only [slots, List.mem_flatMap, Node.slots, KeywordStore.refs, List.mem_map, eq_comm (a := s)]
  constructor
  · rintro ⟨n, hn, _, ⟨k, hk, r, hr, rfl⟩, rfl⟩
    exact ⟨n, hn, k, hk, r, hr, rfl⟩
  · rintro ⟨n, hn, k, hk, r, hr, rfl⟩
    exact ⟨n, hn, _, ⟨k, hk, r, hr, rfl⟩, rfl⟩

theorem holds_stale {s : Slot} (hs : s ∈ f.slots) : f.Holds s.stale := by
  obtain ⟨n, hn, k, hk, r, hr, rfl⟩ := mem_slots_iff.1 hs
  exact ⟨n, hn, rfl, r.1, List.mem_flatMap.2 ⟨k, hk, List.mem_map.2 ⟨r, hr, rfl⟩⟩⟩

theorem names_stale {s : Slot} (hs : s ∈ f.slots) : f.Names s.stale := by
  obtain ⟨n, hn, k, hk, r, -, rfl⟩ := mem_slots_iff.1 hs
  exact ⟨n, hn, rfl, k, hk, rfl⟩

/-- What is left of the references of a node if those that do not resolve are dropped. -/
def pruned (f : Forest) (n : Node) : Node :=
  n.prune fun keyword filter r => f.resolve? n.id (n.keywords.isTreeWide keyword) filter r

/-- A slot that does not resolve is one of the linked tree. -/
theorem mem_slots_link {s : Slot} (hs : s ∈ f.slots) (hnow : s.now? f = none) :
    s ∈ f.link.1.slots := by
  rw [slots_link]
  refine List.mem_map.2 ⟨s, hs, ?_⟩
  rw [Slot.refreshed, hnow]
  rfl

theorem mem_stale_iff {x : Stale} :
    x ∈ f.relink.2 ↔ ∃ s ∈ f.slots, s.now? f = none ∧ x = s.stale := by
  rw [stale_relink]
  simp only [List.mem_map, List.mem_filter, Option.isNone_iff_eq_none, and_assoc, eq_comm (a := x)]

theorem slots_map_pruned (f : Forest) : (f.map f.pruned).slots =
    (f.slots.filter fun s => (s.now? f).isSome).map (Slot.refreshed f) := by
  have hnode : ∀ n : Node, (f.pruned n).slots =
      (n.slots.filter fun s => (s.now? f).isSome).map (Slot.refreshed f) := by
    intro n
    rw [pruned, Node.slots_prune, ← List.filterMap_eq_filter, List.map_filterMap]
    refine List.filterMap_congr fun s hs => ?_
    have hnow : f.resolve? n.id (n.keywords.isTreeWide s.keyword) s.filter s.ref = s.now? f := by
      obtain ⟨r, -, rfl⟩ := List.mem_map.1 hs
      rfl
    rw [hnow]
    cases hres : s.now? f with
    | none => simp [Option.guard, hres]
    | some r => simp [Option.guard, Slot.refreshed, hres]
  simp only [slots, nodes_map, List.flatMap_map, hnode, List.filter_flatMap, List.map_flatMap]

/-- What is left should be what it is. -/
theorem now?_map_pruned (hids : (f.nodes.map Node.id).Nodup) {s : Slot}
    (hs : s ∈ (f.map f.pruned).slots) : s.now? (f.map f.pruned) = some s.ref := by
  rw [slots_map_pruned] at hs
  obtain ⟨s₀, hs₀, rfl⟩ := List.mem_map.1 hs
  have hsome : (s₀.now? f).isSome = true := (List.mem_filter.1 hs₀).2
  obtain ⟨r, hr⟩ := Option.isSome_iff_exists.1 hsome
  have hmap : (s₀.refreshed f).now? (f.map f.pruned) = (s₀.refreshed f).now? f :=
    resolve?_map (fun n => (rfl : (f.pruned n).id = n.id)) (fun _ => rfl) (fun _ => rfl) f _ _ _ _
  rw [hmap, Slot.now?_refreshed hids, Slot.refreshed, hr]
  rfl

/-- Where all slots are up to date, nothing is to be done. -/
theorem dropStale_eq_self (h : ∀ s ∈ f.slots, s.now? f = some s.ref) : f.dropStale = (f, []) := by
  have hstale : f.relink.2 = [] := by
    rw [stale_relink, List.map_eq_nil_iff, List.filter_eq_nil_iff]
    intro s hs
    simp [h s hs]
  have htree : f.relink.1 = f := by
    have hmap : f.relink.1 = f.map id := by
      refine map_congr fun n hn => ?_
      have hkeywords : n.keywords.mapRefs (f.resolved n) = n.keywords := by
        rw [KeywordStore.mapRefs_eq_prune]
        refine KeywordStore.prune_eq_self fun r hr => ?_
        have hs : (⟨n.id, n.name, r.1, n.keywords.isTreeWide r.1, r.2.1, r.2.2⟩ : Slot) ∈ f.slots :=
          List.mem_flatMap.2 ⟨n, hn, List.mem_map.2 ⟨r, hr, rfl⟩⟩
        have hnow : f.resolve? n.id (n.keywords.isTreeWide r.1) r.2.1 r.2.2 = some r.2.2 := h _ hs
        rw [resolved, hnow, Option.getD_some]
      exact congrArg (fun keywords => { n with keywords }) hkeywords
    rw [hmap, map_id]
  have hdrop : f.dropStale = dropAll f.relink.2 f.relink.1 := rfl
  rw [hdrop, hstale, htree]
  rfl

section Identities

variable (hids : (f.nodes.map Node.id).Nodup)
  (hstores : ∀ n ∈ f.nodes, n.keywords.HasDistinctNames)
include hids hstores

/-- Slots of one keyword of a node have the same filter and reach equally far. -/
theorem slots_agree {s s' : Slot} (hs : s ∈ f.slots) (hs' : s' ∈ f.slots)
    (hnode : s.node = s'.node) (hkeyword : s.keyword = s'.keyword) :
    { s with ref := s'.ref } = s' := by
  obtain ⟨n, hn, k, hk, r, hr, rfl⟩ := mem_slots_iff.1 hs
  obtain ⟨n', hn', k', hk', r', hr', rfl⟩ := mem_slots_iff.1 hs'
  obtain rfl := eq_of_id_eq hids hn hn' hnode
  obtain rfl : k = k' := by
    have hfind := KeywordStore.find?_name (hstores n hn) hk
    dsimp only at hkeyword
    rw [hkeyword, KeywordStore.find?_name (hstores n hn) hk'] at hfind
    exact (Option.some.inj hfind).symm
  have hfilter : r.1 = r'.1 := KeywordData.filter_eq hr hr'
  rw [hfilter]

/-- **A reference that was brought up to date is not dropped**: none that does not resolve is equal
to it. -/
theorem kept_refreshed {s : Slot} (hs : s ∈ f.slots) {n : Node} (hid : n.id = s.node) :
    kept f.relink.2 n s.keyword s.filter (s.refreshed f).ref = s.now? f := by
  unfold kept
  cases hnow : s.now? f with
  | none =>
      rw [if_pos]
      refine List.any_eq_true.2 ⟨s.stale, mem_stale_iff.2 ⟨s, hs, hnow, rfl⟩, ?_⟩
      rw [Stale.marks_iff, Slot.refreshed, hnow]
      exact ⟨hid.symm, rfl, rfl⟩
  | some r =>
      have href : (s.refreshed f).ref = r := by
        rw [Slot.refreshed, hnow]
        rfl
      rw [href, if_neg]
      rw [Bool.not_eq_true, List.any_eq_false]
      intro x hx hmarks
      obtain ⟨s', hs', hnone, rfl⟩ := mem_stale_iff.1 hx
      obtain ⟨hnode, hkeyword, htarget⟩ := Stale.marks_iff.1 hmarks
      have hsame := slots_agree hids hstores hs hs' (hid.symm.trans hnode.symm) hkeyword.symm
      have hagain : Slot.now? f { s with ref := r } = some r := resolve?_idem hids hnow
      have hr : s'.ref = r := htarget
      rw [← hr, hsame, hnone] at hagain
      cases hagain

/-- **What dropping leaves of a tree.** -/
theorem dropStale_fst : f.dropStale.1 = f.map f.pruned ∧ f.dropStale.2.Nodup ∧
    ∀ x, x ∈ f.dropStale.2 ↔ x ∈ f.relink.2 := by
  have hids' : (f.link.1.nodes.map Node.id).Nodup := by
    have hsame : f.link.1.nodes.map Node.id = f.nodes.map Node.id := by
      simp only [link, relink, nodes_map, List.map_map]
      rfl
    rwa [hsame]
  have hstores' : ∀ n ∈ f.link.1.nodes, n.keywords.HasDistinctNames := by
    simp only [link, relink, nodes_map]
    exact List.forall_mem_map.2 fun n hn => List.pairwise_map.2 (hstores n hn)
  have hslots : ∀ x ∈ f.relink.2, ∃ s ∈ f.link.1.slots, x = s.stale := by
    intro x hx
    obtain ⟨s, hs, hnow, rfl⟩ := mem_stale_iff.1 hx
    exact ⟨s, mem_slots_link hs hnow, rfl⟩
  -- No two of the references to drop have one place, so the order does not matter.
  have hdistinct : ∀ x ∈ f.relink.2, ∀ y ∈ f.relink.2,
      x.marks y.node y.keyword y.target = true → x = y := by
    intro x hx y hy hmarks
    obtain ⟨s, hs, -, rfl⟩ := mem_stale_iff.1 hx
    obtain ⟨s', hs', -, rfl⟩ := mem_stale_iff.1 hy
    obtain ⟨hnode, hkeyword, htarget⟩ := Stale.marks_iff.1 hmarks
    have hsame := slots_agree hids hstores hs hs' hnode hkeyword
    have hrefs : s.ref = s'.ref := htarget
    rw [← hrefs] at hsame
    rw [← hsame]
  obtain ⟨htree, hnodup, hmem⟩ := dropAll_spec hids' hstores' (l := f.relink.2)
    (fun x hx => by
      obtain ⟨s, hs, rfl⟩ := hslots x hx
      exact names_stale hs) hdistinct
  have hdrop : f.dropStale = dropAll f.relink.2 f.link.1 := rfl
  rw [hdrop]
  refine ⟨?_, hnodup, fun x => ?_⟩
  · rw [htree]
    have hlinked : f.link.1.without f.relink.2 =
        (f.map f.refreshed).map fun n => n.prune (kept f.relink.2 n) := rfl
    rw [hlinked, map_map]
    refine map_congr fun n hn => congrArg (fun keywords => { n with keywords }) ?_
    have hkeywords : (f.refreshed n).keywords.prune (kept f.relink.2 (f.refreshed n)) =
        (n.keywords.mapRefs (f.resolved n)).prune (kept f.relink.2 (f.refreshed n)) := rfl
    rw [hkeywords, KeywordStore.mapRefs_eq_prune, KeywordStore.prune_prune]
    refine KeywordStore.prune_congr fun r hr => ?_
    rw [Option.bind_some]
    have hs : (⟨n.id, n.name, r.1, n.keywords.isTreeWide r.1, r.2.1, r.2.2⟩ : Slot) ∈ f.slots :=
      List.mem_flatMap.2 ⟨n, hn, List.mem_map.2 ⟨r, hr, rfl⟩⟩
    exact kept_refreshed hids hstores hs (n := f.refreshed n) rfl
  · rw [hmem]
    refine and_iff_left_of_imp fun hx => ?_
    obtain ⟨s, hs, rfl⟩ := hslots x hx
    exact holds_stale hs

end Identities

/-- **After references were dropped all that are left resolve** and are up to date. Those that did
resolve are still there in the same order, the others were told, once each; a keyword without any
left is not set any more, and nothing else was changed. To do it again changes nothing. -/
theorem dropStale_clears (hids : (f.nodes.map Node.id).Nodup)
    (hstores : ∀ n ∈ f.nodes, n.keywords.HasDistinctNames) :
    (∃ now : Node → String → NodeFilter → NodeRef → Option NodeRef,
      (∀ n keyword filter r r', now n keyword filter r = some r' ↔ ∃ m,
        Slot.ResolvesTo f ⟨n.id, n.name, keyword, n.keywords.isTreeWide keyword, filter, r⟩ m ∧
          r' = ⟨m.name, some m.id⟩) ∧
      f.dropStale.1 = f.map fun n => { n with keywords := n.keywords.prune (now n) }) ∧
    (∃ resolves : Slot → Bool, (∀ s, resolves s = true ↔ s.Resolves f) ∧
      List.Forall₂ (fun s s' => ∃ n, s.ResolvesTo f n ∧ s' = s.pointTo n)
        (f.slots.filter resolves) f.dropStale.1.slots) ∧
    (∀ s ∈ f.dropStale.1.slots, ∃ n, s.ResolvesTo f.dropStale.1 n ∧ s.ref = ⟨n.name, some n.id⟩) ∧
    f.dropStale.2.Nodup ∧
    (∀ x, x ∈ f.dropStale.2 ↔ ∃ s ∈ f.slots, ¬ s.Resolves f ∧ x = s.stale) ∧
    f.dropStale = dropAll f.relink.2 (f.updates.foldl applyUpdate f) ∧
    f.dropStale.1.dropStale = (f.dropStale.1, []) := by
  obtain ⟨htree, hnodup, hmem⟩ := dropStale_fst hids hstores
  have hids' : ((f.map f.pruned).nodes.map Node.id).Nodup := by
    rw [nodes_map, List.map_map]
    exact hids
  have hresolves : ∀ s : Slot, s.now? f = none ↔ ¬ s.Resolves f := fun s => by
    rw [← Slot.isSome_now?_iff hids, Bool.not_eq_true, Option.isSome_eq_false_iff,
      Option.isNone_iff_eq_none]
  have hnow : ∀ s ∈ (f.map f.pruned).slots, s.now? (f.map f.pruned) = some s.ref :=
    fun s hs => now?_map_pruned hids hs
  rw [htree]
  refine ⟨⟨_, fun n keyword filter r r' => ?_, rfl⟩, ⟨fun s => (s.now? f).isSome,
    fun s => Slot.isSome_now?_iff hids, ?_⟩, fun s hs => ?_, hnodup, fun x => ?_, ?_, ?_⟩
  · exact Slot.now?_eq_some_iff hids
      (s := ⟨n.id, n.name, keyword, n.keywords.isTreeWide keyword, filter, r⟩)
  · rw [slots_map_pruned, List.forall₂_map_right_iff]
    refine List.forall₂_same.2 fun s hs => ?_
    obtain ⟨n, hn⟩ := (Slot.isSome_now?_iff hids).1 (List.mem_filter.1 hs).2
    exact ⟨n, hn, Slot.refreshed_eq hids hn⟩
  · exact (Slot.now?_eq_some_iff hids').1 (hnow s hs)
  · rw [hmem, mem_stale_iff]
    simp only [hresolves]
  · rw [foldl_applyUpdate hids hstores]
    rfl
  · exact dropStale_eq_self hnow

/-- The selection that is not there is told and dropped, once; a second call finds nothing. -/
theorem dropStale_waters :
    (waters.nodes.map Node.id).Nodup ∧ (∀ n ∈ waters.nodes, n.keywords.HasDistinctNames) ∧
    waters.dropStale.2 = [⟨⟨1⟩, "Pairs", "SameSite", .named "Ice"⟩] ∧
    waters.dropStale.1.slots.map Slot.ref = [⟨"Water", some ⟨0⟩⟩, ⟨"Water", some ⟨0⟩⟩] ∧
    waters.dropStale.1.dropStale = (waters.dropStale.1, []) := by
  have hids : (waters.nodes.map Node.id).Nodup := by decide
  have hstores : ∀ n ∈ waters.nodes, n.keywords.HasDistinctNames := by decide +kernel
  obtain ⟨-, -, -, -, -, -, hagain⟩ := dropStale_clears hids hstores
  exact ⟨hids, hstores, rfl, by decide +kernel, hagain⟩

end Forest

end SiteAnalysis
