import SiteAnalysis.Proofs.Tree.Linked
import SiteAnalysis.Proofs.Tree.Meaning

set_option autoImplicit false

/-! # References brought up to date one by one

All references can be brought up to date at once (`Forest.refreshed`), or one by one: first it is
found out what every reference should be, and then, for one change after the other, the first
reference of the keyword is changed that is equal to the old one (`Forest.applyUpdate`). A change may
find a reference that was changed before; it does not, since a reference that was brought up to date
means the same node. Main statement:

* `Forest.foldl_applyUpdate`: both ways lead to the same tree.
-/

namespace SiteAnalysis

/-! ## Changes of the first equal item -/

section

variable {α : Type} {p : α → Bool} {f : α → α} {front back : List α} {a : α}

theorem updateFirst_append_cons (hfront : ∀ b ∈ front, p b = false) (ha : p a = true) :
    updateFirst p f (front ++ a :: back) = front ++ f a :: back := by
  induction front with
  | nil => simp [updateFirst, ha]
  | cons b front ih =>
      obtain ⟨hb, hfront⟩ := List.forall_mem_cons.1 hfront
      simp [updateFirst, hb, ih hfront]

theorem updateFirst_eq_self {l : List α} (h : ∀ b ∈ l, p b = true → f b = b) :
    updateFirst p f l = l := by
  induction l with
  | nil => rfl
  | cons b l ih =>
      obtain ⟨hb, hl⟩ := List.forall_mem_cons.1 h
      rw [updateFirst]
      split
      · next hp => rw [hb hp]
      · rw [ih hl]

/-- **Items that a map changes are changed one by one**, the first equal one each time. -/
theorem foldl_updateFirst [DecidableEq α] {now : α → α} {l : List α}
    (hidem : ∀ a ∈ l, now (now a) = now a) :
    (l.filter fun a => now a ≠ a).foldl (fun l a => updateFirst (· = a) (fun _ => now a) l) l =
      l.map now := by
  -- The items in front were looked at, those behind stand as they were.
  suffices hall : ∀ done rest : List α, (∀ a ∈ done ++ rest, now (now a) = now a) →
      (rest.filter fun a => now a ≠ a).foldl (fun l a => updateFirst (· = a) (fun _ => now a) l)
        (done.map now ++ rest) = (done ++ rest).map now from hall [] l hidem
  intro done rest
  induction rest generalizing done with
  | nil => simp
  | cons a rest ih =>
      intro hidem
      have hnext := ih (done ++ [a]) (by simpa using hidem)
      rw [List.map_append, List.map_singleton, List.append_assoc, List.singleton_append,
        List.append_assoc, List.singleton_append] at hnext
      by_cases ha : now a = a
      · rw [List.filter_cons_of_neg (by simpa using ha)]
        rw [ha] at hnext
        exact hnext
      · rw [List.filter_cons_of_pos (by simpa using ha), List.foldl_cons,
          updateFirst_append_cons ?_ (by simp)]
        · exact hnext
        -- What an item became is none that is to change.
        · intro b hb
          obtain ⟨c, hc, rfl⟩ := List.mem_map.1 hb
          rw [decide_eq_false_iff_not]
          rintro rfl
          exact ha (hidem c (List.mem_append_left _ hc))

end

/-! ## Keywords -/

namespace KeywordData

/-- The data with the first reference replaced that is the old one. -/
def replaceRef (old new : NodeRef) : KeywordData → KeywordData
  | node target filter => node (target.map fun r => if r = old then new else r) filter
  | observable target index filter =>
    observable (target.map fun r => if r = old then new else r) index filter
  | nodes targets filter min max =>
    nodes (updateFirst (· = old) (fun _ => new) targets) filter min max
  | d => d

/-- The changes that bring the references in the data up to date. -/
def updates (now : NodeFilter → NodeRef → NodeRef) (d : KeywordData) : List (NodeRef × NodeRef) :=
  d.refs.filterMap fun (filter, r) => if now filter r = r then none else some (r, now filter r)

/-- Only references that are there are replaced. -/
theorem replaceRef_of_not_mem {d : KeywordData} {old new : NodeRef} (h : ∀ r ∈ d.refs, r.2 ≠ old) :
    d.replaceRef old new = d := by
  cases d with
  | node target filter =>
      cases target with
      | none => rfl
      | some r =>
          have hr : r ≠ old := h (filter, r) (by simp [refs])
          simp [replaceRef, hr]
  | observable target index filter =>
      cases target with
      | none => rfl
      | some r =>
          have hr : r ≠ old := h (filter, r) (by simp [refs])
          simp [replaceRef, hr]
  | nodes targets filter min max =>
      have hall : ∀ r ∈ targets, r ≠ old := fun r hr => h (filter, r) (by simpa [refs] using hr)
      rw [replaceRef, updateFirst_eq_self fun r hr heq => absurd (by simpa using heq) (hall r hr)]
  | _ => rfl

/-- **The changes bring all references up to date.** -/
theorem foldl_replaceRef {now : NodeFilter → NodeRef → NodeRef} {d : KeywordData}
    (hidem : ∀ r ∈ d.refs, now r.1 (now r.1 r.2) = now r.1 r.2) :
    (d.updates now).foldl (fun d u => d.replaceRef u.1 u.2) d = d.mapRefs now := by
  cases d with
  | node target filter =>
      cases target with
      | none => rfl
      | some r => by_cases hr : now filter r = r <;> simp [updates, refs, mapRefs, replaceRef, hr]
  | observable target index filter =>
      cases target with
      | none => rfl
      | some r => by_cases hr : now filter r = r <;> simp [updates, refs, mapRefs, replaceRef, hr]
  | nodes targets filter min max =>
      have hupdates : (nodes targets filter min max).updates now =
          (targets.filter fun r => now filter r ≠ r).map fun r => (r, now filter r) := by
        rw [updates, refs, List.filterMap_map, ← List.filterMap_eq_filter, List.map_filterMap]
        refine List.filterMap_congr fun r _ => ?_
        by_cases hr : now filter r = r <;> simp [hr, Option.guard]
      have hfold : ∀ (l : List NodeRef) (targets : List NodeRef),
          l.foldl (fun d r => replaceRef r (now filter r) d) (nodes targets filter min max) =
            nodes (l.foldl (fun l r => updateFirst (· = r) (fun _ => now filter r) l) targets)
              filter min max := by
        intro l
        induction l with
        | nil => exact fun _ => rfl
        | cons r l ih => exact fun targets => ih _
      rw [hupdates, List.foldl_map, hfold, foldl_updateFirst]
      · rfl
      · exact fun r hr => hidem (filter, r) (by simpa [refs] using hr)
  | _ => rfl

end KeywordData

namespace KeywordStore

/-- The store with the first reference of a keyword replaced that is the old one. -/
def replaceRef (s : KeywordStore) (keyword : String) (old new : NodeRef) : KeywordStore :=
  let holds := fun k : Keyword => k.name = keyword && k.data.refs.any fun r => r.2 = old
  { s with
    keywords := updateFirst holds (fun k => { k with data := k.data.replaceRef old new }) s.keywords }

/-- The changes that bring all references of a store up to date, each with its keyword. -/
def updates (now : String → NodeFilter → NodeRef → NodeRef) (s : KeywordStore) :
    List (String × NodeRef × NodeRef) :=
  s.keywords.flatMap fun k => (k.data.updates (now k.name)).map (k.name, ·)

/-- Where names are distinct, a reference is replaced in the keyword of its name. -/
theorem replaceRef_append {front back : List Keyword} {k : Keyword}
    (deprecated : List (String × String)) (hfront : ∀ b ∈ front, b.name ≠ k.name)
    (hback : ∀ b ∈ back, b.name ≠ k.name) (old new : NodeRef) :
    replaceRef ⟨front ++ k :: back, deprecated⟩ k.name old new =
      ⟨front ++ { k with data := k.data.replaceRef old new } :: back, deprecated⟩ := by
  refine congrArg (fun keywords => KeywordStore.mk keywords deprecated) ?_
  cases hany : k.data.refs.any fun r => r.2 = old with
  | true => exact updateFirst_append_cons (fun b hb => by simp [hfront b hb]) (by simp [hany])
  | false =>
      have hdata : k.data.replaceRef old new = k.data :=
        KeywordData.replaceRef_of_not_mem (by simpa using hany)
      rw [hdata]
      refine updateFirst_eq_self fun b hb hmatch => ?_
      have hname : b.name = k.name := by
        simp only [Bool.and_eq_true, decide_eq_true_eq] at hmatch
        exact hmatch.1
      rcases List.mem_append.1 hb with hb | hb
      · exact absurd hname (hfront b hb)
      · rcases List.mem_cons.1 hb with rfl | hb
        · rw [hdata]
        · exact absurd hname (hback b hb)

/-- So are several, one after the other. -/
theorem foldl_replaceRef_append {front back : List Keyword} {k : Keyword}
    (deprecated : List (String × String)) (hfront : ∀ b ∈ front, b.name ≠ k.name)
    (hback : ∀ b ∈ back, b.name ≠ k.name) (us : List (NodeRef × NodeRef)) (data : KeywordData) :
    us.foldl (fun s u => replaceRef s k.name u.1 u.2)
        ⟨front ++ { k with data } :: back, deprecated⟩ =
      ⟨front ++ { k with data := us.foldl (fun d u => d.replaceRef u.1 u.2) data } :: back,
        deprecated⟩ := by
  induction us generalizing data with
  | nil => rfl
  | cons u us ih =>
      have hone := replaceRef_append (k := { k with data }) deprecated hfront hback u.1 u.2
      rw [List.foldl_cons, List.foldl_cons, hone, ih]

/-- **The changes bring all references of a store up to date.** -/
theorem foldl_replaceRef {now : String → NodeFilter → NodeRef → NodeRef} {s : KeywordStore}
    (hdistinct : s.HasDistinctNames)
    (hidem : ∀ r ∈ s.refs, now r.1 r.2.1 (now r.1 r.2.1 r.2.2) = now r.1 r.2.1 r.2.2) :
    (s.updates now).foldl (fun s u => s.replaceRef u.1 u.2.1 u.2.2) s = s.mapRefs now := by
  obtain ⟨keywords, deprecated⟩ := s
  have hnames : keywords.Pairwise fun k k' => k.name ≠ k'.name := by
    refine List.Pairwise.imp (fun {k k'} hne heq => ?_) hdistinct
    rw [heq, sameName_refl] at hne
    cases hne
  let refresh : Keyword → Keyword := fun k => { k with data := k.data.mapRefs (now k.name) }
  have hkidem : ∀ k ∈ keywords, ∀ r ∈ k.data.refs,
      now k.name r.1 (now k.name r.1 r.2) = now k.name r.1 r.2 := fun k hk r hr =>
    hidem (k.name, r) (List.mem_flatMap.2 ⟨k, hk, List.mem_map.2 ⟨r, hr, rfl⟩⟩)
  -- The keywords in front are up to date, those behind stand as they were.
  suffices hall : ∀ done rest : List Keyword, (done ++ rest).Pairwise (fun k k' => k.name ≠ k'.name) →
      (∀ k ∈ rest, ∀ r ∈ k.data.refs,
        now k.name r.1 (now k.name r.1 r.2) = now k.name r.1 r.2) →
      (updates now ⟨rest, deprecated⟩).foldl (fun s u => s.replaceRef u.1 u.2.1 u.2.2)
        (⟨done.map refresh ++ rest, deprecated⟩ : KeywordStore) =
        ⟨(done ++ rest).map refresh, deprecated⟩ from
    hall [] keywords hnames hkidem
  intro done rest
  induction rest generalizing done with
  | nil => simp [updates]
  | cons k rest ih =>
      intro hnames hkidem
      obtain ⟨hk, hrest⟩ := List.forall_mem_cons.1 hkidem
      obtain ⟨-, hbehind, hacross⟩ := List.pairwise_append.1 hnames
      have hfront : ∀ b ∈ done.map refresh, b.name ≠ k.name := by
        intro b hb
        obtain ⟨c, hc, rfl⟩ := List.mem_map.1 hb
        exact hacross c hc k (by simp)
      have hback : ∀ b ∈ rest, b.name ≠ k.name :=
        fun b hb => (((List.pairwise_cons.1 hbehind).1) b hb).symm
      have hnext := ih (done ++ [k]) (by simpa using hnames) hrest
      have hfirst := foldl_replaceRef_append deprecated hfront hback
        (k.data.updates (now k.name)) k.data
      rw [KeywordData.foldl_replaceRef hk] at hfirst
      rw [updates, List.flatMap_cons, List.foldl_append, List.foldl_map, hfirst]
      rw [List.map_append, List.map_singleton, List.append_assoc, List.append_assoc] at hnext
      exact hnext

end KeywordStore

namespace Forest

variable {f : Forest} {n : Node}

/-! ## Trees -/

/-- **A change of a reference**: that of a keyword of a node which is equal to the old one. -/
structure RefUpdate where
  node : NodeId
  keyword : String
  old : NodeRef
  new : NodeRef

/-- The changes to the references of a node. -/
def updatesOf (f : Forest) (n : Node) : List RefUpdate :=
  n.keywords.refs.filterMap fun (keyword, filter, r) =>
    match f.resolve? n.id (n.keywords.isTreeWide keyword) filter r with
    | some r' => if r' = r then none else some ⟨n.id, keyword, r, r'⟩
    | none => none

/-- **The changes that bring all references up to date**, as the tree stands. -/
def updates (f : Forest) : List RefUpdate := f.nodes.flatMap f.updatesOf

/-- A node with one reference changed. -/
def RefUpdate.apply (u : RefUpdate) (n : Node) : Node :=
  { n with keywords := n.keywords.replaceRef u.keyword u.old u.new }

/-- **The tree with one reference changed.** -/
def applyUpdate (f : Forest) (u : RefUpdate) : Forest := f.update u.node u.apply

/-- Changes act on the nodes one by one. -/
theorem foldl_applyUpdate_eq_map (us : List RefUpdate) (f : Forest) :
    us.foldl applyUpdate f =
      f.map fun n => (us.filter (·.node = n.id)).foldl (fun n u => u.apply n) n := by
  induction us generalizing f with
  | nil => exact (map_id f).symm
  | cons u us ih =>
      rw [List.foldl_cons, ih, applyUpdate, update, map_map]
      refine map_congr fun n _ => ?_
      have hid : (u.apply n).id = n.id := rfl
      by_cases hn : n.id = u.node
      · simp [hn, hid]
      · simp [hn, Ne.symm hn]

/-- Of the changes to all nodes those to one node remain, where identities are distinct. -/
theorem filter_flatMap_updatesOf {l : List Node} (hids : (l.map Node.id).Nodup) (hn : n ∈ l) :
    (l.flatMap f.updatesOf).filter (·.node = n.id) = f.updatesOf n := by
  -- A change has the identity of the node it is made to.
  have hnode : ∀ m, ∀ u ∈ f.updatesOf m, u.node = m.id := by
    intro m u hu
    obtain ⟨r, -, hr⟩ := List.mem_filterMap.1 hu
    dsimp only at hr
    cases hres : f.resolve? m.id (m.keywords.isTreeWide r.1) r.2.1 r.2.2 with
    | none =>
        rw [hres] at hr
        cases hr
    | some r' =>
        rw [hres, Option.ite_none_left_eq_some] at hr
        obtain rfl := Option.some.inj hr.2
        rfl
  induction l with
  | nil => cases hn
  | cons m l ih =>
      obtain ⟨hm, hids⟩ := List.nodup_cons.1 hids
      rw [List.flatMap_cons, List.filter_append]
      rcases List.mem_cons.1 hn with rfl | hn
      · have hown : (f.updatesOf n).filter (·.node = n.id) = f.updatesOf n :=
          List.filter_eq_self.2 fun u hu => by simpa using hnode n u hu
        have hothers : (l.flatMap f.updatesOf).filter (·.node = n.id) = [] := by
          refine List.filter_eq_nil_iff.2 fun u hu heq => ?_
          obtain ⟨k, hk, hu⟩ := List.mem_flatMap.1 hu
          have hkid : k.id = n.id := (hnode k u hu).symm.trans (by simpa using heq)
          exact hm (hkid ▸ List.mem_map_of_mem hk)
        rw [hown, hothers, List.append_nil]
      · have hother : (f.updatesOf m).filter (·.node = n.id) = [] := by
          refine List.filter_eq_nil_iff.2 fun u hu heq => ?_
          have hmid : m.id = n.id := (hnode m u hu).symm.trans (by simpa using heq)
          exact hm (hmid ▸ List.mem_map_of_mem hn)
        rw [hother, List.nil_append, ih hids hn]

theorem updatesOf_eq (f : Forest) (n : Node) :
    f.updatesOf n = (n.keywords.updates (f.resolved n)).map fun u => ⟨n.id, u.1, u.2.1, u.2.2⟩ := by
  rw [updatesOf, KeywordStore.refs, KeywordStore.updates, List.filterMap_flatMap, List.map_flatMap]
  refine List.flatMap_congr fun k _ => ?_
  rw [List.filterMap_map, List.map_map, KeywordData.updates, List.map_filterMap]
  refine List.filterMap_congr fun r _ => ?_
  simp only [Function.comp_apply]
  cases hres : f.resolve? n.id (n.keywords.isTreeWide k.name) r.1 r.2 with
  | none =>
      have hnow : f.resolved n k.name r.1 r.2 = r.2 := by rw [resolved, hres, Option.getD_none]
      simp [hnow]
  | some r' =>
      have hnow : f.resolved n k.name r.1 r.2 = r' := by rw [resolved, hres, Option.getD_some]
      by_cases hr : r' = r.2 <;> simp [hnow, hr]

theorem resolved_resolved (hids : (f.nodes.map Node.id).Nodup) (n : Node) (keyword : String)
    (filter : NodeFilter) (r : NodeRef) :
    f.resolved n keyword filter (f.resolved n keyword filter r) = f.resolved n keyword filter r := by
  unfold resolved
  cases hr : f.resolve? n.id (n.keywords.isTreeWide keyword) filter r with
  | none => rw [Option.getD_none, hr, Option.getD_none]
  | some r' => rw [Option.getD_some, resolve?_idem hids hr, Option.getD_some]

/-- **One by one, all references are brought up to date** as at once. -/
theorem foldl_applyUpdate (hids : (f.nodes.map Node.id).Nodup)
    (hstores : ∀ n ∈ f.nodes, n.keywords.HasDistinctNames) :
    f.updates.foldl applyUpdate f = f.map f.refreshed := by
  rw [foldl_applyUpdate_eq_map]
  refine map_congr fun n hn => ?_
  have hfold : ∀ (us : List (String × NodeRef × NodeRef)) (s : KeywordStore),
      us.foldl (fun m u => RefUpdate.apply ⟨n.id, u.1, u.2.1, u.2.2⟩ m) { n with keywords := s } =
        { n with keywords := us.foldl (fun s u => s.replaceRef u.1 u.2.1 u.2.2) s } := by
    intro us
    induction us with
    | nil => exact fun _ => rfl
    | cons u us ih => exact fun s => ih _
  rw [updates, filter_flatMap_updatesOf hids hn, updatesOf_eq, List.foldl_map]
  refine (hfold _ n.keywords).trans ?_
  rw [KeywordStore.foldl_replaceRef (hstores n hn) fun r _ => resolved_resolved hids n r.1 r.2.1 r.2.2]
  rfl

end Forest

end SiteAnalysis
