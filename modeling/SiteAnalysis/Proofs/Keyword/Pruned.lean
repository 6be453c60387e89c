import SiteAnalysis.Proofs.Keyword.Store

set_option autoImplicit false

/-! # References that are changed or dropped

Every reference of a keyword is changed or dropped at once (`Keyword.prune`); a keyword that loses
all it had is not set any more. What is dropped one by one comes to the same. Main statements:

* `Keyword.prune_prune`: one after the other.
* `KeywordStore.dropRef_eq`: a reference that is dropped from a keyword.
-/

namespace SiteAnalysis

namespace KeywordData

variable {d : KeywordData} {now f g : NodeFilter → NodeRef → Option NodeRef}

/-- All references of a keyword have to pass the same filter. -/
theorem filter_eq {r r' : NodeFilter × NodeRef} (hr : r ∈ d.refs) (hr' : r' ∈ d.refs) :
    r.1 = r'.1 := by
  unfold refs at hr hr'
  split at hr <;> simp_all
  obtain ⟨t, -, rfl⟩ := hr
  obtain ⟨t', -, rfl⟩ := hr'
  rfl

/-- **The data with every reference changed or dropped.** -/
def prune (now : NodeFilter → NodeRef → Option NodeRef) : KeywordData → KeywordData
  | node target filter => node (target.bind (now filter)) filter
  | observable target index filter => observable (target.bind (now filter)) index filter
  | nodes targets filter min max => nodes (targets.filterMap (now filter)) filter min max
  | d => d

/-- Whether the data have references and lose all of them. -/
def losesAll (now : NodeFilter → NodeRef → Option NodeRef) (d : KeywordData) : Bool :=
  !d.refs.isEmpty && d.refs.all fun r => (now r.1 r.2).isNone

theorem losesAll_iff : d.losesAll now = true ↔ d.refs ≠ [] ∧ ∀ r ∈ d.refs, now r.1 r.2 = none := by
  simp [losesAll]

theorem refs_prune (now : NodeFilter → NodeRef → Option NodeRef) (d : KeywordData) :
    (d.prune now).refs = d.refs.filterMap fun r => (now r.1 r.2).map (r.1, ·) := by
  cases d with
  | node target filter =>
      cases target with
      | none => rfl
      | some r => cases hr : now filter r <;> simp [prune, refs, hr]
  | observable target index filter =>
      cases target with
      | none => rfl
      | some r => cases hr : now filter r <;> simp [prune, refs, hr]
  | nodes targets filter min max =>
      simp [prune, refs, List.map_filterMap, List.filterMap_map]
  | _ => rfl

theorem prune_prune (f g : NodeFilter → NodeRef → Option NodeRef) (d : KeywordData) :
    (d.prune f).prune g = d.prune fun filter r => (f filter r).bind (g filter) := by
  cases d with
  | node target filter => cases target <;> rfl
  | observable target index filter => cases target <;> rfl
  | nodes targets filter min max => simp [prune, List.filterMap_filterMap]
  | _ => rfl

/-- Only the references that are there count. -/
theorem prune_congr (h : ∀ r ∈ d.refs, f r.1 r.2 = g r.1 r.2) : d.prune f = d.prune g := by
  cases d with
  | node target filter =>
      cases target with
      | none => rfl
      | some r => simp [prune, h (filter, r) (by simp [refs])]
  | observable target index filter =>
      cases target with
      | none => rfl
      | some r => simp [prune, h (filter, r) (by simp [refs])]
  | nodes targets filter min max =>
      have htargets : targets.filterMap (f filter) = targets.filterMap (g filter) :=
        List.filterMap_congr fun r hr => h (filter, r) (by simpa [refs] using hr)
      simp [prune, htargets]
  | _ => rfl

theorem losesAll_congr (h : ∀ r ∈ d.refs, f r.1 r.2 = g r.1 r.2) : d.losesAll f = d.losesAll g := by
  have hall : (d.refs.all fun r => (f r.1 r.2).isNone) = d.refs.all fun r => (g r.1 r.2).isNone := by
    rw [Bool.eq_iff_iff, List.all_eq_true, List.all_eq_true]
    exact forall₂_congr fun r hr => by rw [h r hr]
  rw [losesAll, losesAll, hall]

/-- To change all references is to drop none. -/
theorem mapRefs_eq_prune (change : NodeFilter → NodeRef → NodeRef) (d : KeywordData) :
    d.mapRefs change = d.prune fun filter r => some (change filter r) := by
  cases d with
  | node target filter => cases target <;> rfl
  | observable target index filter => cases target <;> rfl
  | nodes targets filter min max =>
      exact congrArg (nodes · filter min max) (congrFun List.filterMap_eq_map.symm targets)
  | _ => rfl

theorem losesAll_some (change : NodeFilter → NodeRef → NodeRef) (d : KeywordData) :
    (d.losesAll fun filter r => some (change filter r)) = false := by
  rw [← Bool.not_eq_true, losesAll_iff]
  rintro ⟨hne, hall⟩
  obtain ⟨r, hr⟩ := List.exists_mem_of_ne_nil _ hne
  exact absurd (hall r hr) (by simp)

theorem mapRefs_id (d : KeywordData) : (d.mapRefs fun _ r => r) = d := by
  cases d <;> simp [mapRefs]

/-- Nothing is lost twice. -/
theorem losesAll_prune (f g : NodeFilter → NodeRef → Option NodeRef) (d : KeywordData) :
    (d.losesAll f || (d.prune f).losesAll g) =
      d.losesAll fun filter r => (f filter r).bind (g filter) := by
  rw [Bool.eq_iff_iff, Bool.or_eq_true, losesAll_iff, losesAll_iff, losesAll_iff, refs_prune]
  constructor
  · rintro (⟨hne, hall⟩ | ⟨hne, hall⟩)
    · exact ⟨hne, fun r hr => by rw [hall r hr, Option.bind_none]⟩
    · refine ⟨fun hnil => hne (by simp [hnil]), fun r hr => ?_⟩
      cases hnow : f r.1 r.2 with
      | none => rfl
      | some r' => exact hall (r.1, r') (List.mem_filterMap.2 ⟨r, hr, by simp [hnow]⟩)
  · rintro ⟨hne, hall⟩
    -- Either all references are lost at first, or those that are left are lost afterwards.
    by_cases hkept : ∀ r ∈ d.refs, f r.1 r.2 = none
    · exact .inl ⟨hne, hkept⟩
    · push Not at hkept
      obtain ⟨r, hr, hnow⟩ := hkept
      obtain ⟨r', hr'⟩ := Option.ne_none_iff_exists'.1 hnow
      have hmem : (r.1, r') ∈ d.refs.filterMap fun r => (f r.1 r.2).map (r.1, ·) :=
        List.mem_filterMap.2 ⟨r, hr, by simp [hr']⟩
      refine .inr ⟨List.ne_nil_of_mem hmem, fun r₁ hr₁ => ?_⟩
      obtain ⟨r₂, hr₂, heq⟩ := List.mem_filterMap.1 hr₁
      obtain ⟨r₃, hr₃, rfl⟩ := Option.map_eq_some_iff.1 heq
      have hnone := hall r₂ hr₂
      rwa [hr₃, Option.bind_some] at hnone

/-- What is left when one reference is dropped. -/
def without (stale r : NodeRef) : Option NodeRef := if r = stale then none else some r

theorem dropRef_eq (stale : NodeRef) (d : KeywordData) :
    d.dropRef stale = (d.refs.any (fun r => r.2 = stale), d.prune fun _ => without stale) := by
  cases d with
  | node target filter =>
      cases target with
      | none => rfl
      | some r => by_cases hr : r = stale <;> simp [dropRef, prune, refs, without, hr]
  | observable target index filter =>
      cases target with
      | none => rfl
      | some r => by_cases hr : r = stale <;> simp [dropRef, prune, refs, without, hr]
  | nodes targets filter min max =>
      have hkept : targets.filterMap (without stale) = targets.filter (· ≠ stale) := by
        rw [← List.filterMap_eq_filter]
        refine List.filterMap_congr fun r _ => ?_
        by_cases hr : r = stale <;> simp [without, Option.guard, hr]
      have hdropped : ((targets.filter (· ≠ stale)).length != targets.length) =
          targets.any (· = stale) := by
        rw [Bool.eq_iff_iff, bne_iff_ne, ne_eq, List.length_filter_eq_length_iff]
        simp
      simp only [dropRef, prune, hkept, hdropped, refs, List.any_map]
      rfl
  | _ => rfl

/-- A keyword loses its content with its last reference. -/
theorem losesAll_without (stale : NodeRef) (d : KeywordData) :
    (d.refs.any (fun r => r.2 = stale) && !(d.prune fun _ => without stale).hasContent) =
      d.losesAll fun _ => without stale := by
  cases d with
  | node target filter =>
      cases target with
      | none => rfl
      | some r => by_cases hr : r = stale <;> simp [losesAll, prune, refs, without, hasContent, hr]
  | observable target index filter =>
      cases target with
      | none => rfl
      | some r => by_cases hr : r = stale <;> simp [losesAll, prune, refs, without, hasContent, hr]
  | nodes targets filter min max =>
      rw [Bool.eq_iff_iff, losesAll_iff]
      simp only [prune, refs, hasContent, without, Bool.and_eq_true, List.any_eq_true, List.mem_map,
        decide_eq_true_eq, Bool.not_not, List.isEmpty_iff, List.filterMap_eq_nil_iff,
        forall_exists_index, and_imp, forall_apply_eq_imp_iff₂, ne_eq, List.map_eq_nil_iff]
      constructor
      · rintro ⟨⟨-, ⟨r, hr, rfl⟩, -⟩, hall⟩
        exact ⟨List.ne_nil_of_mem hr, hall⟩
      · rintro ⟨hne, hall⟩
        obtain ⟨r, hr⟩ := List.exists_mem_of_ne_nil targets hne
        refine ⟨⟨(filter, r), ⟨r, hr, rfl⟩, ?_⟩, hall⟩
        simpa using hall r hr
  | _ => rfl

end KeywordData

namespace Keyword

/-- **The keyword with every reference changed or dropped.** One that loses all it had is not set
any more. -/
def prune (now : NodeFilter → NodeRef → Option NodeRef) (k : Keyword) : Keyword :=
  { k with data := k.data.prune now, isSet := k.isSet && !k.data.losesAll now }

theorem prune_prune (f g : NodeFilter → NodeRef → Option NodeRef) (k : Keyword) :
    (k.prune f).prune g = k.prune fun filter r => (f filter r).bind (g filter) := by
  simp only [prune, KeywordData.prune_prune, ← KeywordData.losesAll_prune, Bool.not_or,
    Bool.and_assoc]

theorem prune_congr {k : Keyword} {f g : NodeFilter → NodeRef → Option NodeRef}
    (h : ∀ r ∈ k.data.refs, f r.1 r.2 = g r.1 r.2) : k.prune f = k.prune g := by
  rw [prune, prune, KeywordData.prune_congr h, KeywordData.losesAll_congr h]

theorem prune_some (change : NodeFilter → NodeRef → NodeRef) (k : Keyword) :
    (k.prune fun filter r => some (change filter r)) = { k with data := k.data.mapRefs change } := by
  rw [prune, KeywordData.losesAll_some, KeywordData.mapRefs_eq_prune, Bool.not_false, Bool.and_true]

end Keyword

namespace KeywordStore

variable {s : KeywordStore}

/-- **The store with every reference changed or dropped.** -/
def prune (now : String → NodeFilter → NodeRef → Option NodeRef) (s : KeywordStore) :
    KeywordStore :=
  { s with keywords := s.keywords.map fun k => k.prune (now k.name) }

theorem refs_prune (now : String → NodeFilter → NodeRef → Option NodeRef) (s : KeywordStore) :
    (s.prune now).refs =
      s.refs.filterMap fun r => (now r.1 r.2.1 r.2.2).map fun r' => (r.1, r.2.1, r') := by
  simp only [refs, prune, List.flatMap_map, List.filterMap_flatMap]
  refine List.flatMap_congr fun k _ => ?_
  simp [Keyword.prune, KeywordData.refs_prune, List.map_filterMap, List.filterMap_map,
    Function.comp_def]

theorem prune_prune (f g : String → NodeFilter → NodeRef → Option NodeRef) (s : KeywordStore) :
    (s.prune f).prune g = s.prune fun name filter r => (f name filter r).bind (g name filter) := by
  simp only [prune, List.map_map, Function.comp_def, Keyword.prune_prune]
  rfl

theorem prune_congr {f g : String → NodeFilter → NodeRef → Option NodeRef}
    (h : ∀ r ∈ s.refs, f r.1 r.2.1 r.2.2 = g r.1 r.2.1 r.2.2) : s.prune f = s.prune g := by
  refine congrArg (fun keywords => KeywordStore.mk keywords s.deprecated) ?_
  refine List.map_congr_left fun k hk => Keyword.prune_congr fun r hr => h (k.name, r) ?_
  exact List.mem_flatMap.2 ⟨k, hk, List.mem_map.2 ⟨r, hr, rfl⟩⟩

theorem mapRefs_eq_prune (change : String → NodeFilter → NodeRef → NodeRef) (s : KeywordStore) :
    s.mapRefs change = s.prune fun name filter r => some (change name filter r) := by
  simp only [mapRefs, prune, Keyword.prune_some]

/-- Where nothing is dropped or changed, the store stays as it is. -/
theorem prune_eq_self {now : String → NodeFilter → NodeRef → Option NodeRef}
    (h : ∀ r ∈ s.refs, now r.1 r.2.1 r.2.2 = some r.2.2) : s.prune now = s := by
  have hkeyword : ∀ k : Keyword, (k.prune fun _ r => some r) = k := fun k => by
    rw [k.prune_some fun _ r => r, KeywordData.mapRefs_id]
  rw [prune_congr (g := fun _ _ r => some r) h, prune]
  simp only [hkeyword, List.map_id']

@[simp] theorem isTreeWide_prune (now : String → NodeFilter → NodeRef → Option NodeRef)
    (s : KeywordStore) (name : String) : (s.prune now).isTreeWide name = s.isTreeWide name := by
  simp [isTreeWide, prune, Keyword.isNamed, Keyword.prune, Function.comp_def]

theorem hasDistinctNames_prune (now : String → NodeFilter → NodeRef → Option NodeRef)
    (h : s.HasDistinctNames) : (s.prune now).HasDistinctNames :=
  List.pairwise_map.2 h

/-- Where names are distinct, to change the keyword of a name is to change one keyword. -/
theorem updateFirst_isNamed {keywords : List Keyword} {k : Keyword}
    (hdistinct : keywords.Pairwise fun k k' => sameName k.name k'.name = false)
    (hk : k ∈ keywords) (f : Keyword → Keyword) :
    updateFirst (fun c => c.isNamed k.name) f keywords =
      keywords.map fun c => if c.name = k.name then f c else c := by
  induction keywords with
  | nil => cases hk
  | cons c keywords ih =>
      obtain ⟨hc, hrest⟩ := List.pairwise_cons.1 hdistinct
      rw [updateFirst, Keyword.isNamed, List.map_cons]
      rcases List.mem_cons.1 hk with rfl | hk
      -- It is the first of its name, and no other has this name.
      · rw [sameName_refl, if_pos rfl, if_pos rfl]
        refine congrArg (f k :: ·) (((List.map_congr_left fun c' hc' => ?_).trans
          (List.map_id _)).symm)
        rw [if_neg]
        · rfl
        · intro heq
          have hne := hc c' hc'
          rw [heq, sameName_refl] at hne
          cases hne
      · have hne := hc k hk
        rw [hne, if_neg Bool.false_ne_true, if_neg, ih hrest hk]
        intro heq
        rw [heq, sameName_refl] at hne
        cases hne

/-- **A reference dropped from a keyword.** -/
theorem dropRef_eq (hdistinct : s.HasDistinctNames) {k : Keyword} (hk : k ∈ s.keywords)
    (stale : NodeRef) :
    s.dropRef k.name stale = (k.data.refs.any (fun r => r.2 = stale),
      s.prune fun name _ r => if name = k.name then KeywordData.without stale r else some r) := by
  unfold dropRef
  rw [find?_name hdistinct hk]
  dsimp only
  rw [KeywordData.dropRef_eq]
  dsimp only
  refine Prod.ext rfl (congrArg (fun keywords => KeywordStore.mk keywords s.deprecated) ?_)
  rw [updateFirst_isNamed hdistinct hk]
  refine List.map_congr_left fun c hc => ?_
  by_cases hname : c.name = k.name
  · obtain rfl : c = k := by
      have hfind := find?_name hdistinct hc
      rw [hname, find?_name hdistinct hk] at hfind
      exact (Option.some.inj hfind).symm
    simp only [if_true, Keyword.prune, ← KeywordData.losesAll_without]
    cases c.data.refs.any (fun r => r.2 = stale) &&
      !(c.data.prune fun _ => KeywordData.without stale).hasContent <;> simp
  · rw [if_neg hname]
    simp only [if_neg hname]
    exact ((c.prune_some fun _ r => r).trans (by rw [KeywordData.mapRefs_id])).symm

end KeywordStore

end SiteAnalysis
