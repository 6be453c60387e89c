import SiteAnalysis.Proofs.Keyword.Pruned

set_option autoImplicit false

/-! # Lists of nodes that lost some

When references are dropped from keywords, what is left can be written as before
(`KeywordData.Written`). It comes back from what is written of it if every list of nodes still has
as many as its keyword takes (`KeywordData.isCounted`), and else its line cannot be read. Main
statements:

* `KeywordStore.Matches.pruned`: what is left of a store can be written.
* `KeywordStore.Matches.read_uncounted`: a line with too few nodes or too many fails.
-/

namespace SiteAnalysis

namespace KeywordData

variable {P : String → Prop} {catalogue : Catalogue} {declared held : KeywordData}
  {now : NodeFilter → NodeRef → Option NodeRef}

/-- **Whether a list of nodes has as many as its keyword takes.** Other data have no such limits. -/
def isCounted : KeywordData → Bool
  | nodes targets _ min max =>
    !(targets.length < Nat.max min 1 || max.any (· < targets.length))
  | _ => true

/-- Data of the form that reading leaves, apart from the number of nodes in a list. -/
inductive HoldsUncounted (catalogue : Catalogue) : KeywordData → KeywordData → Prop
  | counted {declared held : KeywordData} (h : Holds catalogue declared held) :
      HoldsUncounted catalogue declared held
  | nodes {targets : List NodeRef} (filter : NodeFilter) (min : Nat) (max : Option Nat)
      (hne : targets ≠ []) :
      HoldsUncounted catalogue (nodes [] filter min max) (nodes targets filter min max)

/-- **Data that can be written**, whether or not what is written can be read. -/
structure Written (P : String → Prop) (catalogue : Catalogue) (declared held : KeywordData) :
    Prop where
  holds : HoldsUncounted catalogue declared held
  texts : ∀ values ∈ held.args, ∀ a ∈ values, P a

theorem Restorable.written (h : Restorable P catalogue declared held) :
    Written P catalogue declared held := ⟨.counted h.holds, h.texts⟩

theorem Written.restorable (h : Written P catalogue declared held)
    (hcounted : held.isCounted = true) : Restorable P catalogue declared held := by
  refine ⟨?_, h.texts⟩
  cases h.holds with
  | counted hholds => exact hholds
  | nodes filter min max hne => exact .nodes filter (by simpa [isCounted] using hcounted)

theorem Holds.isCounted (h : Holds catalogue declared held) : held.isCounted = true := by
  cases h with
  | nodes filter hcount => simpa [KeywordData.isCounted] using hcount
  | _ => rfl

theorem HoldsUncounted.lines_eq (h : HoldsUncounted catalogue declared held) :
    held.lines = held.args.map (List.map quote) := by
  cases h with
  | counted hholds => exact hholds.lines_eq
  | nodes filter min max hne => exact lines_eq_args (by simp)

/-- A line with too few nodes or too many. -/
theorem Written.exists_read_error (h : Written P catalogue declared held)
    (huncounted : held.isCounted = false) : ∃ values, held.args = [values] ∧
      declared.isRepeatable = false ∧
      ∀ keyword, ∃ e, declared.read keyword catalogue values = .error e := by
  cases h.holds with
  | counted hholds => exact absurd hholds.isCounted (by simp [huncounted])
  | @nodes targets filter min max hne =>
      refine ⟨targets.map NodeRef.name, by simpa [args] using hne, rfl, fun keyword => ?_⟩
      have hwrong : ((targets.map NodeRef.name).length < Nat.max min 1 ||
          max.any (· < (targets.map NodeRef.name).length)) = true := by
        rw [List.length_map]
        rwa [isCounted, Bool.not_eq_false'] at huncounted
      cases hread : readNodes keyword min max (targets.map NodeRef.name) with
      | error e => exact ⟨e, by rw [KeywordData.read, hread]; rfl⟩
      | ok refs => exact absurd hwrong (by rw [(readNodes_eq_ok_iff.1 hread).1]; simp)

/-- The filter that references in data have to pass. -/
def filter? : KeywordData → Option NodeFilter
  | node _ filter | observable _ _ filter | nodes _ filter _ _ => some filter
  | _ => none

theorem filter?_of_mem_refs {d : KeywordData} {r : NodeFilter × NodeRef} (hr : r ∈ d.refs) :
    d.filter? = some r.1 := by
  unfold refs at hr
  split at hr
  · obtain rfl := List.mem_singleton.1 hr
    rfl
  · obtain rfl := List.mem_singleton.1 hr
    rfl
  · obtain ⟨t, -, rfl⟩ := List.mem_map.1 hr
    rfl
  · cases hr

theorem HoldsUncounted.filter?_eq (h : HoldsUncounted catalogue declared held) :
    held.filter? = declared.filter? := by
  cases h with
  | counted hholds => cases hholds <;> rfl
  | nodes filter min max hne => rfl

/-! ## What is left of data -/

/-- Data without a reference as they are declared. -/
def tidied : KeywordData → KeywordData
  | observable none _ filter => observable none 0 filter
  | d => d

/-- Whether data without a reference are as they are declared. -/
def isTidy : KeywordData → Bool
  | observable none index _ => index == 0
  | _ => true

theorem tidied_of_isTidy {d : KeywordData} (h : d.isTidy = true) : d.tidied = d := by
  unfold isTidy at h
  split at h
  · next index filter =>
      obtain rfl : index = 0 := by simpa using h
      rfl
  · unfold tidied
    split
    · next hnot => exact (hnot _ _ rfl).elim
    · rfl

theorem refs_tidied (d : KeywordData) : d.tidied.refs = d.refs := by
  unfold tidied
  split <;> rfl

/-- Where some references are kept, the rest of the data is. -/
theorem Restorable.prune (h : Restorable P catalogue declared held)
    (hkept : held.losesAll now = false) (htexts : ∀ r ∈ (held.prune now).refs, P r.2.name) :
    Written P catalogue declared (held.prune now) := by
  have hsome : ∀ {r : NodeFilter × NodeRef}, held.refs = [r] → ∃ r', now r.1 r.2 = some r' := by
    intro r hrefs
    rw [losesAll, hrefs] at hkept
    exact Option.isSome_iff_exists.1 (by simpa using hkept)
  cases h.holds with
  | node r filter =>
      obtain ⟨r', hr'⟩ := hsome (r := (filter, r)) rfl
      have hprune : KeywordData.prune now (.node (some r) filter) = .node (some r') filter :=
        congrArg (KeywordData.node · filter) hr'
      rw [hprune] at htexts ⊢
      exact ⟨.counted (.node r' filter), by simpa [args, refs] using htexts⟩
  | @observable r i index filter hindex =>
      obtain ⟨r', hr'⟩ := hsome (r := (filter, r)) rfl
      have hprune : KeywordData.prune now (.observable (some r) index filter) =
          .observable (some r') index filter :=
        congrArg (KeywordData.observable · index filter) hr'
      have hboth : P r.name ∧ P (toString index) := by simpa [args] using h.texts
      rw [hprune] at htexts ⊢
      refine ⟨.counted (.observable r' i filter hindex), ?_⟩
      simpa [args] using ⟨htexts (filter, r') (by simp [refs]), hboth.2⟩
  | @nodes targets filter min max hcount =>
      -- Not all nodes of the list are lost, so one is left to be written.
      have hne : targets.filterMap (now filter) ≠ [] := by
        intro hnil
        have hnone := List.filterMap_eq_nil_iff.1 hnil
        have htargets : targets ≠ [] := by
          rintro rfl
          simp at hcount
        rw [← Bool.not_eq_true, losesAll_iff] at hkept
        refine hkept ⟨by simpa [refs] using htargets, fun r hr => ?_⟩
        obtain ⟨t, ht, rfl⟩ := List.mem_map.1 hr
        exact hnone t ht
      refine ⟨.nodes filter min max hne, ?_⟩
      have hargs : (KeywordData.prune now (.nodes targets filter min max)).args =
          [(targets.filterMap (now filter)).map NodeRef.name] := if_neg (by simpa using hne)
      rw [hargs, List.forall_mem_singleton, List.forall_mem_map]
      exact fun r hr => htexts (filter, r) (List.mem_map.2 ⟨r, hr, rfl⟩)
  | _ => exact h.written

/-- Data that lost all are as they were declared, once they are tidied. -/
theorem Holds.tidied_prune (h : Holds catalogue declared held) (hlost : held.losesAll now = true)
    (htidy : declared.tidied = declared) : (held.prune now).tidied = declared := by
  obtain ⟨hne, hall⟩ := losesAll_iff.1 hlost
  cases h with
  | node r filter =>
      have hnone : now filter r = none := hall (filter, r) (by simp [refs])
      simp [KeywordData.prune, tidied, hnone]
  | observable r i filter hindex =>
      have hnone : now filter r = none := hall (filter, r) (by simp [refs])
      simpa [KeywordData.prune, tidied, hnone] using htidy
  | @nodes targets filter min max hcount =>
      have hnone : targets.filterMap (now filter) = [] := List.filterMap_eq_nil_iff.2
        fun r hr => hall (filter, r) (by simpa [refs] using hr)
      simp [KeywordData.prune, tidied, hnone]
  | _ => exact absurd rfl hne

end KeywordData

/-! ## What is left of a store -/

namespace Keyword

variable {P : String → Prop} {catalogue : Catalogue} {declared held : Keyword}

/-- A keyword that is not set as it was declared. -/
def tidied (k : Keyword) : Keyword := if k.isSet then k else { k with data := k.data.tidied }

@[simp] theorem name_tidied (k : Keyword) : k.tidied.name = k.name := by
  unfold tidied
  split <;> rfl

@[simp] theorem isSet_tidied (k : Keyword) : k.tidied.isSet = k.isSet := by
  unfold tidied
  split <;> rfl

@[simp] theorem treeWide_tidied (k : Keyword) : k.tidied.treeWide = k.treeWide := by
  unfold tidied
  split <;> rfl

theorem refs_tidied (k : Keyword) : k.tidied.data.refs = k.data.refs := by
  unfold tidied
  split
  · rfl
  · exact k.data.refs_tidied

theorem Matches.pruned (h : Matches (KeywordData.Restorable P catalogue) declared held)
    (hdeclared : declared.data.isDeclared = true) (htidy : declared.data.tidied = declared.data)
    {now : NodeFilter → NodeRef → Option NodeRef}
    (htexts : ∀ r ∈ (held.data.prune now).refs, P r.2.name) :
    Matches (KeywordData.Written P catalogue) declared (held.prune now).tidied := by
  refine ⟨by rw [name_tidied]; exact h.name, by rw [treeWide_tidied]; exact h.treeWide, ?_⟩
  have hdata := h.data
  cases hset : held.isSet with
  | true =>
      rw [if_pos hset] at hdata
      cases hlost : held.data.losesAll now with
      | true =>
          have hunset : (held.prune now).isSet = false := by simp [prune, hset, hlost]
          rw [isSet_tidied, hunset, if_neg Bool.false_ne_true, tidied, hunset,
            if_neg Bool.false_ne_true]
          exact hdata.holds.tidied_prune hlost htidy
      | false =>
          have hstays : (held.prune now).isSet = true := by simp [prune, hset, hlost]
          rw [isSet_tidied, if_pos hstays, tidied, if_pos hstays]
          exact hdata.prune hlost htexts
  | false =>
      rw [if_neg (by simp [hset])] at hdata
      have hunset : (held.prune now).isSet = false := by simp [prune, hset]
      have hsame : (held.prune now).data = declared.data := by
        rw [prune, hdata]
        refine (KeywordData.prune_congr (g := fun _ r => some r) ?_).trans ?_
        · simp [KeywordData.refs_of_isDeclared hdeclared]
        · rw [← KeywordData.mapRefs_eq_prune fun _ r => r, KeywordData.mapRefs_id]
      rw [isSet_tidied, hunset, if_neg Bool.false_ne_true, tidied, hunset,
        if_neg Bool.false_ne_true]
      exact (congrArg KeywordData.tidied hsame).trans htidy

end Keyword

namespace KeywordStore

variable {P : String → Prop} {catalogue : Catalogue} {declared held now : KeywordStore}
  {R R' : KeywordData → KeywordData → Prop}

/-- The store with the keywords that are not set as they were declared. -/
def tidied (s : KeywordStore) : KeywordStore := { s with keywords := s.keywords.map Keyword.tidied }

@[simp] theorem refs_tidied (s : KeywordStore) : s.tidied.refs = s.refs := by
  simp [refs, tidied, List.flatMap_map, Keyword.refs_tidied]

@[simp] theorem isTreeWide_tidied (s : KeywordStore) (name : String) :
    s.tidied.isTreeWide name = s.isTreeWide name := by
  simp [isTreeWide, tidied, Keyword.isNamed, Function.comp_def]

/-- Only what is set is written. -/
@[simp] theorem setKeywords_tidied (s : KeywordStore) : s.tidied.setKeywords = s.setKeywords := by
  simp only [setKeywords, tidied, List.filter_map, Function.comp_def, Keyword.isSet_tidied]
  refine (List.map_congr_left fun k hk => ?_).trans (List.map_id _)
  exact if_pos (List.mem_filter.1 hk).2

@[simp] theorem lines_tidied (s : KeywordStore) : s.tidied.lines = s.lines := by
  rw [lines, lines, setKeywords_tidied]

/-- Data without references are all as they are declared. -/
def IsTidy (s : KeywordStore) : Prop := ∀ k ∈ s.keywords, k.data.isTidy = true

theorem Matches.mono (h : Matches R declared held)
    (hR : ∀ k ∈ held.setKeywords, ∀ d, R d k.data → R' d k.data) : Matches R' declared held := by
  refine ⟨h.deprecated, List.forall₂_iff_get.2 ⟨h.keywords.length_eq, fun i hi hi' => ?_⟩⟩
  have hmatch := (List.forall₂_iff_get.1 h.keywords).2 i hi hi'
  refine ⟨hmatch.name, hmatch.treeWide, ?_⟩
  have hdata := hmatch.data
  have hmem := List.get_mem held.keywords ⟨i, hi'⟩
  split
  · next hset =>
      rw [if_pos hset] at hdata
      exact hR _ (List.mem_filter.2 ⟨hmem, hset⟩) _ hdata
  · next hset => rwa [if_neg hset] at hdata

/-- **What is left of a store** that could be written and read again can be written. -/
theorem Matches.pruned (h : Matches (KeywordData.Restorable P catalogue) declared held)
    (hdeclared : declared.IsDeclared) (htidy : declared.IsTidy)
    {now : String → NodeFilter → NodeRef → Option NodeRef}
    (htexts : ∀ r ∈ (held.prune now).refs, P r.2.2.name) :
    Matches (KeywordData.Written P catalogue) declared (held.prune now).tidied := by
  refine ⟨h.deprecated, ?_⟩
  have hmap : (held.prune now).tidied.keywords =
      held.keywords.map fun k => (k.prune (now k.name)).tidied := List.map_map ..
  rw [hmap, List.forall₂_map_right_iff]
  refine List.forall₂_iff_get.2 ⟨h.keywords.length_eq, fun i hi hi' => ?_⟩
  have hd := List.get_mem declared.keywords ⟨i, hi⟩
  have hk := List.get_mem held.keywords ⟨i, hi'⟩
  refine ((List.forall₂_iff_get.1 h.keywords).2 i hi hi').pruned (hdeclared _ hd).1
    (KeywordData.tidied_of_isTidy (htidy _ hd)) ?_
  intro r hr
  exact htexts _ (List.mem_flatMap.2 ⟨_, List.mem_map.2 ⟨_, hk, rfl⟩, List.mem_map.2 ⟨r, hr, rfl⟩⟩)

/-- References have to pass the filters that were declared. -/
theorem Matches.exists_filter (h : Matches (KeywordData.Written P catalogue) declared held)
    (hdeclared : declared.IsDeclared) {r : String × NodeFilter × NodeRef} (hr : r ∈ held.refs) :
    ∃ d ∈ declared.keywords, d.data.filter? = some r.2.1 := by
  obtain ⟨k, hk, hmem⟩ := List.mem_flatMap.1 hr
  obtain ⟨r', hr', rfl⟩ := List.mem_map.1 hmem
  obtain ⟨d, hd, hmatch⟩ := h.exists_declared hk
  have hdata := hmatch.data
  split at hdata
  · exact ⟨d, hd, hdata.holds.filter?_eq ▸ KeywordData.filter?_of_mem_refs hr'⟩
  · rw [hdata, KeywordData.refs_of_isDeclared (hdeclared d hd).1] at hr'
    cases hr'

/-- **A line with too few nodes or too many fails**, whatever was read before. -/
theorem Matches.read_uncounted (h : Matches (KeywordData.Written P catalogue) declared held)
    (hdistinct : declared.HasDistinctNames) {k : Keyword} (hk : k ∈ held.setKeywords)
    (huncounted : k.data.isCounted = false) : ∃ values, k.data.args = [values] ∧
      ∀ {Q : String → Prop} {now : KeywordStore},
        Matches (KeywordData.IsReadFrom Q catalogue) declared now →
          ∃ e, now.read k.name values catalogue = (.failed e, now) := by
  obtain ⟨hmem, hset⟩ := List.mem_filter.1 hk
  obtain ⟨d, hd, hmatch⟩ := h.exists_declared hmem
  have hwritten := hmatch.data
  rw [if_pos hset] at hwritten
  obtain ⟨values, hargs, hrepeat, hfails⟩ := hwritten.exists_read_error huncounted
  refine ⟨values, hargs, fun {Q now} hnow => ?_⟩
  obtain ⟨e, he⟩ := hfails k.name
  -- The keyword that is read stands where the declared one does.
  obtain ⟨i, hi, rfl⟩ := List.mem_iff_getElem.1 hd
  have hi' : i < now.keywords.length := hnow.keywords.length_eq ▸ hi
  have hcounterpart := (List.forall₂_iff_get.1 hnow.keywords).2 i hi hi'
  have hfind := find?_name (hnow.hasDistinctNames hdistinct) (List.get_mem now.keywords ⟨i, hi'⟩)
  generalize now.keywords.get ⟨i, hi'⟩ = k' at hcounterpart hfind
  have hname : k'.name = k.name := hcounterpart.name.trans hmatch.name.symm
  have hread : k'.data.read k'.name catalogue values = .error e := by
    have hdata := hcounterpart.data
    rw [hname]
    split at hdata
    · exact (hdata.holds.read_eq hrepeat _ _).trans he
    · exact (congrArg (·.read k.name catalogue values) hdata).trans he
  have hkeyword : now.readKeyword k.name values catalogue = some (.error e) := by
    rw [hname] at hfind
    rw [KeywordStore.readKeyword, hfind, Option.map_some, hread]
    rfl
  exact ⟨e, by rw [KeywordStore.read, hkeyword]⟩

end KeywordStore

end SiteAnalysis
