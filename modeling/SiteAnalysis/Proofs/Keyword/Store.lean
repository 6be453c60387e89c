import Mathlib.Data.List.Forall2
import SiteAnalysis.Keyword.Store
import SiteAnalysis.Proofs.Keyword.Restored

set_option autoImplicit false

/-! # Keyword stores, written and read again

The keywords of a node are compared with those its type declares (`KeywordStore.Matches`), and while
what was written of them is read again, with those they were (`KeywordStore.Progress`). The order in
which they are read does not matter. Main statements:

* `KeywordStore.Matches.read`: reading a line leaves a store that can be written and read again.
* `KeywordStore.Progress.update`: the entry of one keyword brings back this keyword.
* `KeywordStore.Progress.eq_unlinked`: once all entries were read, the store is back.
-/

namespace SiteAnalysis

/-! ## The first item for which a test holds -/

section

variable {α β : Type} {R : α → β → Prop} {p : β → Bool} {f : β → β} {items : List α}
  {others : List β} {b : β}

/-- The first item that passes a test has a counterpart, and may be changed as long as it keeps
to it. -/
theorem forall₂_updateFirst (h : List.Forall₂ R items others) (hfind : others.find? p = some b) :
    ∃ a ∈ items, R a b ∧ (R a (f b) → List.Forall₂ R items (updateFirst p f others)) := by
  induction h with
  | nil => cases hfind
  | @cons a c items others hac hrest ih =>
      rw [List.find?_cons] at hfind
      rw [updateFirst]
      cases hp : p c with
      | true =>
          obtain rfl : c = b := by simpa [hp] using hfind
          exact ⟨a, by simp, hac, fun hR => .cons hR hrest⟩
      | false =>
          obtain ⟨a', ha', hR, hupdate⟩ := ih (by simpa [hp] using hfind)
          exact ⟨a', by simp [ha'], hR, fun hR' => .cons hac (hupdate hR')⟩

theorem find?_updateFirst (hfind : others.find? p = some b) (hkeep : p (f b) = true) :
    (updateFirst p f others).find? p = some (f b) := by
  induction others with
  | nil => cases hfind
  | cons c others ih =>
      rw [updateFirst]
      rw [List.find?_cons] at hfind
      cases hp : p c with
      | true =>
          obtain rfl : c = b := by simpa [hp] using hfind
          simp [hkeep]
      | false => simpa [hp] using ih (by simpa [hp] using hfind)

theorem updateFirst_updateFirst {g : β → β} (hkeep : ∀ c, p c = true → p (f c) = true) :
    updateFirst p g (updateFirst p f others) = updateFirst p (g ∘ f) others := by
  induction others with
  | nil => rfl
  | cons c others ih =>
      cases hp : p c with
      | true => simp [updateFirst, hp, hkeep c hp]
      | false => simp [updateFirst, hp, ih]

end

namespace Keyword

/-- **A keyword as it was declared**, or set to data that stand in some relation to those
declared. -/
structure Matches (R : KeywordData → KeywordData → Prop) (declared held : Keyword) : Prop where
  name : held.name = declared.name
  treeWide : held.treeWide = declared.treeWide
  data : if held.isSet then R declared.data held.data else held.data = declared.data

/-- The keyword with the names of all references only. -/
def unlinked (k : Keyword) : Keyword := { k with data := k.data.unlinked }

/-- **A keyword while what was written of another is read again.** `done` are the names of the
keywords whose entries were read. -/
inductive Progress (P : String → Prop) (catalogue : Catalogue) (done : List String)
    (held : Keyword) : Keyword → Prop
  | back (hset : held.isSet = true) (hdone : held.name ∈ done) :
      Progress P catalogue done held held.unlinked
  | awaited {data : KeywordData} (hset : held.isSet = true) (hdone : held.name ∉ done)
      (hdata : data.Restorable P catalogue held.data) :
      Progress P catalogue done held ⟨held.name, data, false, held.treeWide⟩
  | unset (hset : held.isSet = false) : Progress P catalogue done held held.unlinked

variable {P : String → Prop} {catalogue : Catalogue} {done : List String} {held now : Keyword}

theorem Progress.name (h : Progress P catalogue done held now) : now.name = held.name := by
  cases h <;> rfl

/-- The entries of other keywords leave a keyword as it is. -/
theorem Progress.cons (h : Progress P catalogue done held now) {name : String}
    (hne : held.name ≠ name) : Progress P catalogue (name :: done) held now := by
  cases h with
  | back hset hdone => exact .back hset (by simp [hdone])
  | awaited hset hdone hdata => exact .awaited hset (by simp [hne, hdone]) hdata
  | unset hset => exact .unset hset

end Keyword

namespace KeywordStore

variable {P : String → Prop} {catalogue : Catalogue} {declared held : KeywordStore}
  {R : KeywordData → KeywordData → Prop}

/-- **A store next to the one that was declared.** -/
structure Matches (R : KeywordData → KeywordData → Prop) (declared held : KeywordStore) : Prop where
  deprecated : held.deprecated = declared.deprecated
  keywords : List.Forall₂ (Keyword.Matches R) declared.keywords held.keywords

/-- Each keyword of such a store was declared. -/
theorem Matches.exists_declared (h : Matches R declared held) {k : Keyword}
    (hk : k ∈ held.keywords) : ∃ d ∈ declared.keywords, d.Matches R k := by
  obtain ⟨i, hi, rfl⟩ := List.mem_iff_getElem.1 hk
  have hi' : i < declared.keywords.length := h.keywords.length_eq ▸ hi
  exact ⟨_, List.getElem_mem hi', (List.forall₂_iff_get.1 h.keywords).2 i hi' hi⟩

/-! ## Reading a line -/

/-- Data of all keywords are such as keywords are declared with. -/
def IsDeclared (s : KeywordStore) : Prop :=
  ∀ k ∈ s.keywords, k.data.isDeclared = true ∧ k.isSet = false

theorem Matches.refl (h : declared.IsDeclared) : Matches R declared declared := by
  refine ⟨rfl, List.forall₂_same.2 fun k hk => ⟨rfl, rfl, ?_⟩⟩
  rw [(h k hk).2]
  exact rfl

theorem Matches.readKeyword (hP : IsTextClass P) (hdeclared : declared.IsDeclared)
    (h : Matches (KeywordData.IsReadFrom P catalogue) declared held) {name : String}
    {values : List String} (hvalues : ∀ a ∈ values, P a) {s : KeywordStore}
    (hread : held.readKeyword name values catalogue = some (.ok s)) :
    Matches (KeywordData.IsReadFrom P catalogue) declared s := by
  obtain ⟨k, hfind, hk⟩ := Option.map_eq_some_iff.1 hread
  obtain ⟨data, hdata, rfl⟩ := map_eq_ok_iff.1 hk
  refine ⟨h.deprecated, ?_⟩
  obtain ⟨d, hd, hdk, hupdate⟩ :=
    forall₂_updateFirst (f := fun k => k.setTo data) h.keywords hfind
  refine hupdate ⟨hdk.name, hdk.treeWide, ?_⟩
  refine KeywordData.IsReadFrom.read hP (hdeclared d hd).1 ?_ hvalues hdata
  have hdata := hdk.data
  split at hdata
  · exact Or.inr hdata
  · exact Or.inl hdata

/-- **Reading a line leaves a store that can be written and read again.** -/
theorem Matches.read (hP : IsTextClass P) (hdeclared : declared.IsDeclared)
    (h : Matches (KeywordData.IsReadFrom P catalogue) declared held) {keyword : String}
    {values : List String} (hvalues : ∀ a ∈ values, P a) :
    Matches (KeywordData.IsReadFrom P catalogue) declared
      (held.read keyword values catalogue).2 := by
  unfold KeywordStore.read
  split
  · next s hread => exact h.readKeyword hP hdeclared hvalues hread
  · exact h
  · split
    · exact h
    · split
      · next s hread => exact h.readKeyword hP hdeclared hvalues hread
      · exact h
      · exact h

/-! ## References -/

theorem refs_mapRefs (s : KeywordStore) (f : String → NodeFilter → NodeRef → NodeRef) :
    (s.mapRefs f).refs = s.refs.map fun r => (r.1, r.2.1, f r.1 r.2.1 r.2.2) := by
  simp [refs, mapRefs, KeywordData.refs_mapRefs, List.flatMap_map, List.map_flatMap,
    Function.comp_def]

theorem mapRefs_mapRefs (s : KeywordStore) (f g : String → NodeFilter → NodeRef → NodeRef) :
    (s.mapRefs f).mapRefs g = s.mapRefs fun name filter r => g name filter (f name filter r) := by
  simp [mapRefs, KeywordData.mapRefs_mapRefs]

theorem mapRefs_congr {s : KeywordStore} {f g : String → NodeFilter → NodeRef → NodeRef}
    (h : ∀ r ∈ s.refs, f r.1 r.2.1 r.2.2 = g r.1 r.2.1 r.2.2) : s.mapRefs f = s.mapRefs g := by
  refine congrArg (fun keywords => KeywordStore.mk keywords s.deprecated) ?_
  refine List.map_congr_left fun k hk => ?_
  have hdata : k.data.mapRefs (f k.name) = k.data.mapRefs (g k.name) := by
    refine KeywordData.mapRefs_congr fun r hr => h (k.name, r) ?_
    exact List.mem_flatMap.2 ⟨k, hk, List.mem_map.2 ⟨r, hr, rfl⟩⟩
  rw [hdata]

@[simp] theorem isTreeWide_mapRefs (s : KeywordStore)
    (f : String → NodeFilter → NodeRef → NodeRef) (name : String) :
    (s.mapRefs f).isTreeWide name = s.isTreeWide name := by
  simp [isTreeWide, mapRefs, Keyword.isNamed, Function.comp_def]

/-- References as reading leaves them are names. -/
theorem Matches.eq_named (hdeclared : declared.IsDeclared)
    (h : Matches (KeywordData.IsReadFrom P catalogue) declared held) :
    ∀ r ∈ held.refs, r.2.2 = .named r.2.2.name := by
  intro r hr
  obtain ⟨k, hk, hr⟩ := List.mem_flatMap.1 hr
  obtain ⟨r', hr', rfl⟩ := List.mem_map.1 hr
  obtain ⟨d, hd, hmatch⟩ := h.exists_declared hk
  have hdata := hmatch.data
  split at hdata
  · exact KeywordData.eq_named_of_unlinked hdata.unlinked r' hr'
  · rw [hdata, KeywordData.refs_of_isDeclared (hdeclared d hd).1] at hr'
    cases hr'

/-- **A store that was read can be written and read again**, also when its references were changed
to names that differ in case only. -/
theorem Matches.mapRefs (hP : IsTextClass P) (hdeclared : declared.IsDeclared)
    (h : Matches (KeywordData.IsReadFrom P catalogue) declared held)
    {f : String → NodeFilter → NodeRef → NodeRef}
    (hf : ∀ r ∈ held.refs, sameName (f r.1 r.2.1 r.2.2).name r.2.2.name = true) :
    Matches (KeywordData.Restorable P catalogue) declared (held.mapRefs f) := by
  refine ⟨h.deprecated, List.forall₂_map_right_iff.2 (List.forall₂_iff_get.2
    ⟨h.keywords.length_eq, fun i hi hi' => ?_⟩)⟩
  have hmatch := (List.forall₂_iff_get.1 h.keywords).2 i hi hi'
  refine ⟨hmatch.name, hmatch.treeWide, ?_⟩
  have hdata := hmatch.data
  have hmem : held.keywords.get ⟨i, hi'⟩ ∈ held.keywords := List.get_mem _ _
  generalize held.keywords.get ⟨i, hi'⟩ = k at *
  dsimp only
  split
  · next hset =>
      rw [if_pos hset] at hdata
      refine hdata.restorable.mapRefs hP fun r hr => hf (k.name, r) ?_
      exact List.mem_flatMap.2 ⟨k, hmem, List.mem_map.2 ⟨r, hr, rfl⟩⟩
  · next hset =>
      rw [if_neg hset] at hdata
      rw [hdata, KeywordData.mapRefs_of_isDeclared (hdeclared _ (List.get_mem _ _)).1]

/-! ## Entries read again -/

/-- Only the data set last count. -/
theorem update_setTo_setTo (s : KeywordStore) (name : String) (data data' : KeywordData) :
    ((s.update name fun k => k.setTo data').update name fun k => k.setTo data) =
      s.update name fun k => k.setTo data := by
  have hlists : updateFirst (fun k => k.isNamed name) (fun k => k.setTo data)
      (updateFirst (fun k => k.isNamed name) (fun k => k.setTo data') s.keywords) = _ :=
    updateFirst_updateFirst fun _ hc => hc
  exact congrArg (fun keywords => KeywordStore.mk keywords s.deprecated) hlists

/-- The store with the names of all references only. -/
def unlinked (s : KeywordStore) : KeywordStore := s.mapRefs fun _ _ r => .named r.name

theorem unlinked_eq (s : KeywordStore) :
    s.unlinked = ⟨s.keywords.map Keyword.unlinked, s.deprecated⟩ := rfl

/-- **A store while what was written of another is read again.** -/
structure Progress (P : String → Prop) (catalogue : Catalogue) (done : List String)
    (held now : KeywordStore) : Prop where
  deprecated : now.deprecated = held.deprecated
  keywords : List.Forall₂ (Keyword.Progress P catalogue done) held.keywords now.keywords

/-- No two keywords have the same name. -/
def HasDistinctNames (s : KeywordStore) : Prop :=
  s.keywords.Pairwise fun k k' => sameName k.name k'.name = false

instance (s : KeywordStore) : Decidable s.HasDistinctNames := by
  unfold HasDistinctNames
  infer_instance

theorem Matches.hasDistinctNames (h : Matches R declared held)
    (hdistinct : declared.HasDistinctNames) : held.HasDistinctNames := by
  have hnames : held.keywords.map Keyword.name = declared.keywords.map Keyword.name := by
    refine List.ext_getElem (by simpa using h.keywords.length_eq.symm) fun i hi hi' => ?_
    simpa using ((List.forall₂_iff_get.1 h.keywords).2 i (by simpa using hi')
      (by simpa using hi)).name
  unfold HasDistinctNames at hdistinct ⊢
  rw [← List.pairwise_map (f := Keyword.name) (R := fun s t => sameName s t = false)] at hdistinct ⊢
  rwa [hnames]

/-- Where names are distinct, each keyword is found by its name. -/
theorem find?_name (hdistinct : held.HasDistinctNames) {k : Keyword} (hk : k ∈ held.keywords) :
    held.find? k.name = some k := by
  unfold HasDistinctNames at hdistinct
  unfold find?
  generalize held.keywords = keywords at *
  induction keywords with
  | nil => cases hk
  | cons c keywords ih =>
      obtain ⟨hc, hdistinct⟩ := List.pairwise_cons.1 hdistinct
      rw [List.find?_cons]
      rcases List.mem_cons.1 hk with rfl | hk
      · rw [Keyword.isNamed, sameName_refl]
      · rw [Keyword.isNamed, hc k hk]
        exact ih hdistinct hk

variable {done : List String} {now : KeywordStore}

/-- Before anything was read, the store is as it was declared. -/
theorem Matches.progress (h : Matches (KeywordData.Restorable P catalogue) declared held)
    (hdeclared : declared.IsDeclared) : Progress P catalogue [] held declared := by
  refine ⟨h.deprecated.symm, ?_⟩
  obtain ⟨-, h⟩ := h
  unfold IsDeclared at hdeclared
  generalize declared.keywords = items at *
  generalize held.keywords = others at *
  induction h with
  | nil => exact .nil
  | @cons d k items others hdk _ ih =>
      obtain ⟨⟨hd, hunset⟩, hitems⟩ := List.forall_mem_cons.1 hdeclared
      refine .cons ?_ (ih hitems)
      obtain ⟨dname, ddata, dset, dwide⟩ := d
      obtain ⟨name, data, isSet, wide⟩ := k
      obtain ⟨rfl, rfl, hdata⟩ := hdk
      obtain rfl : dset = false := hunset
      cases isSet with
      -- A keyword that is to be set later stands as declared; one that is not holds what was
      -- declared.
      | true => exact .awaited rfl (by simp) (by simpa using hdata)
      | false =>
          obtain rfl : data = ddata := by simpa using hdata
          have hback : Keyword.unlinked ⟨name, data, false, wide⟩ = ⟨name, data, false, wide⟩ := by
            rw [Keyword.unlinked, KeywordData.unlinked, KeywordData.mapRefs_of_isDeclared hd]
          have hunset : Keyword.Progress P catalogue [] ⟨name, data, false, wide⟩ _ := .unset rfl
          rwa [hback] at hunset

/-- **The entry of one keyword brings back this keyword.** -/
theorem Progress.update (h : Progress P catalogue done held now) (hdistinct : held.HasDistinctNames)
    {k : Keyword} (hk : k ∈ held.setKeywords) (hnew : k.name ∉ done) :
    ∃ k', now.find? k.name = some k' ∧ k'.name = k.name ∧
      k'.data.Restorable P catalogue k.data ∧
      Progress P catalogue (k.name :: done) held
        (now.update k.name fun k' => k'.setTo k.data.unlinked) := by
  obtain ⟨hk, hset⟩ := List.mem_filter.1 hk
  obtain ⟨hdeprecated, h⟩ := h
  suffices hlists : ∃ k', now.keywords.find? (fun k' => k'.isNamed k.name) = some k' ∧
      k'.name = k.name ∧ k'.data.Restorable P catalogue k.data ∧
      List.Forall₂ (Keyword.Progress P catalogue (k.name :: done)) held.keywords
        (updateFirst (fun k' => k'.isNamed k.name) (fun k' => k'.setTo k.data.unlinked)
          now.keywords) by
    obtain ⟨k', hfind, hname, hdata, hprogress⟩ := hlists
    exact ⟨k', hfind, hname, hdata, hdeprecated, hprogress⟩
  unfold HasDistinctNames at hdistinct
  generalize held.keywords = items at *
  generalize now.keywords = others at *
  induction h with
  | nil => cases hk
  | @cons d c items others hdc hrest ih =>
      obtain ⟨hd, hitems⟩ := List.pairwise_cons.1 hdistinct
      rw [List.find?_cons, updateFirst]
      rcases List.mem_cons.1 hk with rfl | hk
      -- The keyword itself, and none of those behind it.
      · have hnamed : c.isNamed k.name = true := by
          rw [Keyword.isNamed, hdc.name, sameName_refl]
        rw [hnamed]
        have hothers : List.Forall₂ (Keyword.Progress P catalogue (k.name :: done)) items others :=
          List.forall₂_iff_get.2 ⟨hrest.length_eq, fun i hi hi' => by
            refine (List.forall₂_iff_get.1 hrest).2 i hi hi' |>.cons fun heq => ?_
            have := hd _ (List.get_mem items ⟨i, hi⟩)
            rw [heq, sameName_refl] at this
            cases this⟩
        cases hdc with
        | back _ hdone => exact absurd hdone hnew
        | unset hunset => rw [hset] at hunset; cases hunset
        | awaited _ _ hdata =>
            refine ⟨_, rfl, rfl, hdata, .cons ?_ hothers⟩
            have hback : Keyword.Progress P catalogue (k.name :: done) k _ :=
              .back hset List.mem_cons_self
            rwa [Keyword.unlinked, hset] at hback
      -- Another one in front of it.
      · have hne : sameName c.name k.name = false := by rw [hdc.name]; exact hd k hk
        have hnamed : c.isNamed k.name = false := hne
        rw [hnamed]
        obtain ⟨k', hfind, hname, hdata, hprogress⟩ := ih hitems hk
        refine ⟨k', hfind, hname, hdata, .cons (hdc.cons fun heq => ?_) hprogress⟩
        rw [hdc.name, heq, sameName_refl] at hne
        cases hne

/-- **Once all entries were read, the store is back.** -/
theorem Progress.eq_unlinked (h : Progress P catalogue done held now)
    (hdone : ∀ k ∈ held.setKeywords, k.name ∈ done) : now = held.unlinked := by
  obtain ⟨hdeprecated, h⟩ := h
  have hkeywords : now.keywords = held.keywords.map Keyword.unlinked := by
    simp only [setKeywords, List.mem_filter] at hdone
    generalize held.keywords = items at *
    generalize now.keywords = others at *
    induction h with
    | nil => rfl
    | @cons d c items others hdc _ ih =>
        rw [List.map_cons, ih fun k hk => hdone k ⟨by simp [hk.1], hk.2⟩]
        cases hdc with
        | back _ _ => rfl
        | unset _ => rfl
        | awaited hset hnot _ => exact absurd (hdone d ⟨by simp, hset⟩) hnot
  rw [unlinked_eq, ← hkeywords, ← hdeprecated]

end KeywordStore

end SiteAnalysis
