import Mathlib.Data.List.Pairwise
import SiteAnalysis.Proofs.Keyword.Data
import SiteAnalysis.Proofs.Run.Candidates

set_option autoImplicit false

/-! # The catalogue of a configuration

The catalogue of a configuration is built up record by record, and a record adds at most one species
and one site. Main statements:

* `Catalogue.IsApart.addSite`, `Catalogue.lists_addSite`: what one record does to the names and to
  the sites that are listed.
* `Configuration.isApart_catalogue`, `Configuration.lists_catalogue_iff`: the same for all records.
* `Configuration.catalogue_matches`: a catalogue finds the sites that its configuration has.
-/

namespace SiteAnalysis

/-! ## Names apart -/

/-- **Names that are told apart** without regard to case. -/
def NamesApart (names : List String) : Prop := names.Pairwise fun s t => sameName s t = false

theorem namesApart_nil : NamesApart [] := List.Pairwise.nil

/-- A name that is not among names that are apart joins them. -/
theorem NamesApart.concat {names : List String} {name : String} (h : NamesApart names)
    (hnew : ∀ s ∈ names, sameName s name = false) : NamesApart (names ++ [name]) := by
  refine List.pairwise_append.2 ⟨h, List.pairwise_singleton _ _, ?_⟩
  intro s hs t ht
  rw [List.mem_singleton.1 ht]
  exact hnew s hs

/-- Items whose names are apart are told by their names. -/
theorem NamesApart.eq_of_sameName {α : Type} {name : α → String} {items : List α}
    (h : NamesApart (items.map name)) {a b : α} (ha : a ∈ items) (hb : b ∈ items)
    (hsame : sameName (name a) (name b) = true) : a = b := by
  by_contra hne
  have hpairs : items.Pairwise fun a b => sameName (name a) (name b) = false := List.pairwise_map.1 h
  have hsymm : Std.Symm fun a b => sameName (name a) (name b) = false :=
    ⟨fun a b hab => (sameName_comm (name b) (name a)).trans hab⟩
  have happart : sameName (name a) (name b) = false := hpairs.forall ha hb hne
  rw [hsame] at happart
  cases happart

/-! ## One record -/

namespace Catalogue

variable {all : List Species} {species site a b : String}

/-- **No name stands twice** among the species, nor among the sites of one of them. -/
structure IsApart (all : List Species) : Prop where
  names : NamesApart (all.map Species.name)
  sites : ∀ s ∈ all, NamesApart s.sites

theorem isApart_nil : IsApart [] := ⟨namesApart_nil, nofun⟩

/-- **Whether a site of a species is listed**, by any of the species of the name. -/
def Lists (all : List Species) (species site : String) : Prop :=
  ∃ s ∈ all, sameName s.name species = true ∧ ∃ t ∈ s.sites, sameName t site = true

theorem not_lists_nil : ¬ Lists [] a b := by
  rintro ⟨s, hs, -⟩
  cases hs

theorem lists_cons {s : Species} : Lists (s :: all) a b ↔
    (sameName s.name a = true ∧ ∃ t ∈ s.sites, sameName t b = true) ∨ Lists all a b := by
  rw [Lists, List.exists_mem_cons_iff, Lists]

/-- The species of a name with one more site, unless it has the site already. -/
def withSite (site : String) (s : Species) : Species :=
  if s.sites.any fun t => sameName t site then s else { s with sites := s.sites ++ [site] }

@[simp] theorem name_withSite (s : Species) : (withSite site s).name = s.name := by
  unfold withSite
  split <;> rfl

theorem namesApart_withSite {s : Species} (h : NamesApart s.sites) :
    NamesApart (withSite site s).sites := by
  unfold withSite
  split
  · exact h
  · next hnew =>
    refine h.concat fun t ht => ?_
    by_contra hsame
    exact hnew (List.any_eq_true.2 ⟨t, ht, by simpa using hsame⟩)

/-- The sites of a species after one more: those it had, and the new one. -/
theorem exists_mem_withSite {s : Species} : (∃ t ∈ (withSite site s).sites, sameName t b = true) ↔
    (∃ t ∈ s.sites, sameName t b = true) ∨ sameName site b = true := by
  unfold withSite
  split
  · next hold =>
    obtain ⟨t, ht, hsame⟩ := List.any_eq_true.1 hold
    have hcongr : sameName site b = true → sameName t b = true := by
      intro hb
      rw [← sameName_congr_right hb]
      exact hsame
    exact ⟨.inl, fun h => h.elim id fun hb => ⟨t, ht, hcongr hb⟩⟩
  · simp only [List.mem_append, List.mem_singleton]
    constructor
    · rintro ⟨t, ht | rfl, hb⟩
      · exact .inl ⟨t, ht, hb⟩
      · exact .inr hb
    · rintro (⟨t, ht, hb⟩ | hb)
      · exact ⟨t, .inl ht, hb⟩
      · exact ⟨site, .inr rfl, hb⟩

theorem addSite_cons {s : Species} : addSite species site (s :: all) =
    if sameName s.name species then withSite site s :: all
    else s :: addSite species site all := rfl

/-- A species stays where it is, or a new one is put at the end. -/
theorem names_addSite (species site : String) (all : List Species) :
    (addSite species site all).map Species.name = all.map Species.name ∨
    (addSite species site all).map Species.name = all.map Species.name ++ [species] ∧
      ∀ s ∈ all, sameName s.name species = false := by
  induction all with
  | nil => exact .inr ⟨rfl, nofun⟩
  | cons s all ih =>
      rw [addSite_cons]
      by_cases hs : sameName s.name species = true
      · rw [if_pos hs, List.map_cons, name_withSite]
        exact .inl rfl
      · rw [if_neg hs, List.map_cons, List.map_cons]
        rcases ih with hold | ⟨hnew, hapart⟩
        · exact .inl (congrArg _ hold)
        · exact .inr ⟨congrArg _ hnew, List.forall_mem_cons.2 ⟨by simpa using hs, hapart⟩⟩

theorem namesApart_of_mem_addSite (h : ∀ s ∈ all, NamesApart s.sites) :
    ∀ s ∈ addSite species site all, NamesApart s.sites := by
  induction all with
  | nil => exact List.forall_mem_singleton.2 (List.pairwise_singleton _ _)
  | cons s all ih =>
      obtain ⟨hs, hall⟩ := List.forall_mem_cons.1 h
      rw [addSite_cons]
      split
      · exact List.forall_mem_cons.2 ⟨namesApart_withSite hs, hall⟩
      · exact List.forall_mem_cons.2 ⟨hs, ih hall⟩

/-- **A record leaves the names apart.** -/
theorem IsApart.addSite (h : IsApart all) : IsApart (addSite species site all) := by
  refine ⟨?_, namesApart_of_mem_addSite h.sites⟩
  rcases names_addSite species site all with hold | ⟨hnew, hapart⟩
  · rw [hold]
    exact h.names
  · rw [hnew]
    exact h.names.concat (List.forall_mem_map.2 hapart)

/-- **A record adds its own site** to what is listed. -/
theorem lists_addSite : Lists (addSite species site all) a b ↔
    Lists all a b ∨ sameName species a = true ∧ sameName site b = true := by
  induction all with
  | nil =>
      change Lists [⟨species, [site]⟩] a b ↔ _
      simp [lists_cons, not_lists_nil]
  | cons s all ih =>
      rw [addSite_cons]
      by_cases hs : sameName s.name species = true
      · -- The species is there: it goes by the name of the record exactly if `species` does.
        have hname : sameName s.name a = sameName species a := by
          rw [sameName_comm, sameName_congr_right hs, sameName_comm]
        rw [if_pos hs, lists_cons, lists_cons, name_withSite, exists_mem_withSite, hname, and_or_left,
          or_right_comm]
      · rw [if_neg hs, lists_cons, lists_cons, ih, or_assoc]

/-- Where no two species share a name, a site is found exactly if it is listed: the first species
of a name is the only one. -/
theorem isSome_findSite?_iff {c : Catalogue} (h : IsApart c.species) :
    (c.findSite? a b).isSome = true ↔ Lists c.species a b := by
  constructor
  · intro hfound
    obtain ⟨found, hfound⟩ := Option.isSome_iff_exists.1 hfound
    obtain ⟨s, hs, -, ht⟩ := findSite?_eq_some_iff.1 hfound
    exact ⟨s, List.mem_of_find?_eq_some hs,
      List.find?_some (p := fun s : Species => sameName s.name a) hs, found.2,
      List.mem_of_find?_eq_some ht, List.find?_some (p := fun t => sameName t b) ht⟩
  · rintro ⟨s, hs, hname, t, ht, hsite⟩
    obtain ⟨s', hs'⟩ : ∃ s', c.findSpecies? a = some s' :=
      Option.isSome_iff_exists.1 (List.find?_isSome.2 ⟨s, hs, hname⟩)
    have hsame : sameName s.name s'.name = true := by
      have hname' : sameName s'.name a = true :=
        List.find?_some (p := fun s : Species => sameName s.name a) hs'
      rw [sameName_congr_right hname']
      exact hname
    -- The species that is found is the one that is listed, since no other has its name.
    obtain rfl : s = s' := h.names.eq_of_sameName hs (List.mem_of_find?_eq_some hs') hsame
    obtain ⟨t', ht'⟩ : ∃ t', s.sites.find? (fun t => sameName t b) = some t' :=
      Option.isSome_iff_exists.1 (List.find?_isSome.2 ⟨t, ht, hsite⟩)
    have hfound : c.findSite? a b = some (s.name, t') :=
      findSite?_eq_some_iff.2 ⟨s, hs', rfl, ht'⟩
    rw [hfound]
    rfl

end Catalogue

/-! ## All records -/

namespace Configuration

open Catalogue (IsApart isApart_nil Lists not_lists_nil lists_addSite sameName_of_findSite?
  isSome_findSite?_iff)

variable {c : Configuration} {species site a b : String}

/-- The sites that the records name. -/
def Records (records : List SiteRecord) (species site : String) : Prop :=
  ∃ r ∈ records, sameName r.species species = true ∧ sameName r.site site = true

theorem records_cons {r : SiteRecord} {records : List SiteRecord} : Records (r :: records) a b ↔
    (sameName r.species a = true ∧ sameName r.site b = true) ∨ Records records a b := by
  rw [Records, List.exists_mem_cons_iff, Records]

theorem isApart_foldl (records : List SiteRecord) {all : List Species} (h : IsApart all) :
    IsApart (records.foldl (fun all r => Catalogue.addSite r.species r.site all) all) := by
  induction records generalizing all with
  | nil => exact h
  | cons r records ih => exact ih h.addSite

theorem lists_foldl_iff (records : List SiteRecord) {all : List Species} :
    Lists (records.foldl (fun all r => Catalogue.addSite r.species r.site all) all) a b ↔
      Lists all a b ∨ Records records a b := by
  induction records generalizing all with
  | nil => simp [Records]
  | cons r records ih => rw [List.foldl_cons, ih, lists_addSite, records_cons, or_assoc]

/-- **No name stands twice in the catalogue of a configuration.** -/
theorem isApart_catalogue (c : Configuration) : IsApart c.catalogue.species :=
  isApart_foldl c.records isApart_nil

/-- **The catalogue lists what the records name.** -/
theorem lists_catalogue_iff : Lists c.catalogue.species a b ↔ Records c.records a b := by
  rw [catalogue, lists_foldl_iff, or_iff_right not_lists_nil]

theorem sitesOf_ne_nil_iff : c.sitesOf species site ≠ [] ↔ Records c.records species site := by
  constructor
  · intro hne
    obtain ⟨s, hs⟩ := List.exists_mem_of_ne_nil _ hne
    obtain ⟨r, hr, hnames⟩ := mem_sitesWhere_iff.1 hs
    exact ⟨r, List.mem_of_getElem? hr.1, by simpa using hnames⟩
  · rintro ⟨r, hr, hnames⟩
    obtain ⟨i, hi⟩ := List.getElem?_of_mem hr
    have hs : r.toSite i ∈ c.sitesOf species site :=
      mem_sitesWhere_iff.2 ⟨r, ⟨hi, rfl⟩, by simpa using hnames⟩
    exact List.ne_nil_of_mem hs

/-- The case of names does not matter for the sites they stand for. -/
theorem sitesOf_congr (hspecies : sameName a species = true) (hsite : sameName b site = true) :
    c.sitesOf a b = c.sitesOf species site := by
  unfold sitesOf
  simp only [sameName_congr_right hspecies, sameName_congr_right hsite]

/-- **The catalogue of a configuration matches it**: no name stands twice in it, it finds a site
exactly if the configuration has sites of the names asked for, and those are the sites of the names
found. -/
theorem catalogue_matches (c : Configuration) :
    NamesApart (c.catalogue.species.map Species.name) ∧
    (∀ s ∈ c.catalogue.species, NamesApart s.sites) ∧
    ∀ species site : String,
      ((c.catalogue.findSite? species site).isSome = true ↔ c.sitesOf species site ≠ []) ∧
      ∀ found ∈ c.catalogue.findSite? species site,
        c.sitesOf found.1 found.2 = c.sitesOf species site := by
  refine ⟨(isApart_catalogue c).names, (isApart_catalogue c).sites, fun species site => ⟨?_, ?_⟩⟩
  · calc (c.catalogue.findSite? species site).isSome = true
      _ ↔ Lists c.catalogue.species species site := isSome_findSite?_iff (isApart_catalogue c)
      _ ↔ Records c.records species site := lists_catalogue_iff
      _ ↔ c.sitesOf species site ≠ [] := sitesOf_ne_nil_iff.symm
  · intro found hfound
    obtain ⟨hspecies, hsite⟩ := sameName_of_findSite? hfound
    exact sitesOf_congr hspecies hsite

/-- Two molecules of water whose records are spelled in different ways. -/
def spelledDifferently : Configuration where
  name := "Liquid"
  cell := ⟨.constant 1.0, .constant 90.0, ⟨1.0, 0.0, 0.0⟩, ⟨0.0, 1.0, 0.0⟩, ⟨0.0, 0.0, 1.0⟩,
    ⟨1.0, 0.0, 0.0⟩, ⟨0.0, 1.0, 0.0⟩, ⟨0.0, 0.0, 1.0⟩, 1.0, true⟩
  records := [⟨"Water", "O", 0, .constant 0.0⟩, ⟨"water", "H", 0, .constant 0.25⟩,
    ⟨"WATER", "o", 1, .constant 0.5⟩]
  version := 3

theorem catalogue_matches_spelledDifferently :
    spelledDifferently.catalogue.species = [⟨"Water", ["O", "H"]⟩] ∧
      spelledDifferently.catalogue.findSite? "waTER" "o" = some ("Water", "O") ∧
      spelledDifferently.sitesOf "Water" "O" = spelledDifferently.sitesOf "waTER" "o" := by
  have hfound : spelledDifferently.catalogue.findSite? "waTER" "o" = some ("Water", "O") := by
    decide
  exact ⟨by decide, hfound, ((catalogue_matches spelledDifferently).2.2 "waTER" "o").2 _ hfound⟩

end Configuration

end SiteAnalysis
