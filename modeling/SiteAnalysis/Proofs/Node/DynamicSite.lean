import SiteAnalysis.Proofs.Node.Words

set_option autoImplicit false

/-! # Blocks of dynamic sites, written and read again

A block that was read lists names as the catalogue spells them, and none of them twice
(`DynamicSite.IsReadFrom`). While such a block is read again, each of its lists is there once its
entry was read (`DynamicSite.partly`). Main statements:

* `DynamicSite.IsReadFrom.readLine`: reading a line leaves a block of that form.
* `DynamicSite.IsReadFrom.addNames_partly`: the names of a list bring back this list.
* `DynamicSite.IsReadFrom.readMembers`: the document of a block gives the block back.
-/

namespace SiteAnalysis

theorem SourceList.ofKeyword?_keyword (list : SourceList) :
    SourceList.ofKeyword? list.keyword = some list := by
  cases list <;> decide

theorem SourceList.keyword_inj {list list' : SourceList} :
    list.keyword = list'.keyword ↔ list = list' := by
  cases list <;> cases list' <;> simp [keyword]

namespace DynamicSite

variable {P : String → Prop} {catalogue : Catalogue} {list : SourceList} {d : DynamicSite}
  {done : List String}

/-! ## Blocks that were read -/

theorem canonical_found {name found : String} (h : canonical catalogue name list = .ok found) :
    canonical catalogue found list = .ok found ∧ sameName found name = true := by
  cases list with
  | siteNames =>
      simp only [canonical] at h ⊢
      split at h
      · next f hf =>
          obtain rfl : f = found := Except.ok.inj h
          have hback : catalogue.findSiteName? f = some f := find?_sameName_found (f := id) hf
          rw [hback]
          exact ⟨rfl, List.find?_some (p := fun t => sameName t name) hf⟩
      · cases h
  | species =>
      simp only [canonical] at h ⊢
      split at h
      · next s hs =>
          obtain rfl : s.name = found := Except.ok.inj h
          rw [Catalogue.findSpecies?_found hs]
          exact ⟨rfl, List.find?_some (p := fun s : Species => sameName s.name name) hs⟩
      · cases h

/-- Names in the spelling of the catalogue, none of them twice. -/
structure AreNames (P : String → Prop) (catalogue : Catalogue) (list : SourceList)
    (names : List String) : Prop where
  found : ∀ name ∈ names, canonical catalogue name list = .ok name
  texts : ∀ name ∈ names, P name
  distinct : names.Pairwise fun m n => sameName m n = false

/-- **A block as reading leaves it.** -/
def IsReadFrom (P : String → Prop) (catalogue : Catalogue) (d : DynamicSite) : Prop :=
  ∀ list, AreNames P catalogue list (d.names list)

theorem isReadFrom_empty : IsReadFrom P catalogue .empty := fun list => by
  cases list <;> exact ⟨by simp [names, empty], by simp [names, empty], by simp [names, empty]⟩

@[simp] theorem names_push (d : DynamicSite) (name : String) (list list' : SourceList) :
    (d.push name list).names list' =
      if list' = list then d.names list' ++ [name] else d.names list' := by
  cases list <;> cases list' <;> rfl

theorem IsReadFrom.addName (hP : IsTextClass P) (h : IsReadFrom P catalogue d) {name : String}
    (hname : P name) {d' : DynamicSite} (hadd : d.addName catalogue list name = .ok d') :
    IsReadFrom P catalogue d' := by
  unfold DynamicSite.addName at hadd
  split at hadd
  · cases hadd
  · next found hfound =>
      split at hadd
      · cases hadd
      · next hnew =>
          obtain rfl := Except.ok.inj hadd
          obtain ⟨hback, hsame⟩ := canonical_found hfound
          have hnew : ∀ n ∈ d.names list, sameName n found = false := by simpa using hnew
          -- Only the list that the name is added to has changed.
          intro list'
          rw [names_push]
          split
          · next heq =>
              subst heq
              obtain ⟨hall, htexts, hdistinct⟩ := h list'
              refine ⟨List.forall_mem_append.2 ⟨hall, by simpa using hback⟩,
                List.forall_mem_append.2 ⟨htexts, ?_⟩,
                List.pairwise_append.2 ⟨hdistinct, by simp, by simpa using hnew⟩⟩
              simpa using hP.same ((sameName_comm _ _).trans hsame) hname
          · exact h list'

theorem IsReadFrom.addEach (hP : IsTextClass P) {names : List String} (hnames : ∀ a ∈ names, P a)
    (h : IsReadFrom P catalogue d) :
    IsReadFrom P catalogue (DynamicSite.addEach catalogue list names d).2 := by
  induction names generalizing d with
  | nil => exact h
  | cons name names ih =>
      obtain ⟨hname, hnames⟩ := List.forall_mem_cons.1 hnames
      rw [DynamicSite.addEach]
      split
      · next hadd => exact ih hnames (h.addName hP hname hadd)
      · exact h

theorem IsReadFrom.addNames (hP : IsTextClass P) {names : List String} (hnames : ∀ a ∈ names, P a)
    (h : IsReadFrom P catalogue d) (keyword : String) :
    IsReadFrom P catalogue (d.addNames catalogue keyword list names).2 := by
  unfold DynamicSite.addNames
  split
  · exact h
  · exact h.addEach hP hnames

/-- **Reading a line leaves a block that can be written and read again.** -/
theorem IsReadFrom.readLine (hP : IsTextClass P) {values : List String}
    (hvalues : ∀ a ∈ values, P a) (h : IsReadFrom P catalogue d) (keyword : String) :
    IsReadFrom P catalogue (d.readLine keyword values catalogue).2 := by
  unfold DynamicSite.readLine
  split
  · exact h
  · next list _ =>
      have hadded : IsReadFrom P catalogue (d.addNames catalogue keyword list values).2 :=
        h.addNames hP hvalues keyword
      split <;> next heq => rwa [heq] at hadded

/-! ## Reading a block again -/

/-- The block with those of its lists whose entries were read. -/
def partly (done : List String) (d : DynamicSite) : DynamicSite where
  siteNames := if SourceList.siteNames.keyword ∈ done then d.siteNames else []
  species := if SourceList.species.keyword ∈ done then d.species else []

theorem names_partly (list : SourceList) : (d.partly done).names list =
    if list.keyword ∈ done then d.names list else [] := by
  cases list <;> rfl

theorem ext_names {d d' : DynamicSite} (h : ∀ list, d.names list = d'.names list) : d = d' := by
  have hnames := h .siteNames
  have hspecies := h .species
  obtain ⟨s, t⟩ := d
  obtain ⟨s', t'⟩ := d'
  obtain rfl : s = s' := hnames
  obtain rfl : t = t' := hspecies
  rfl

/-- Other keys say nothing about the lists. -/
theorem partly_cons {key : String} (h : ∀ list : SourceList, list.keyword ≠ key) :
    d.partly (key :: done) = d.partly done := by
  simp [partly, h]

theorem partly_nil : d.partly [] = .empty := rfl

/-- Once the entries of all lists were read, the block is back. -/
theorem partly_eq_self (h : ∀ list, d.names list ≠ [] → SourceList.keyword list ∈ done) :
    d.partly done = d := by
  refine ext_names fun list => ?_
  rw [names_partly]
  split
  · rfl
  · next hnot => exact (not_not.1 fun hne => hnot (h list hne)).symm

/-- A list that comes behind what the block lists already. -/
theorem addEach_eq {names : List String} (h : AreNames P catalogue list (d.names list ++ names)) :
    ∃ d', DynamicSite.addEach catalogue list names d = (.ok (), d') ∧
      ∀ list', d'.names list' =
        if list' = list then d.names list' ++ names else d.names list' := by
  induction names generalizing d with
  | nil => exact ⟨d, rfl, by simp⟩
  | cons name names ih =>
      have hfound := h.found name (by simp)
      have hnew : (d.names list).any (fun n => sameName n name) = false := by
        rw [List.any_eq_false]
        intro n hn
        simp [(List.pairwise_append.1 h.distinct).2.2 n hn name (by simp)]
      have hadd : d.addName catalogue list name = .ok (d.push name list) := by
        simp [DynamicSite.addName, hfound, hnew]
      obtain ⟨d', heach, hnames⟩ := ih (d := d.push name list) (by simpa using h)
      refine ⟨d', ?_, fun list' => ?_⟩
      · rw [DynamicSite.addEach, hadd]
        exact heach
      · rw [hnames, names_push]
        split <;> simp

/-- **The names of a list bring back this list.** -/
theorem IsReadFrom.addNames_partly (h : IsReadFrom P catalogue d) (hne : d.names list ≠ [])
    (hnew : list.keyword ∉ done) (keyword : String) :
    (d.partly done).addNames catalogue keyword list (d.names list) =
      (.ok (), d.partly (list.keyword :: done)) := by
  have hempty : (d.partly done).names list = [] := by rw [names_partly, if_neg hnew]
  have hentries := h list
  rw [← List.nil_append (d.names list), ← hempty] at hentries
  obtain ⟨d', heach, hnames⟩ := addEach_eq hentries
  have hback : d' = d.partly (list.keyword :: done) := by
    refine ext_names fun list' => ?_
    rw [hnames]
    split
    · next heq => rw [heq, hempty, names_partly, if_pos List.mem_cons_self, List.nil_append]
    · next hother =>
        simp [names_partly, SourceList.keyword_inj, hother]
  rw [DynamicSite.addNames, if_neg (by simpa using hne), heach, hback]

/-! ## Lines -/

/-- The lines of a block, each as its arguments with the keyword in front. -/
def args (d : DynamicSite) : List (List String) :=
  [SourceList.siteNames, .species].filterMap fun list =>
    if (d.names list).isEmpty then none else some (list.keyword :: d.names list)

/-- The lists of a block that are written. -/
def filled (d : DynamicSite) : List SourceList :=
  [SourceList.siteNames, .species].filter fun list => !(d.names list).isEmpty

theorem mem_filled_iff : list ∈ d.filled ↔ d.names list ≠ [] := by
  rw [filled, List.mem_filter]
  cases list <;> simp

theorem nodup_filled (d : DynamicSite) : d.filled.Nodup := List.Nodup.filter _ (by decide)

theorem args_eq (d : DynamicSite) :
    d.args = d.filled.map fun list => list.keyword :: d.names list := by
  obtain ⟨_ | ⟨s, ss⟩, _ | ⟨t, ts⟩⟩ := d <;> rfl

theorem lines_eq (d : DynamicSite) :
    d.lines = d.args.map fun args => String.intercalate "  " (args.map quote) := by
  have hquote : ∀ list : SourceList, quote list.keyword = list.keyword := fun list =>
    IsPlain.quote (by cases list <;> decide)
  rw [lines, args, List.map_filterMap]
  congr 1
  funext list
  split
  · rfl
  · simp [hquote]

theorem mem_args_iff {line : List String} :
    line ∈ d.args ↔ ∃ list, d.names list ≠ [] ∧ line = list.keyword :: d.names list := by
  simp only [args, List.mem_filterMap, Option.ite_none_left_eq_some, Option.some.injEq]
  constructor
  · rintro ⟨list, -, hne, rfl⟩
    exact ⟨list, by simpa using hne, rfl⟩
  · rintro ⟨list, hne, rfl⟩
    exact ⟨list, by cases list <;> simp, by simpa using hne, rfl⟩

/-- The line of a list brings back this list. -/
theorem IsReadFrom.readLine_partly (h : IsReadFrom P catalogue d) (hne : d.names list ≠ [])
    (hnew : list.keyword ∉ done) :
    (d.partly done).readLine list.keyword (d.names list) catalogue =
      (.success, d.partly (list.keyword :: done)) := by
  rw [DynamicSite.readLine, list.ofKeyword?_keyword]
  dsimp only
  rw [h.addNames_partly hne hnew]

/-! ## Documents -/

theorem mem_toMembers_iff {m : String × Json} : m ∈ d.toMembers ↔
    ∃ list, d.names list ≠ [] ∧ m = (SourceList.keyword list, Json.texts (d.names list)) := by
  simp only [toMembers, List.mem_filterMap, Option.ite_none_left_eq_some, Option.some.injEq]
  constructor
  · rintro ⟨list, -, hne, rfl⟩
    exact ⟨list, by simpa using hne, rfl⟩
  · rintro ⟨list, hne, rfl⟩
    exact ⟨list, by cases list <;> simp, by simpa using hne, rfl⟩

theorem nodup_keys_toMembers (d : DynamicSite) : (d.toMembers.map Prod.fst).Nodup := by
  obtain ⟨_ | ⟨s, ss⟩, _ | ⟨t, ts⟩⟩ := d <;> simp [toMembers, names, SourceList.keyword]

theorem mapM_text?_texts (items : List String) :
    (Json.texts items).array?.bind (fun items => items.mapM Json.text?) = some items :=
  (KeywordData.mapM_map_eq_some (f := Json.text?) (h := id) fun _ _ => rfl).trans
    (congrArg some (List.map_id _))

/-- The member of a list brings back this list. -/
theorem IsReadFrom.readMember_partly (h : IsReadFrom P catalogue d) (hne : d.names list ≠ [])
    (hnew : list.keyword ∉ done) :
    (d.partly done).readMember list.keyword (.texts (d.names list)) catalogue =
      (.ok true, d.partly (list.keyword :: done)) := by
  rw [DynamicSite.readMember, list.ofKeyword?_keyword]
  dsimp only
  rw [mapM_text?_texts]
  dsimp only
  rw [h.addNames_partly hne hnew]
  rfl

theorem not_isCommonMember_keyword (list : SourceList) : isCommonMember list.keyword = false := by
  cases list <;> decide

/-- **The members of the document of a block give the block back**, in whatever order. -/
theorem IsReadFrom.readMembers (h : IsReadFrom P catalogue d) {members : List (String × Json)}
    (hall : ∀ m ∈ members, isCommonMember m.1 = true ∨ m ∈ d.toMembers)
    (hnodup : (members.map Prod.fst).Nodup) (hnew : ∀ m ∈ members, m.1 ∉ done) :
    DynamicSite.readMembers catalogue members (d.partly done) =
      ([], d.partly (members.reverse.map Prod.fst ++ done)) := by
  induction members generalizing done with
  | nil => rfl
  | cons m members ih =>
      obtain ⟨hm, hall⟩ := List.forall_mem_cons.1 hall
      obtain ⟨hother, hnodup⟩ := List.nodup_cons.1 hnodup
      obtain ⟨hmnew, hnew⟩ := List.forall_mem_cons.1 hnew
      have hnew' : ∀ n ∈ members, n.1 ∉ m.1 :: done := fun n hn hmem => by
        rcases List.mem_cons.1 hmem with heq | hmem
        · exact hother (heq ▸ List.mem_map.2 ⟨n, hn, rfl⟩)
        · exact hnew n hn hmem
      have hstep := ih hall hnodup hnew'
      obtain ⟨key, j⟩ := m
      have hdone : (((key, j) :: members).reverse.map Prod.fst) ++ done =
          members.reverse.map Prod.fst ++ key :: done := by simp
      rw [hdone, DynamicSite.readMembers]
      rcases hm with hcommon | hm
      -- The type of the block says nothing about its lists.
      · have hkeyword : ∀ list : SourceList, list.keyword ≠ key := by
          rintro list rfl
          rw [not_isCommonMember_keyword] at hcommon
          cases hcommon
        rw [if_pos hcommon, ← hstep, partly_cons hkeyword]
      · obtain ⟨list, hne, heq⟩ := mem_toMembers_iff.1 hm
        obtain ⟨rfl, rfl⟩ := Prod.mk.inj heq
        rw [not_isCommonMember_keyword, if_neg (by decide), h.readMember_partly hne hmnew]
        dsimp only
        rw [hstep]
        rfl

end DynamicSite

end SiteAnalysis
