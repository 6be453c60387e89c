import SiteAnalysis.Proofs.Node.Entries

set_option autoImplicit false

/-! # Nodes that are read again

`Node.reissued` is what reading makes of what was written of a node: the same node with another
identity, whose references are names and whose parameters are numbered anew. While its entries are
read, some parts of it are there already (`Node.Progress`). Main statements:

* `Node.progress_fresh`: the fresh node of the type and the name is where reading starts.
* `Node.Progress.keyword`: the entry of a keyword brings back this keyword.
* `Node.Progress.eq_reissued`: once all entries were read, the node is back.
-/

namespace SiteAnalysis

variable {P : String → Prop} {catalogue : Catalogue}

/-- Parameters numbered in the order in which they stand. -/
def renumbered (parameters : List Declared) : List Declared :=
  parameters.mapIdx fun i d => ⟨i, d.parameter⟩

namespace NodeKind

/-- The kind with those of its parts whose entries were read. -/
def partly (done : List String) : NodeKind → NodeKind
  | select blocks _ => select (if NodeType.dynamicSite.keyword ∈ done then blocks else []) []
  | dynamicSite block => dynamicSite (block.partly done)
  | kind => kind

theorem type_partly (done : List String) (kind : NodeKind) : (kind.partly done).type = kind.type := by
  cases kind <;> rfl

theorem partly_nil {kind : NodeKind} (h : kind.IsReadFrom P catalogue) :
    kind.partly [] = .ofType kind.type := by
  cases h with
  | select hblocks => rfl
  | dynamicSite hblock => rfl
  | @plain _ t heq _ _ =>
      subst heq
      cases t <;> rfl

/-- A word that is no key of a kind's own says nothing about its parts. -/
theorem partly_cons {kind : NodeKind} {key : String} (h : key ≠ NodeType.dynamicSite.keyword)
    (hlist : kind.type = .dynamicSite → ∀ list : SourceList, list.keyword ≠ key)
    (done : List String) : kind.partly (key :: done) = kind.partly done := by
  cases kind with
  | select blocks chosen => simp [partly, h.symm]
  | dynamicSite block => rw [partly, DynamicSite.partly_cons (hlist rfl)]; rfl
  | _ => rfl

end NodeKind

namespace Node

/-- **The node that comes back**, with an identity and in a context. -/
def reissued (id : NodeId) (context : Context) (n : Node) : Node where
  id
  kind := n.kind
  name := n.name
  keywords := n.keywords.unlinked
  parameters := renumbered n.parameters
  replaced := []
  branch := n.branch.map fun l => { Level.branch id l.keyword with context }

/-- The parameters that are there when some entries were read. -/
def partlyParameters (done : List String) (n : Node) : List Declared :=
  if n.type = .parameters ∧ parameterKeyword ∉ done then [] else renumbered n.parameters

/-- **A node while what was written of another is read again.** -/
structure Progress (P : String → Prop) (catalogue : Catalogue) (id : NodeId) (done : List String)
    (n now : Node) : Prop where
  identity : now.id = id
  kind : now.kind = n.kind.partly done
  name : now.name = n.name
  keywords : n.keywords.Progress P catalogue done now.keywords
  parameters : now.parameters = n.partlyParameters done
  replaced : now.replaced = []
  branch : now.branch = n.type.branchKeyword?.map (Level.branch id)

/-- The fresh node that is made for what was written of a node. -/
def freshLike (id : NodeId) (n : Node) : Node :=
  if n.name.isEmpty then ofType id n.type else (ofType id n.type).rename n.name

/-- A node whose keywords come back from what is written of them. -/
abbrev IsRestorable (P : String → Prop) (catalogue : Catalogue) (n : Node) : Prop :=
  n.Fits (KeywordData.Restorable P catalogue) P catalogue

variable {n now : Node} {id : NodeId} {done : List String}

/-- A node whose keywords can be written. -/
abbrev IsWritable (P : String → Prop) (catalogue : Catalogue) (n : Node) : Prop :=
  n.Fits (KeywordData.Written P catalogue) P catalogue

/-- **Whether all lists of nodes of a node have as many as their keywords take.** -/
def isCounted (n : Node) : Bool := n.keywords.setKeywords.all fun k => k.data.isCounted

theorem IsRestorable.isWritable (h : n.IsRestorable P catalogue) : n.IsWritable P catalogue :=
  { h with keywords := h.keywords.mono fun _ _ _ hdata => hdata.written }

theorem IsWritable.isRestorable (h : n.IsWritable P catalogue) (hcounted : n.isCounted = true) :
    n.IsRestorable P catalogue :=
  { h with keywords := h.keywords.mono fun k hk _ hdata =>
      hdata.restorable (List.all_eq_true.1 hcounted k hk) }

theorem freshLike_eq (hname : IsWordName n.name) (id : NodeId) : freshLike id n =
    { ofType id n.type with
      name := n.name
      parameters := if n.type = .select then [⟨0, ⟨"nSelected", some n.name, .int 0⟩⟩] else [] } := by
  unfold freshLike
  split
  · next hempty =>
      obtain hempty : n.name = "" := by simpa using hempty
      rw [hempty]
      rfl
  · rw [Node.rename, niceName_of_isWordName hname]
    cases n.type <;> rfl

theorem HoldsParameters.eq_select (h : n.HoldsParameters) (htype : n.type = .select) :
    n.parameters = [⟨0, ⟨"nSelected", some n.name, .int 0⟩⟩] := by
  unfold HoldsParameters at h
  rwa [htype] at h

theorem HoldsParameters.areRead (h : n.HoldsParameters) (htype : n.type = .parameters) :
    AreReadParameters n.parameters := by
  unfold HoldsParameters at h
  rwa [htype] at h

theorem HoldsParameters.eq_nil (h : n.HoldsParameters) (hselect : n.type ≠ .select)
    (hparameters : n.type ≠ .parameters) : n.parameters = [] := by
  unfold HoldsParameters at h
  split at h
  · next heq => exact absurd heq hselect
  · next heq => exact absurd heq hparameters
  · exact h

/-- **Reading starts with the fresh node.** -/
theorem progress_fresh (h : n.IsRestorable P catalogue) (id : NodeId) :
    Progress P catalogue id [] n (freshLike id n) := by
  rw [freshLike_eq h.name]
  refine ⟨rfl, (NodeKind.partly_nil h.kind).symm, rfl, ?_, ?_, rfl, rfl⟩
  · exact h.keywords.progress n.type.isDeclared_keywords
  · unfold partlyParameters
    by_cases hselect : n.type = .select
    · simp [hselect, h.parameters.eq_select hselect, renumbered]
    by_cases hparameters : n.type = .parameters
    · simp [hparameters]
    · simp [hselect, hparameters, h.parameters.eq_nil hselect hparameters, renumbered]

theorem Progress.type_eq (h : Progress P catalogue id done n now) : now.type = n.type := by
  rw [Node.type, Node.type, h.kind, NodeKind.type_partly]

theorem Progress.branchKeyword (h : Progress P catalogue id done n now) :
    now.branch.map Level.keyword = now.type.branchKeyword? := by
  rw [h.branch, h.type_eq, Option.map_map]
  exact Option.map_id'

/-! ## Keywords -/

/-- The keywords of a node are those of its type. -/
theorem Fits.exists_declared {R : KeywordData → KeywordData → Prop} (h : n.Fits R P catalogue)
    {k : Keyword} (hk : k ∈ n.keywords.keywords) :
    ∃ d ∈ n.type.keywords.keywords, k.name = d.name := by
  obtain ⟨d, hd, hmatch⟩ := h.keywords.exists_declared hk
  exact ⟨d, hd, hmatch.name⟩

theorem Fits.isReserved_name {R : KeywordData → KeywordData → Prop} (h : n.Fits R P catalogue)
    {k : Keyword} (hk : k ∈ n.keywords.keywords) : n.type.isReserved k.name = false := by
  obtain ⟨d, hd, hname⟩ := h.exists_declared hk
  exact hname ▸ NodeType.isReserved_name hd

theorem Fits.isPlain_name {R : KeywordData → KeywordData → Prop} (h : n.Fits R P catalogue)
    {k : Keyword} (hk : k ∈ n.keywords.keywords) : IsPlain k.name := by
  obtain ⟨d, hd, hname⟩ := h.exists_declared hk
  exact hname ▸ NodeType.isPlain_name hd

theorem Fits.hasDistinctNames {R : KeywordData → KeywordData → Prop} (h : n.Fits R P catalogue) :
    n.keywords.HasDistinctNames :=
  h.keywords.hasDistinctNames n.type.hasDistinctNames_keywords

/-- Types that have no keywords. -/
theorem Fits.keywords_eq_nil {R : KeywordData → KeywordData → Prop} (h : n.Fits R P catalogue)
    (htype : n.type = .dynamicSite ∨ n.type = .parameters) : n.keywords.keywords = [] := by
  have hmatch := h.keywords.keywords
  rcases htype with htype | htype <;>
  · rw [htype] at hmatch
    exact List.forall₂_nil_left_iff.1 hmatch

/-- A node that has a keyword is of another type. -/
theorem Fits.type_ne_of_mem {R : KeywordData → KeywordData → Prop} (h : n.Fits R P catalogue)
    {k : Keyword} (hk : k ∈ n.keywords.keywords) :
    n.type ≠ .dynamicSite ∧ n.type ≠ .parameters := by
  constructor <;>
  · intro htype
    rw [h.keywords_eq_nil (by simp [htype])] at hk
    cases hk

theorem ne_of_isReserved_eq_false {t : NodeType} {s : String} (h : t.isReserved s = false) :
    s ≠ parameterKeyword ∧ s ≠ NodeType.dynamicSite.keyword := by
  constructor <;>
  · rintro rfl
    simp [NodeType.isReserved] at h

/-- **The entry of a keyword brings back this keyword.** -/
theorem Progress.keyword (h : Progress P catalogue id done n now) (hn : n.IsRestorable P catalogue)
    {k : Keyword} (hk : k ∈ n.keywords.setKeywords) (hnew : k.name ∉ done) :
    ∃ k', now.keywords.find? k.name = some k' ∧ k'.name = k.name ∧
      k'.data.Restorable P catalogue k.data ∧
      Progress P catalogue id (k.name :: done) n
        { now with keywords := now.keywords.update k.name fun k' => k'.setTo k.data.unlinked } := by
  obtain ⟨k', hfind, hname, hdata, hprogress⟩ := h.keywords.update hn.hasDistinctNames hk hnew
  have hmem := (List.mem_filter.1 hk).1
  obtain ⟨hparameter, hblock⟩ := ne_of_isReserved_eq_false (hn.isReserved_name hmem)
  refine ⟨k', hfind, hname, hdata, h.identity, ?_, h.name, hprogress, ?_, h.replaced, h.branch⟩
  · rw [h.kind, NodeKind.partly_cons hblock]
    exact fun htype => absurd htype (hn.type_ne_of_mem hmem).1
  · rw [h.parameters]
    simp [partlyParameters, hparameter.symm]

/-! ## Other entries -/

/-- **Any other entry** brings back the parts of the node that are written under its key. -/
theorem Progress.other (h : Progress P catalogue id done n now) {key : String}
    (hkey : ∀ k ∈ n.keywords.keywords, k.name ≠ key) :
    Progress P catalogue id (key :: done) n
      { now with
        kind := n.kind.partly (key :: done)
        parameters := n.partlyParameters (key :: done) } := by
  refine ⟨h.identity, rfl, h.name, ⟨h.keywords.deprecated, ?_⟩, rfl, h.replaced, h.branch⟩
  exact List.forall₂_iff_get.2 ⟨h.keywords.keywords.length_eq, fun i hi hi' =>
    ((List.forall₂_iff_get.1 h.keywords.keywords).2 i hi hi').cons (hkey _ (List.get_mem _ _))⟩

theorem renumbered_concat (parameters : List Declared) (d : Declared) :
    renumbered (parameters ++ [d]) =
      renumbered parameters ++ [⟨parameters.length, d.parameter⟩] := by
  simp [renumbered, List.mapIdx_append]

/-- A parameter that was read before is declared behind those that stood before it. -/
theorem declareRead_renumbered {m : Node} (htype : m.type = .parameters) {before : List Declared}
    (hparameters : m.parameters = renumbered before) (hreplaced : m.replaced = [])
    {d : Declared} {more : List Declared} (hread : AreReadParameters (before ++ d :: more)) :
    m.declareRead d.parameter.name d.parameter.value =
      .ok { m with parameters := renumbered (before ++ [d]) } := by
  -- No parameter that stands there has this name, so none is replaced.
  have hkept : (renumbered before).filter
      (fun e => !sameName e.parameter.name d.parameter.name) = renumbered before := by
    rw [List.filter_eq_self]
    intro e he
    obtain ⟨i, hi, rfl⟩ := List.mem_mapIdx.1 he
    simp [(List.pairwise_append.1 hread.distinct).2.2 _ (List.getElem_mem hi) d (by simp)]
  have hgone : (renumbered before).filter
      (fun e => !!sameName e.parameter.name d.parameter.name) = [] := by
    rw [List.filter_eq_nil_iff]
    intro e he
    have := (List.filter_eq_self.1 hkept) e he
    simpa using this
  have hgroup : m.type.groupsParameters = false := by rw [htype]; rfl
  have hpublic : d.parameter = ⟨d.parameter.name, none, d.parameter.value⟩ := by
    rw [← hread.groups d (by simp)]
  have hlength : (renumbered before).length = before.length := List.length_mapIdx
  rw [declareRead, if_pos (hread.names d (by simp)), declare, hgroup, hparameters, hreplaced]
  dsimp only
  rw [hkept, hgone, renumbered_concat, hpublic, hlength]
  simp only [List.length_nil, Nat.add_zero, List.append_nil, Bool.false_eq_true, if_false]

/-- **Once all entries were read, the node is back.** -/
theorem Progress.eq_reissued (h : Progress P catalogue id done n now)
    (hn : n.IsRestorable P catalogue) (hkeywords : ∀ k ∈ n.keywords.setKeywords, k.name ∈ done)
    (hkind : n.kind.partly done = n.kind)
    (hparameters : n.type = .parameters → n.parameters ≠ [] → parameterKeyword ∈ done) :
    now = n.reissued id .any := by
  have hback : now.parameters = renumbered n.parameters := by
    rw [h.parameters, partlyParameters]
    split
    · next hnot =>
        have hnil : n.parameters = [] := not_not.1 fun hne => hnot.2 (hparameters hnot.1 hne)
        rw [hnil]
        rfl
    · rfl
  have hbranch : now.branch = n.branch.map fun l => { Level.branch id l.keyword with context := .any } := by
    rw [h.branch, ← hn.branch, Option.map_map]
    rfl
  -- Field by field.
  obtain ⟨nowId, nowKind, nowName, nowKeywords, nowParameters, nowReplaced, nowBranch⟩ := now
  obtain rfl : nowId = id := h.identity
  obtain rfl : nowKind = n.kind := h.kind.trans hkind
  obtain rfl : nowName = n.name := h.name
  obtain rfl : nowKeywords = n.keywords.unlinked := h.keywords.eq_unlinked hkeywords
  obtain rfl : nowReplaced = [] := h.replaced
  simp only at hback hbranch
  subst hback hbranch
  rfl

end Node

end SiteAnalysis
